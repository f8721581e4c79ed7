import PulseKernel.Boot.Arguments
import PulseKernel.Log.Console
import PulseKernel.Machine.Action
import PulseKernel.Machine.Boot
import PulseKernel.Policy.Dictated
import PulseKernel.Policy.Recorded
import PulseKernel.Thread.Frame
import PulseKernel.Proofs.HeapOrder
import PulseKernel.Proofs.ReadyLine
import PulseKernel.Proofs.ThreadSlots
import PulseKernel.Proofs.SleepOrder
import PulseKernel.Proofs.SharedTable
import PulseKernel.Proofs.Ownership
import PulseKernel.Proofs.ReadyFifo
import PulseKernel.Proofs.SleepPriority
import PulseKernel.Proofs.SchedulerSound
import PulseKernel.Proofs.Audit
import PulseKernel.Proofs.SchedulerSafety
import PulseKernel.Proofs.DueSleepers
import PulseKernel.Proofs.PolicyDialogue
import PulseKernel.Proofs.Staging
import PulseKernel.Proofs.PulseEffect
import PulseKernel.Proofs.CallEffect
import PulseKernel.Proofs.NobodyLost
import PulseKernel.Proofs.ProcessorHolder
import PulseKernel.Proofs.ClockDrift
import PulseKernel.Proofs.QuantumCadence
import PulseKernel.Proofs.RefusedRequests
import PulseKernel.Proofs.StepEffect
import PulseKernel.Proofs.SleepLedger
import PulseKernel.Proofs.SleepersSpared
import PulseKernel.Proofs.CancelRace
import PulseKernel.Proofs.Stages
import PulseKernel.Proofs.Journeys
import PulseKernel.Proofs.Punctuality
import PulseKernel.Proofs.InterruptMasking
import PulseKernel.Proofs.HardwareTrace
import PulseKernel.Proofs.SavedContexts
import PulseKernel.Proofs.IdleSleep
import PulseKernel.Proofs.PlainText
import PulseKernel.Proofs.BootLine
import PulseKernel.Proofs.SettingsRoundTrip
import PulseKernel.Proofs.AuditVerdict
import PulseKernel.Proofs.RemoveOutcome
import PulseKernel.Proofs.ReadyDump
import PulseKernel.Proofs.RateArithmetic
import PulseKernel.Proofs.CoalescedPulses
import PulseKernel.Proofs.Admission
import PulseKernel.Proofs.FirstFrame
import PulseKernel.Proofs.CutLines
import PulseKernel.Proofs.SlotAllocation
import PulseKernel.Proofs.QueueIdentity
import PulseKernel.Proofs.HeapRepair
import PulseKernel.Proofs.GuardNesting
