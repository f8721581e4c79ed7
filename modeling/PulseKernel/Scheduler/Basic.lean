/-
# The scheduler

The scheduler owns the tick clock, the thread table, the sleep queue and a
hand-off queue on which woken threads wait to be passed to the policy. All its
steps are meant to run with the timer interrupt masked, or inside it.

A step answers a value and the scheduler afterwards; it leaves notices, and it
ends in a fault only if a structure is corrupted.

Key definitions: `Stats`, `Scheduler`, `Scheduler.handOff`,
`Scheduler.flushHandoff`, `Scheduler.wake`, `Scheduler.planSwitch`.
-/
import PulseKernel.Boot.Settings
import PulseKernel.Policy.Basic
import PulseKernel.Queue.Ready
import PulseKernel.Queue.Sleep
import PulseKernel.Thread.Switch

namespace PulseKernel

/-- What the scheduler has counted since boot. The counts have 64 bits; that they wrap around at
2^64 is left out here. -/
structure Stats where
  /-- The pulses of the timer. -/
  pulses : Nat := 0
  /-- The pulses that came before the system had booted. -/
  earlyPulses : Nat := 0
  /-- The sleepers woken by their deadline. -/
  expirations : Nat := 0
  /-- The sleepers taken out before their deadline. -/
  cancellations : Nat := 0
  /-- The rotations made because the quantum was over. -/
  rotations : Nat := 0
  /-- The threads that were not put on the hand-off queue. -/
  redundantEnqueues : Nat := 0
  /-- The switches planned. -/
  contextSwitches : Nat := 0
deriving DecidableEq, Repr

namespace Stats

/-- The counts as messages show them. -/
def text (s : Stats) : String :=
  s!"pulses={s.pulses} early={s.earlyPulses} expired={s.expirations} " ++
    s!"cancelled={s.cancellations} rotations={s.rotations} " ++
    s!"redundant={s.redundantEnqueues} switches={s.contextSwitches}"

end Stats

/-- The state of the scheduler; `π` is the type of the policy. -/
structure Scheduler (π : Type) where
  clock : TickClock
  sleepers : SleepQueue
  /-- The threads on their way to the policy. -/
  handoff : ReadyQueue
  threads : ThreadTable
  policy : π
  /-- The ticks from one rotation to the next. -/
  quantum : Nat
  stats : Stats := {}
deriving DecidableEq, Repr

namespace Scheduler

variable {π : Type}

/-- The scheduler as it is after boot. -/
def ofSettings (settings : Settings) (policy : π) (handoff : QueueId) : Scheduler π where
  clock := .stopped settings.remainder.toNat
  sleepers := { capacity := settings.sleepSlots }
  handoff := { id := handoff }
  threads := .ofCapacity settings.maxThreads
  policy := policy
  quantum := settings.quantum.toNat

/-- Whether the thread is registered and asleep. -/
def isSleeping (s : Scheduler π) (t : ThreadId) : Bool := s.threads.hasTag t .asleep

/-- Puts a thread on the hand-off queue, and counts it if it cannot be put there. -/
def handOff (s : Scheduler π) (t : ThreadId) : Logged (Scheduler π) := do
  let (joined, handoff, threads) ← s.handoff.enqueue s.threads t
  let s := { s with handoff := handoff, threads := threads }
  if joined then return s
  return { s with stats := { s.stats with redundantEnqueues := s.stats.redundantEnqueues + 1 } }

/-- The plan for a switch, counted if there is one. A policy may name threads that cannot be
switched between; then there is no switch. -/
def planSwitch (s : Scheduler π) (source target : ThreadId) :
    Logged (Option SwitchPlan × Scheduler π) :=
  match SwitchPlan.between s.threads source target with
  | .ok none => return (none, s)
  | .ok (some plan) =>
    let stats := { s.stats with contextSwitches := s.stats.contextSwitches + 1 }
    return (some plan, { s with stats := stats })
  | .error refusal => do
    Logged.note (.dispatchFailed source target refusal)
    return (none, s)

variable [Policy π]

/-- The thread that holds the processor, as the policy has it. -/
def current (s : Scheduler π) : ThreadId × Scheduler π :=
  let (t, policy) := Policy.current s.policy
  (t, { s with policy := policy })

/-- Whether the policy has another thread that can run. -/
def hasOtherRunnable (s : Scheduler π) : Bool × Scheduler π :=
  let (other, policy) := Policy.hasOtherRunnable s.policy
  (other, { s with policy := policy })

/-- The thread that the policy runs next. -/
def pickNext (s : Scheduler π) : ThreadId × Scheduler π :=
  let (t, policy) := Policy.pickNext s.policy
  (t, { s with policy := policy })

/-- Passes the threads of the hand-off queue to the policy, `most` of them at most. -/
def flushUpTo : Nat → Scheduler π → Logged (Scheduler π)
  | 0, _ => Logged.fail .endlessWalk
  | most + 1, s => do
    let (first, handoff, threads) ← s.handoff.dequeue s.threads
    let s := { s with handoff := handoff, threads := threads }
    match first with
    | none => return s
    | some t => flushUpTo most { s with policy := Policy.addReady s.policy t }

/-- Passes the threads of the hand-off queue to the policy, in their order. Every thread that
leaves the queue loses its tag, so there are not more of them than slots. -/
def flushHandoff (s : Scheduler π) : Logged (Scheduler π) :=
  s.flushUpTo (s.threads.capacity + 1)

/-- Makes a sleeper that has been taken out of the sleep queue ready. If it still holds the
processor, it goes on by itself and must not be added to the policy's threads. -/
def wake (s : Scheduler π) (t : ThreadId) : Logged (Scheduler π) := do
  let (running, s) := s.current
  if t = running then
    Logged.note (.resumesInPlace t)
    return s
  else s.handOff t

end Scheduler

end PulseKernel
