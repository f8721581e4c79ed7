/-
# The timer service

What the timer's interrupt does, and what threads can ask for. Threads enter
the scheduler only under an interrupt guard, so that the interrupt never finds
it in the middle of a step. A switch is made after the scheduler has been left,
and in the interrupt after its end has been told to the controller: the thread
that is switched away from may not come back for long.

What happens while a sleeper waits is given as a list of interludes, one for
each wait. When they have run out no interrupt comes any more.

Key definitions: `MachineM.pulse`, `MachineM.withScheduler`,
`MachineM.sleepUntil`, `MachineM.sleepFor`, `MachineM.idle`.
-/
import PulseKernel.Machine.Basic
import PulseKernel.Scheduler.Pulse

namespace PulseKernel
namespace MachineM

variable {π α : Type}

/-- Runs a step of the scheduler with interrupts kept out. -/
def withScheduler (step : Scheduler π → Logged (α × Scheduler π)) : MachineM π α :=
  masked (enter step)

/-- Notes on the trace that a thread came or went, if the answer to a request says so. -/
def recordServed : Request → Response → MachineM π Unit
  | .register context, .registered (.ok t) => record (.registered t context)
  | .release t, .released (.ok ()) => record (.released t)
  | _, _ => return

variable [Policy π]

/-- One interrupt of the timer. -/
def pulse : MachineM π Unit := do
  let now ← read (·.now)
  let booted ← read (·.booted)
  let outcome ← enter (·.tick now booted)
  if 0 < outcome.clockReads then record .clockRead
  record .endOfInterrupt
  switchIfPlanned outcome.plan

/-- So many interrupts of the timer. -/
def pulses : Nat → MachineM π Unit
  | 0 => return
  | n + 1 => do
    pulse
    pulses n

/-- Lets the sleeper `me` wait until it has been woken or another thread can run. -/
def idle (me : ThreadId) : List (MachineM π (List Reply)) → MachineM π Unit
  | [] => waitInVain
  | interlude :: rest => do
    wait interlude
    match ← enter (·.reconsider me) with
    | .goOn => return
    | .wait => idle me rest
    | .giveWay plan => switchTo plan

/-- Puts the running thread to sleep until a deadline. It comes back when it has been woken and
switched to again. -/
def sleepUntil (deadline : Nat) (interludes : List (MachineM π (List Reply))) :
    MachineM π (Except Refusal Unit) :=
  masked do
    match ← enter (·.beginSleep deadline) with
    | .error refusal => return .error refusal
    | .ok ticket => do
      match ticket.plan with
      | some plan => switchTo plan
      | none => do
        note (.idles ticket.thread)
        idle ticket.thread interludes
      return .ok ()

/-- Puts the running thread to sleep for a span of time. -/
def sleepFor (delay : Span) (interludes : List (MachineM π (List Reply))) :
    MachineM π (Except Refusal Unit) := do
  let now ← readClock
  sleepUntil (deadlineAfter now delay) interludes

/-- Serves a request to the scheduler. -/
def request (r : Request) : MachineM π Response :=
  masked do
    let answer ← enter (·.serve r)
    recordServed r answer
    return answer

end MachineM
end PulseKernel
