/-
# Runs of the machine

What can happen to the machine, as data: interrupts, sleeps, requests, and
changes from outside. A sleep carries what happens during its waits, which may
again be sleeps.

Key definitions: `Action`, `Action.run`, `Machine.perform`, `Machine.performAll`.
-/
import PulseKernel.Machine.Timer

namespace PulseKernel

/-- Something that happens to the machine. -/
inductive Action (π : Type) where
  /-- So many interrupts of the timer. -/
  | pulses (count : Nat)
  /-- The running thread sleeps until a deadline; `during` is what happens in each wait. -/
  | sleepUntil (deadline : Nat) (during : List (List (Action π)))
  /-- The running thread sleeps for a span of time. -/
  | sleepFor (delay : Span) (during : List (List (Action π)))
  /-- A request to the scheduler. -/
  | request (request : Request)
  /-- The question for the rate of the timer. -/
  | askRate
  /-- A change to the policy, made inside the scheduler. -/
  | adjustPolicy (change : π → π)
  /-- A change to the board from outside. -/
  | changeBoard (change : Board.Change)

namespace Action

variable {π : Type} [Policy π]

mutual

/-- What the action does to the machine. -/
def run : Action π → MachineM π Reply
  | pulses count => do
    MachineM.pulses count
    return .done
  | sleepUntil deadline during => do
    return .slept (← MachineM.sleepUntil deadline (interludes during))
  | sleepFor delay during => do
    return .slept (← MachineM.sleepFor delay (interludes during))
  | request r => do
    return .response (← MachineM.request r)
  | askRate => fun m => (.ok (.rate m.rate), m)
  | adjustPolicy change => do
    MachineM.withScheduler fun s => return ((), { s with policy := change s.policy })
    return .done
  | changeBoard change => do
    MachineM.changeBoard (·.apply change)
    return .done

/-- What the actions do, one after the other, and their replies. -/
def runAll : List (Action π) → MachineM π (List Reply)
  | [] => return []
  | action :: rest => do
    let reply ← run action
    let replies ← runAll rest
    return reply :: replies

/-- What happens in each wait. -/
def interludes : List (List (Action π)) → List (MachineM π (List Reply))
  | [] => []
  | actions :: rest => runAll actions :: interludes rest

end

end Action

namespace Machine

variable {π : Type} [Policy π]

/-- Performs an action from outside of any wait; an action that stalled in a wait has left it. -/
def perform (m : Machine π) (action : Action π) : Except Halt Reply × Machine π :=
  action.run { m with board := { m.board with nesting := 0 } }

/-- The machine after the actions. The next one follows also if one halts. -/
def performAll (m : Machine π) (actions : List (Action π)) : Machine π :=
  actions.foldl (fun m action => (m.perform action).2) m

end Machine

end PulseKernel
