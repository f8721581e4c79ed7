/-
# Switch plans

A plan names the thread that gives up the processor and the one that gets it.
The switch itself is made after the scheduler has been left.

Key definitions: `SwitchPlan`, `SwitchPlan.between`.
-/
import PulseKernel.Thread.Table

namespace PulseKernel

/-- A switch from one thread to another. -/
structure SwitchPlan where
  source : ThreadId
  target : ThreadId
deriving DecidableEq, Repr

namespace SwitchPlan

/-- The plan between two registered threads; none if they are the same thread. -/
def between (table : ThreadTable) (source target : ThreadId) :
    Except Refusal (Option SwitchPlan) :=
  if source = target then .ok none
  else do
    let _ ← table.context source
    let _ ← table.context target
    return some ⟨source, target⟩

end SwitchPlan

end PulseKernel
