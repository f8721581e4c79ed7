/-
# Recorded policies

Any policy together with a record of the calls that changed it.

Key definitions: `PolicyCall`, `Recorded`, `Recorded.calls`.
Key theorems: `Recorded.calls_addReady`, `Recorded.calls_pickNext`.
-/
import PulseKernel.Policy.Basic

namespace PulseKernel

/-- A call that changes a policy. -/
inductive PolicyCall where
  /-- A thread was added to those that can run. -/
  | addReady (thread : ThreadId)
  /-- The thread was chosen. -/
  | pickNext (thread : ThreadId)
deriving DecidableEq, Repr

/-- A policy and the calls made to it. -/
structure Recorded (π : Type) where
  policy : π
  /-- The calls, the last one first. -/
  history : List PolicyCall := []
deriving DecidableEq, Repr

namespace Recorded

variable {π : Type}

/-- The calls in the order in which they were made. -/
def calls (r : Recorded π) : List PolicyCall := r.history.reverse

variable [Policy π]

instance : Policy (Recorded π) where
  addReady r t :=
    { policy := Policy.addReady r.policy t, history := .addReady t :: r.history }
  pickNext r :=
    let (t, policy) := Policy.pickNext r.policy
    (t, { policy := policy, history := .pickNext t :: r.history })
  hasOtherRunnable r :=
    let (other, policy) := Policy.hasOtherRunnable r.policy
    (other, { r with policy := policy })
  current r :=
    let (t, policy) := Policy.current r.policy
    (t, { r with policy := policy })

instance [SteadyPolicy π] : SteadyPolicy (Recorded π) where
  hasOtherRunnable_snd r := by
    simp [Policy.hasOtherRunnable, SteadyPolicy.hasOtherRunnable_snd]
  current_snd r := by
    simp [Policy.current, SteadyPolicy.current_snd]

theorem calls_addReady (r : Recorded π) (t : ThreadId) :
    (Policy.addReady r t).calls = r.calls ++ [.addReady t] := by
  simp [calls, Policy.addReady]

theorem calls_pickNext (r : Recorded π) :
    (Policy.pickNext r).2.calls = r.calls ++ [.pickNext (Policy.pickNext r).1] := by
  simp [calls, Policy.pickNext]

end Recorded

end PulseKernel
