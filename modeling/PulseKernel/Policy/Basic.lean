/-
# Policies

Which thread runs next is decided by a policy outside the scheduler. The
scheduler only decides when to ask. A policy may change at every call, also at
one that asks it something; a policy that does not is steady.

Key definitions: `Policy`, `SteadyPolicy`.
-/
import PulseKernel.Thread.Basic

namespace PulseKernel

/-- What the scheduler asks of a policy. -/
class Policy (π : Type) where
  /-- Adds a thread to those that can run. -/
  addReady : π → ThreadId → π
  /-- Chooses the next thread and makes it the current one. It may be the one that is current. -/
  pickNext : π → ThreadId × π
  /-- Whether a thread other than the current one can run. -/
  hasOtherRunnable : π → Bool × π
  /-- The thread that holds the processor. -/
  current : π → ThreadId × π

/-- A policy that is not changed by being asked. -/
class SteadyPolicy (π : Type) [Policy π] : Prop where
  hasOtherRunnable_snd (p : π) : (Policy.hasOtherRunnable p).2 = p
  current_snd (p : π) : (Policy.current p).2 = p

end PulseKernel
