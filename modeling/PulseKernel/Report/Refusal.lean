/-
# Refused requests

A request that cannot be met is refused before anything has changed.

Key definitions: `Refusal`, `Refusal.message`.
-/
import PulseKernel.Thread.Basic

namespace PulseKernel

/-- Why a request is refused. -/
inductive Refusal where
  /-- All slots of the thread table are taken. -/
  | threadLimitReached (limit : Nat)
  /-- All entries of the sleep queue are taken. -/
  | sleepQueueFull (capacity : Nat)
  /-- The thread is owned by a queue already. -/
  | alreadyQueued (thread : ThreadId)
  /-- The thread is owned by a queue and cannot be released. -/
  | stillQueued (thread : ThreadId)
  /-- No such thread is registered. -/
  | notRegistered (thread : ThreadId)
deriving DecidableEq, Repr

namespace Refusal

/-- The message shown for the refusal. -/
def message : Refusal → String
  | threadLimitReached limit => s!"Thread limit reached: {limit}"
  | sleepQueueFull capacity => s!"Sleep queue full: {capacity} entries"
  | alreadyQueued t => s!"Thread {t.text} already queued"
  | stillQueued t => s!"Thread {t.text} still queued, cannot release"
  | notRegistered t => s!"Thread {t.text} not registered"

/-- What could be done about it. -/
def hint : Refusal → String
  | threadLimitReached _ => "Release finished threads or raise sched.max_threads"
  | sleepQueueFull _ => "Raise sched.sleep_slots"
  | alreadyQueued _ => "Only the running, unqueued thread may sleep"
  | stillQueued _ => "Cancel the sleep before releasing the thread"
  | notRegistered _ => "Thread may have already been released"

/-- Whether the same request can succeed later. -/
def isRecoverable : Refusal → Bool
  | notRegistered _ => false
  | _ => true

/-- How grave the refusal is, from 0 to 3. -/
def severity : Refusal → Nat
  | notRegistered _ => 2
  | _ => 1

end Refusal

end PulseKernel
