/-
# Requests

What threads ask of the scheduler, as data, apart from what takes the
processor away from them: registering and releasing, cancelling sleeps, and
questions.

Key definitions: `Request`, `Response`, `Scheduler.serve`.
-/
import PulseKernel.Scheduler.Audit
import PulseKernel.Scheduler.Sleep

namespace PulseKernel

/-- Something asked of the scheduler. -/
inductive Request where
  /-- A slot for a thread that starts from the context. -/
  | register (context : SavedContext)
  /-- The end of a thread. -/
  | release (thread : ThreadId)
  /-- The early end of the sleep until a deadline. -/
  | cancelSleep (deadline : Nat)
  /-- The end of a thread's sleep, without making it ready. -/
  | cancelThreadSleep (thread : ThreadId)
  | ticks
  | uptime
  | stats
  | isSleeping (thread : ThreadId)
  /-- The comparison of tags and structures. -/
  | audit
deriving DecidableEq, Repr

/-- The answer to a request. -/
inductive Response where
  | registered (outcome : Except Refusal ThreadId)
  | released (outcome : Except Refusal Unit)
  /-- The thread that was woken, if there was one. -/
  | woken (thread : Option ThreadId)
  /-- The deadline that the thread was sleeping until, if it slept. -/
  | removed (deadline : Option Nat)
  | ticks (count : Nat)
  | uptime (span : Span)
  | stats (stats : Stats)
  | sleeping (answer : Bool)
  /-- The tags and the structures agree. -/
  | consistent

namespace Scheduler

variable {π : Type}

/-- Gives a thread a slot. -/
def register (s : Scheduler π) (context : SavedContext) :
    Logged (Except Refusal ThreadId × Scheduler π) :=
  let (outcome, threads) := s.threads.register context
  let s := { s with threads := threads }
  match outcome with
  | .error refusal => return (.error refusal, s)
  | .ok t => do
    Logged.note (.registered t)
    return (.ok t, s)

/-- Takes a thread's slot back. The thread must be neither asleep nor on a queue. -/
def release (s : Scheduler π) (t : ThreadId) : Logged (Except Refusal Unit × Scheduler π) :=
  let (outcome, threads) := s.threads.release t
  let s := { s with threads := threads }
  match outcome with
  | .error refusal => return (.error refusal, s)
  | .ok () => do
    Logged.note (.released t)
    return (.ok (), s)

variable [Policy π]

/-- Serves a request. -/
def serve (s : Scheduler π) : Request → Logged (Response × Scheduler π)
  | .register context => do
    let (outcome, s) ← s.register context
    return (.registered outcome, s)
  | .release t => do
    let (outcome, s) ← s.release t
    return (.released outcome, s)
  | .cancelSleep deadline => do
    let (t, s) ← s.cancelSleep deadline
    return (.woken t, s)
  | .cancelThreadSleep t => do
    let (deadline, s) ← s.cancelThreadSleep t
    return (.removed deadline, s)
  | .ticks => return (.ticks s.clock.ticks, s)
  | .uptime => return (.uptime s.clock.uptime, s)
  | .stats => return (.stats s.stats, s)
  | .isSleeping t => return (.sleeping (s.isSleeping t), s)
  | .audit => do
    s.audit
    return (.consistent, s)

end Scheduler

end PulseKernel
