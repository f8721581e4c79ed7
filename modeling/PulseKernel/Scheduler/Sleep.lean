/-
# Falling asleep and waking early

The running thread can be put to sleep until a deadline, and a sleeper can be
taken out before its deadline: by the deadline, which makes it ready, or by
its name, which does not.

A sleeper that nothing else can run beside keeps the processor and waits; after
every interrupt it is looked at again.

Key definitions: `SleepTicket`, `Scheduler.beginSleep`, `Scheduler.cancelSleep`,
`Scheduler.cancelThreadSleep`, `IdleVerdict`, `Scheduler.reconsider`.
-/
import PulseKernel.Scheduler.Basic

namespace PulseKernel

/-- What became of a thread that fell asleep. -/
structure SleepTicket where
  /-- The thread that sleeps now. -/
  thread : ThreadId
  /-- The switch to make. There is none if the policy has nothing else to run. -/
  plan : Option SwitchPlan
deriving DecidableEq, Repr

/-- What a waiting sleeper is to do after an interrupt. -/
inductive IdleVerdict where
  /-- It sleeps no more and goes on. -/
  | goOn
  /-- It sleeps, and waits for the next interrupt. -/
  | wait
  /-- It sleeps, and gives the processor to another thread. -/
  | giveWay (plan : SwitchPlan)
deriving DecidableEq, Repr

namespace Scheduler

variable {π : Type}

/-- The scheduler with one more cancellation counted. -/
def countCancellation (s : Scheduler π) : Scheduler π :=
  { s with stats := { s.stats with cancellations := s.stats.cancellations + 1 } }

/-- Takes a thread out of the sleep queue without making it ready, and answers the deadline it was
sleeping until. -/
def cancelThreadSleep (s : Scheduler π) (t : ThreadId) : Logged (Option Nat × Scheduler π) := do
  let (deadline, sleepers, threads) ← s.sleepers.removeThread s.threads t
  let s := { s with sleepers := sleepers, threads := threads }
  match deadline with
  | none => return (none, s)
  | some deadline => return (some deadline, s.countCancellation)

variable [Policy π]

/-- Puts the running thread to sleep until a deadline and lets the policy choose the next one. A
refusal changes nothing. -/
def beginSleep (s : Scheduler π) (deadline : Nat) :
    Logged (Except Refusal SleepTicket × Scheduler π) := do
  let (running, s) := s.current
  let (outcome, sleepers, threads) ← s.sleepers.insert s.threads deadline running
  let s := { s with sleepers := sleepers, threads := threads }
  match outcome with
  | .error refusal => return (.error refusal, s)
  | .ok () => do
    Logged.note (.fellAsleep running deadline)
    let (next, s) := s.pickNext
    let (plan, s) ← s.planSwitch running next
    return (.ok ⟨running, plan⟩, s)

/-- Wakes the oldest sleeper with exactly this deadline, if there is one. -/
def cancelSleep (s : Scheduler π) (deadline : Nat) : Logged (Option ThreadId × Scheduler π) := do
  let (woken, sleepers, threads) ← s.sleepers.remove s.threads deadline
  let s := { s with sleepers := sleepers, threads := threads }
  match woken with
  | none => do
    Logged.note (.nothingToCancel deadline)
    return (none, s)
  | some t => do
    let s ← s.countCancellation.wake t
    let s ← s.flushHandoff
    return (some t, s)

/-- What a sleeper that waits is to do now. The policy is asked for the next thread only if it has
another one, and its answer counts only if it can be switched to. -/
def reconsider (s : Scheduler π) (me : ThreadId) : Logged (IdleVerdict × Scheduler π) :=
  if !s.isSleeping me then return (.goOn, s)
  else
    let (other, s) := s.hasOtherRunnable
    if !other then return (.wait, s)
    else do
      let (next, s) := s.pickNext
      match ← s.planSwitch me next with
      | (none, s) => return (.wait, s)
      | (some plan, s) => return (.giveWay plan, s)

end Scheduler

end PulseKernel
