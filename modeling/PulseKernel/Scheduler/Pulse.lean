/-
# Pulses

What one pulse of the timer does: it counts a tick, wakes the sleepers that
are due, and rotates the running thread when its quantum is over. Before the
system has booted only the clock moves.

No switch is made here. A pulse answers the plan, and the switch is made when
the scheduler has been left.

Key definitions: `PulseOutcome`, `Scheduler.tick`, `Scheduler.expireDue`,
`Scheduler.rotate`.
-/
import PulseKernel.Scheduler.Basic

namespace PulseKernel

/-- What a pulse asks for, and what it took. -/
structure PulseOutcome where
  /-- The switch to make. -/
  plan : Option SwitchPlan := none
  /-- How often the monotonic clock was read. -/
  clockReads : Nat := 0
deriving DecidableEq, Repr

namespace Scheduler

variable {π : Type}

/-- The scheduler with one more expiration counted. -/
def countExpiration (s : Scheduler π) : Scheduler π :=
  { s with stats := { s.stats with expirations := s.stats.expirations + 1 } }

/-- Counts the pulse and lets the clock go on. -/
def countPulse (s : Scheduler π) : Logged (Scheduler π) :=
  match s.clock.advance? with
  | none => Logged.fail .clockOverflow
  | some clock =>
    return { s with clock := clock, stats := { s.stats with pulses := s.stats.pulses + 1 } }

variable [Policy π]

/-- Wakes the sleepers whose deadline is not after `now`, the earliest first, `most` of them at
most. -/
def expireUpTo (now : Nat) : Nat → Scheduler π → Logged (Scheduler π)
  | 0, s => return s
  | most + 1, s =>
    match s.sleepers.earliest? with
    | none => return s
    | some deadline =>
      if now < deadline then return s
      else do
        let (woken, sleepers, threads) ← s.sleepers.remove s.threads deadline
        let s := { s with sleepers := sleepers, threads := threads }
        match woken with
        | none =>
          Logged.violate "sleep queue" "peeked deadline vanished before removal"
            (.ok s.sleepers.dump)
        | some t => do
          Logged.note (.expired t deadline now)
          let s ← s.countExpiration.wake t
          expireUpTo now most s

/-- Wakes every sleeper that is due and passes them to the policy; answers how often the clock was
read. It is read only if somebody sleeps. -/
def expireDue (s : Scheduler π) (now : Nat) : Logged (Nat × Scheduler π) :=
  if s.sleepers.isEmpty then return (0, s)
  else do
    let s ← s.expireUpTo now s.sleepers.size
    let s ← s.flushHandoff
    return (1, s)

/-- Gives the processor to the next thread at every tick that is a multiple of the quantum, if
another thread can run. The running thread goes back to the policy, unless it sleeps: then it
keeps its place in the sleep queue and is not ready. -/
def rotate (s : Scheduler π) : Logged (Option SwitchPlan × Scheduler π) :=
  let (other, s) := s.hasOtherRunnable
  if !other then return (none, s)
  else if s.quantum = 0 then Logged.fail .zeroQuantum
  else if s.clock.ticks % s.quantum ≠ 0 then return (none, s)
  else do
    let (running, s) := s.current
    let s ←
      if s.isSleeping running then pure s
      else do
        let s ← s.handOff running
        s.flushHandoff
    let (next, s) := s.pickNext
    let s := { s with stats := { s.stats with rotations := s.stats.rotations + 1 } }
    s.planSwitch running next

/-- One pulse at the time `now`. -/
def tick (s : Scheduler π) (now : Nat) (booted : Bool) : Logged (PulseOutcome × Scheduler π) := do
  let s ← s.countPulse
  if !booted then
    return ({}, { s with stats := { s.stats with earlyPulses := s.stats.earlyPulses + 1 } })
  let (clockReads, s) ← s.expireDue now
  let (plan, s) ← s.rotate
  return (⟨plan, clockReads⟩, s)

end Scheduler

end PulseKernel
