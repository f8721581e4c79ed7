/-
# The tick clock

The clock counts milliseconds. The hardware's pulse is not exactly one
millisecond long, so each pulse also adds a fixed remainder to the pending
nanoseconds, and a full millisecond of them makes one more tick. The pending
nanoseconds are kept in 32 bits.

Key definitions: `TickClock`, `TickClock.advance?`, `TickClock.uptime`.
Key theorems: `TickClock.advance?_of_lt`.
-/
import PulseKernel.Time.Span

namespace PulseKernel

/-- The number of nanoseconds in a tick. -/
def nanosPerTick : Nat := 1000000

/-- A count of milliseconds and what is left over. -/
structure TickClock where
  /-- The milliseconds since boot. The count has 64 bits; that it wraps around at 2^64 is left out
  here. -/
  ticks : Nat
  /-- The nanoseconds not yet counted as a tick. -/
  pending : Nat
  /-- The nanoseconds that each pulse adds to those pending. -/
  remainder : Nat
deriving DecidableEq, Repr

namespace TickClock

/-- A clock that has seen no pulse. -/
def stopped (remainder : Nat) : TickClock := ⟨0, 0, remainder⟩

/-- Counts one pulse. There is no answer if the pending nanoseconds leave their 32 bits, which a
remainder below one tick never lets happen. -/
def advance? (c : TickClock) : Option TickClock :=
  let pending := c.pending + c.remainder
  if UInt32.size ≤ pending then none
  else if nanosPerTick ≤ pending then
    some { c with ticks := c.ticks + 2, pending := pending - nanosPerTick }
  else some { c with ticks := c.ticks + 1, pending := pending }

/-- Counts several pulses. -/
def advanceBy? : Nat → TickClock → Option TickClock
  | 0, c => some c
  | n + 1, c =>
    match c.advance? with
    | some c => advanceBy? n c
    | none => none

/-- The time since boot, as the ticks measure it. -/
def uptime (c : TickClock) : Span := ⟨c.ticks * nanosPerTick + c.pending⟩

/-- A clock whose pending nanoseconds and remainder are below one tick can always go on. -/
theorem advance?_of_lt {c : TickClock} (hp : c.pending < nanosPerTick)
    (hr : c.remainder < nanosPerTick) :
    c.advance? = some
      { c with
        ticks := c.ticks + 1 + (c.pending + c.remainder) / nanosPerTick
        pending := (c.pending + c.remainder) % nanosPerTick } := by
  unfold nanosPerTick at hp hr
  unfold advance? nanosPerTick
  rw [if_neg (by simp only [UInt32.size]; omega)]
  by_cases h : 1000000 ≤ c.pending + c.remainder
  · rw [if_pos h]
    simp only [Option.some.injEq, TickClock.mk.injEq, and_true]
    omega
  · rw [if_neg h]
    simp only [Option.some.injEq, TickClock.mk.injEq, and_true]
    omega

end TickClock

end PulseKernel
