/-
# Spans of time

Instants and deadlines are counted in nanoseconds on the board's monotonic
clock, which has 64 bits; a span may be longer than that clock can show.

Key definitions: `Span`, `deadlineAfter`.
Key theorems: `Span.nanos_ofParts`, `deadlineAfter_eq`, `le_lastInstant_deadlineAfter`.
-/

namespace PulseKernel

/-- The number of nanoseconds in a second. -/
def nanosPerSecond : Nat := 1000000000

/-- The last instant that the monotonic clock can show. -/
def lastInstant : Nat := UInt64.size - 1

/-- A length of time. -/
structure Span where
  /-- The length in nanoseconds. -/
  nanos : Nat
deriving DecidableEq, Repr

namespace Span

/-- The span of so many seconds and nanoseconds. -/
def ofParts (seconds nanos : Nat) : Span := ⟨seconds * nanosPerSecond + nanos⟩

/-- The whole seconds of the span. -/
def seconds (s : Span) : Nat := s.nanos / nanosPerSecond

/-- The nanoseconds beyond the whole seconds. -/
def subsecond (s : Span) : Nat := s.nanos % nanosPerSecond

/-- The length as far as the clock can count it. -/
def counted (s : Span) : Nat := min s.nanos lastInstant

@[simp] theorem nanos_ofParts (seconds nanos : Nat) :
    (ofParts seconds nanos).nanos = seconds * nanosPerSecond + nanos := rfl

end Span

/-- The deadline a delay after `now`; a delay beyond the end of the clock ends there. -/
def deadlineAfter (now : Nat) (delay : Span) : Nat :=
  min (now + delay.counted) lastInstant

/-- A delay that the clock cannot count ends where the clock does, whenever it begins. -/
theorem deadlineAfter_eq (now : Nat) (delay : Span) :
    deadlineAfter now delay = min (now + delay.nanos) lastInstant := by
  unfold deadlineAfter Span.counted
  omega

theorem le_lastInstant_deadlineAfter (now : Nat) (delay : Span) :
    deadlineAfter now delay ≤ lastInstant :=
  Nat.min_le_right _ _

end PulseKernel
