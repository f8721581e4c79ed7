/-
# Pulse rates

The interval timer divides its input clock by a 16-bit divisor and fires once
per cycle of the result. `PulseRate.ofFrequencies?` finds the divisor for a
wanted number of pulses per second, and `PulseRate.program` is what has to be
written to the timer's I/O addresses.

Key definitions: `PulseRate`, `PulseRate.ofFrequencies?`, `PulseRate.program`.
Key theorems: `PulseRate.ofFrequencies?_eq_none_iff`.
-/
import PulseKernel.Pulse.ControlWord
import PulseKernel.Time.TickClock

namespace PulseKernel

/-- A rate the interval timer can be programmed to. -/
structure PulseRate where
  /-- The input clock, in hertz. -/
  sourceHz : UInt32
  /-- The value the timer counts down from. -/
  divisor : UInt16
deriving DecidableEq, Repr

namespace PulseRate

/-- The rate for a number of pulses per second, if its divisor is not zero and fits 16 bits. -/
def ofFrequencies? (sourceHz ticksPerSecond : UInt32) : Option PulseRate :=
  if ticksPerSecond = 0 then none
  else
    let divisor := sourceHz.toNat / ticksPerSecond.toNat
    if divisor = 0 ∨ UInt16.size ≤ divisor then none
    else some { sourceHz := sourceHz, divisor := UInt16.ofNat divisor }

/-- The time from one pulse to the next in nanoseconds, rounded down. -/
def period (r : PulseRate) : Nat := r.divisor.toNat * nanosPerSecond / r.sourceHz.toNat

/-- How much longer than a tick the period is, in nanoseconds. -/
def drift (r : PulseRate) : Int := (r.period : Int) - (nanosPerTick : Int)

/-- Whether adding this remainder at each pulse keeps the ticks in step with the period. -/
def tracks (r : PulseRate) (remainder : Nat) : Bool := decide ((remainder : Int) = r.drift)

/-- The I/O address of the timer's command byte. -/
def commandAddress : UInt16 := 0x43

/-- The I/O address of the timer's channel 0. -/
def channelAddress : UInt16 := 0x40

/-- The bytes that set channel 0 to the rate, each with the I/O address it goes to. -/
def program (r : PulseRate) : List (UInt16 × UInt8) :=
  [(commandAddress, ControlWord.rateGenerator.bits),
    (channelAddress, r.divisor.toUInt8),
    (channelAddress, (r.divisor >>> 8).toUInt8)]

/-- There is no rate for zero pulses, for more pulses than the input clock has, and for so few
that the divisor would need a 17th bit. -/
theorem ofFrequencies?_eq_none_iff {s t : UInt32} :
    ofFrequencies? s t = none ↔
      t = 0 ∨ s.toNat / t.toNat = 0 ∨ UInt16.size ≤ s.toNat / t.toNat := by
  unfold ofFrequencies?
  by_cases h : t = 0
  · simp [h]
  · simp only [h, if_false, false_or]
    split <;> simp_all

end PulseRate

end PulseKernel
