/-
# The arithmetic of a rate

A rate is found by one division and described by a second one, and both lose their rest:
the divisor, times the pulses wanted, does not come up to the input clock, and the period,
times the input clock, does not come up to the nanoseconds of its counts
(`PulseRate.Exact`). Both rests lie on the same side, so the pulses never come more slowly
than they were asked for.

The code computes in words. A divisor has 16 bits, and its nanoseconds fit 64 with room to
spare, so neither the product nor the way to a signed word loses anything
(`PulseRate.toNat_periodWord`, `PulseRate.toInt_driftWord`). To the timer the divisor goes
in two bytes, which make it up again (`PulseRate.bytes_divisor`).

Boot writes these bytes to the board, or it writes nothing (`Machine.BootOutcome`): the
settings are checked before.

Key definitions: `PulseRate.periodWord`, `PulseRate.driftWord`, `PulseRate.Exact`,
`Machine.BootOutcome`.
Key theorems: `PulseRate.exists_rate_iff`, `PulseRate.exact_of_rate`,
`PulseRate.bytes_divisor`, `Machine.boot_programs_rate`.
-/
import Mathlib.Tactic.Ring
import PulseKernel.Machine.Boot

namespace PulseKernel

namespace PulseRate

variable {rate : PulseRate} {source ticks : UInt32}

/-! ### The divisor -/

theorem ofFrequencies?_eq_some_iff : ofFrequencies? source ticks = some rate ↔
    (1 ≤ source.toNat / ticks.toNat ∧ source.toNat / ticks.toNat < UInt16.size) ∧
      rate = ⟨source, UInt16.ofNat (source.toNat / ticks.toNat)⟩ := by
  unfold ofFrequencies?
  by_cases hticks : ticks = 0
  · simp [hticks]
  rw [if_neg hticks]
  dsimp only
  by_cases hdivisor : source.toNat / ticks.toNat = 0 ∨ UInt16.size ≤ source.toNat / ticks.toNat
  · rw [if_pos hdivisor]
    refine iff_of_false (by simp) ?_
    rintro ⟨⟨hone, hlt⟩, -⟩
    rcases hdivisor with hzero | hle
    · exact Nat.ne_of_gt hone hzero
    · exact Nat.not_lt.mpr hle hlt
  · rw [if_neg hdivisor]
    obtain ⟨hone, hlt⟩ := not_or.mp hdivisor
    rw [and_iff_right ⟨Nat.one_le_iff_ne_zero.mpr hone, Nat.not_le.mp hlt⟩,
      Option.some.injEq, eq_comm]

/-- There are rates from one pulse per count of the input clock down to one in 65535 counts. -/
theorem exists_rate_iff : (∃ rate, ofFrequencies? source ticks = some rate) ↔
    1 ≤ ticks.toNat ∧ ticks.toNat ≤ source.toNat ∧ source.toNat < 65536 * ticks.toNat := by
  have hfits : (∃ rate, ofFrequencies? source ticks = some rate) ↔
      1 ≤ source.toNat / ticks.toNat ∧ source.toNat / ticks.toNat < UInt16.size := by
    simp only [ofFrequencies?_eq_some_iff, exists_and_left, exists_eq, and_true]
  rw [hfits]
  rcases Nat.eq_zero_or_pos ticks.toNat with hzero | hpos
  · simp [hzero]
  · rw [Nat.le_div_iff_mul_le hpos, Nat.div_lt_iff_lt_mul hpos, Nat.one_mul]
    exact (and_iff_right hpos).symm

/-- The divisor is the quotient of the frequencies, which its 16 bits hold. -/
theorem toNat_divisor (h : ofFrequencies? source ticks = some rate) :
    rate.sourceHz = source ∧ rate.divisor.toNat = source.toNat / ticks.toNat ∧
      1 ≤ rate.divisor.toNat ∧ rate.divisor.toNat ≤ 65535 := by
  obtain ⟨⟨hone, hlt⟩, rfl⟩ := ofFrequencies?_eq_some_iff.mp h
  have hvalue : (UInt16.ofNat (source.toNat / ticks.toNat)).toNat = source.toNat / ticks.toNat :=
    UInt16.toNat_ofNat_of_lt' hlt
  refine ⟨rfl, hvalue, ?_, ?_⟩
  · rw [hvalue]
    exact hone
  · rw [hvalue]
    exact Nat.le_of_lt_succ hlt

/-- The low byte and the high byte of a divisor make it up. -/
theorem bytes_divisor (rate : PulseRate) :
    rate.divisor.toUInt8.toNat + 256 * (rate.divisor >>> 8).toUInt8.toNat =
      rate.divisor.toNat := by
  have hlt := rate.divisor.toNat_lt
  have hhigh : (rate.divisor >>> 8).toNat = rate.divisor.toNat / 256 := by
    rw [UInt16.toNat_shiftRight, Nat.shiftRight_eq_div_pow]
    rfl
  rw [UInt16.toNat_toUInt8, UInt16.toNat_toUInt8, hhigh]
  omega

/-! ### The period, in words -/

/-- The period, computed in words of 64 bits. -/
def periodWord (r : PulseRate) : UInt64 :=
  r.divisor.toUInt64 * UInt64.ofNat nanosPerSecond / r.sourceHz.toUInt64

/-- The drift, computed in signed words of 64 bits. -/
def driftWord (r : PulseRate) : Int64 := r.periodWord.toInt64 - Int64.ofNat nanosPerTick

/-- The nanoseconds of as many seconds as the divisor says fit 64 bits, and 63. -/
theorem divisor_mul_lt (rate : PulseRate) :
    rate.divisor.toNat * nanosPerSecond < UInt64.size / 2 := by
  have hlt := rate.divisor.toNat_lt
  calc rate.divisor.toNat * nanosPerSecond
      ≤ 65536 * nanosPerSecond := Nat.mul_le_mul_right _ (Nat.le_of_lt hlt)
    _ < UInt64.size / 2 := by decide

theorem period_lt (rate : PulseRate) : rate.period < UInt64.size / 2 :=
  (Nat.div_le_self _ _).trans_lt rate.divisor_mul_lt

/-- The words do not overflow on the way to the period. -/
theorem toNat_periodWord (rate : PulseRate) : rate.periodWord.toNat = rate.period := by
  have hfits : rate.divisor.toNat * nanosPerSecond < 2 ^ 64 :=
    rate.divisor_mul_lt.trans (by decide)
  have hsecond : (UInt64.ofNat nanosPerSecond).toNat = nanosPerSecond := rfl
  rw [periodWord, UInt64.toNat_div, UInt64.toNat_mul, UInt16.toNat_toUInt64, hsecond,
    UInt32.toNat_toUInt64, Nat.mod_eq_of_lt hfits, period]

/-- The period is the same number as a signed word. -/
theorem toInt_periodWord (rate : PulseRate) : rate.periodWord.toInt64.toInt = rate.period := by
  have hlt : rate.period < 2 ^ 63 := rate.period_lt
  have hword : rate.periodWord.toInt64 = Int64.ofNat rate.period := by
    rw [← toNat_periodWord, ← UInt64.toInt64_ofNat', UInt64.ofNat_toNat]
  rw [hword, Int64.toInt_ofNat_of_lt hlt]

/-- The drift is the same number as a signed word. -/
theorem toInt_driftWord (rate : PulseRate) : rate.driftWord.toInt = rate.drift := by
  have hlt : rate.period < 2 ^ 63 := rate.period_lt
  have htick : (Int64.ofNat nanosPerTick).toInt = nanosPerTick := rfl
  have hnanos : nanosPerTick = 1000000 := rfl
  rw [driftWord, Int64.toInt_sub, toInt_periodWord, htick, drift]
  apply Int.bmod_eq_of_le <;> omega

/-! ### Rounding -/

/-- The period, times the frequency of the input clock, comes up to the nanoseconds of its counts but
for less than that frequency. -/
theorem period_mul_bounds (hsource : 0 < rate.sourceHz.toNat) :
    rate.period * rate.sourceHz.toNat ≤ rate.divisor.toNat * nanosPerSecond ∧
      rate.divisor.toNat * nanosPerSecond < (rate.period + 1) * rate.sourceHz.toNat := by
  refine ⟨Nat.div_mul_le_self _ _, ?_⟩
  rw [Nat.mul_comm (rate.period + 1)]
  exact Nat.lt_mul_div_succ _ hsource

/-- As many periods as pulses are wanted in a second take a second at most. -/
theorem period_mul_ticks_le (hsource : 0 < rate.sourceHz.toNat)
    (hdivisor : rate.divisor.toNat * ticks.toNat ≤ rate.sourceHz.toNat) :
    rate.period * ticks.toNat ≤ nanosPerSecond := by
  refine Nat.le_of_mul_le_mul_left ?_ hsource
  calc rate.sourceHz.toNat * (rate.period * ticks.toNat)
      = rate.period * rate.sourceHz.toNat * ticks.toNat := by ring
    _ ≤ rate.divisor.toNat * nanosPerSecond * ticks.toNat :=
        Nat.mul_le_mul_right _ (period_mul_bounds hsource).1
    _ = rate.divisor.toNat * ticks.toNat * nanosPerSecond := by ring
    _ ≤ rate.sourceHz.toNat * nanosPerSecond := Nat.mul_le_mul_right _ hdivisor

/-- The rate is what these frequencies make it, rounded to whole counts and whole nanoseconds, and
the words that it is computed in lose nothing. -/
structure Exact (rate : PulseRate) (source ticks : UInt32) : Prop where
  sourceHz : rate.sourceHz = source
  source_pos : 0 < source.toNat
  one_le_divisor : 1 ≤ rate.divisor.toNat
  divisor_le : rate.divisor.toNat ≤ 65535
  /-- The pulses come no more slowly than they are wanted, and with one count more they would. -/
  divisor_mul_le : rate.divisor.toNat * ticks.toNat ≤ source.toNat
  lt_succ_divisor_mul : source.toNat < (rate.divisor.toNat + 1) * ticks.toNat
  product_lt : rate.divisor.toNat * nanosPerSecond < UInt64.size
  periodWord : rate.periodWord.toNat = rate.period
  period_mul_le : rate.period * source.toNat ≤ rate.divisor.toNat * nanosPerSecond
  lt_succ_period_mul : rate.divisor.toNat * nanosPerSecond < (rate.period + 1) * source.toNat
  period_mul_ticks_le : rate.period * ticks.toNat ≤ nanosPerSecond
  signedPeriod : rate.periodWord.toInt64.toInt = rate.period
  driftWord : rate.driftWord.toInt = rate.period - nanosPerTick

theorem exact_of_rate (h : ofFrequencies? source ticks = some rate) : rate.Exact source ticks := by
  obtain ⟨hticks, hle, -⟩ := exists_rate_iff.mp ⟨rate, h⟩
  obtain ⟨rfl, hdivisor, hone, hmost⟩ := toNat_divisor h
  have hsource : 0 < rate.sourceHz.toNat := Nat.lt_of_lt_of_le hticks hle
  have hmul : rate.divisor.toNat * ticks.toNat ≤ rate.sourceHz.toNat := by
    rw [hdivisor]
    exact Nat.div_mul_le_self _ _
  have hlt : rate.sourceHz.toNat < (rate.divisor.toNat + 1) * ticks.toNat := by
    rw [hdivisor, Nat.mul_comm]
    exact Nat.lt_mul_div_succ _ hticks
  obtain ⟨hperiod, hperiod'⟩ := period_mul_bounds hsource
  exact {
    sourceHz := rfl
    source_pos := hsource
    one_le_divisor := hone
    divisor_le := hmost
    divisor_mul_le := hmul
    lt_succ_divisor_mul := hlt
    product_lt := rate.divisor_mul_lt.trans (by decide)
    periodWord := rate.toNat_periodWord
    period_mul_le := hperiod
    lt_succ_period_mul := hperiod'
    period_mul_ticks_le := rate.period_mul_ticks_le hsource hmul
    signedPeriod := rate.toInt_periodWord
    driftWord := rate.toInt_driftWord }

end PulseRate

namespace Machine

variable {π : Type}

/-! ### What boot writes -/

/-- How boot ends, and the board that it leaves. -/
inductive BootOutcome (settings : Settings) (board : Board) :
    Except SettingsError (Machine π) → Board → Prop where
  /-- The settings are rejected, and the board is as it was. -/
  | rejected {e : SettingsError} (hcheck : settings.check = .error e) :
      BootOutcome settings board (.error e) board
  /-- Three bytes have been written: a command, and the divisor from its low byte on. -/
  | programmed {m : Machine π} {low high : UInt8} (hcheck : settings.check = .ok ())
      (hrate : PulseRate.ofFrequencies? settings.sourceHz settings.ticksPerSecond = some m.rate)
      (hbytes : low.toNat + 256 * high.toNat = m.rate.divisor.toNat)
      (hboard : m.board =
        ((board.record (.output PulseRate.commandAddress ControlWord.rateGenerator.bits)).record
          (.output PulseRate.channelAddress low)).record
            (.output PulseRate.channelAddress high)) :
      BootOutcome settings board (.ok m) m.board

theorem boot_outcome (settings : Settings) (policy : π) (handoff : QueueId) (board : Board) :
    BootOutcome settings board (boot settings policy handoff board)
      ((programTimer settings).run board).2 := by
  cases hcheck : settings.check with
  | error e =>
    rw [boot_of_rejected policy handoff board hcheck, programTimer_of_rejected board hcheck]
    exact .rejected hcheck
  | ok =>
    obtain ⟨-, -, ⟨rate, hrate⟩, -⟩ := Settings.check_eq_ok.mp hcheck
    rw [boot_of_accepted policy handoff board hcheck hrate,
      programTimer_of_accepted board hcheck hrate]
    have hfound : PulseRate.ofFrequencies? settings.sourceHz settings.ticksPerSecond = some rate := by
      unfold Settings.rate at hrate
      split at hrate
      · rename_i hfound
        rw [hfound, Except.ok.inj hrate]
      · cases hrate
    exact .programmed hcheck hfound rate.bytes_divisor rfl

/-- There is a rate exactly for the frequencies whose quotient is at least one and fits 16 bits, it
is as exact as whole numbers allow, and boot programs the timer to it: with three bytes if the
settings are accepted, and with none if they are not. -/
theorem boot_programs_rate (source ticks : UInt32) (settings : Settings) (policy : π)
    (handoff : QueueId) (board : Board) :
    ((∃ rate, PulseRate.ofFrequencies? source ticks = some rate) ↔
      1 ≤ ticks.toNat ∧ ticks.toNat ≤ source.toNat ∧ source.toNat < 65536 * ticks.toNat) ∧
    (∀ rate, PulseRate.ofFrequencies? source ticks = some rate → rate.Exact source ticks) ∧
    BootOutcome settings board (boot settings policy handoff board)
      ((programTimer settings).run board).2 :=
  ⟨PulseRate.exists_rate_iff, fun _ => PulseRate.exact_of_rate,
    boot_outcome settings policy handoff board⟩

/-- The default settings make the divisor 1193, which is 4 times 256 and 169. -/
theorem boot_programs_rate_default :
    PulseRate.Exact ⟨1193180, 1193⟩ 1193180 1000 ∧
    BootOutcome {} {} (boot {} () ⟨0⟩ {}) ((programTimer {}).run {}).2 ∧
    ((programTimer {}).run {}).2.trace.map (·.event) =
      [.output 0x43 0x34, .output 0x40 169, .output 0x40 4] :=
  have ⟨_, hexact, hboot⟩ := boot_programs_rate 1193180 1000 {} () ⟨0⟩ {}
  ⟨hexact _ (by decide), hboot, by decide⟩

end Machine
end PulseKernel
