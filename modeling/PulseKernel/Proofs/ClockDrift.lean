/-
# How far the clock drifts

A pulse adds a tick and the remainder to what the clock has counted, whether or not it
makes up a second tick, so after `n` pulses the ticks and the pending nanoseconds
together are `n` ticks and `n` remainders. Below a tick of remainder the pending
nanoseconds are carried before they fill a tick, and never leave their 32 bits; then
the clock has the closed form of a division with remainder (`advanceBy?_stopped`).
From a tick on every pulse carries once, and the rest piles up until it leaves them
(`advanceBy?_stopped_of_le`).

Against the hardware there is a second error. The remainder of a clock that tracks a
rate makes up the period in whole nanoseconds, and what lies below a nanosecond is
dropped at every pulse (`PulseRate.dropped`). The ticks therefore never run ahead, and
they lag by what is pending and by what was dropped (`PulseRate.lag_eq`). What is
pending is always less than a period; what was dropped is not, unless the period is a
whole number of nanoseconds.

Key definitions: `PulseRate.dropped`, `PulseRate.lag`.
Key theorems: `TickClock.advanceBy?_stopped`, `TickClock.advanceBy?_stopped_of_le`,
`TickClock.advanceBy?_closed_form`, `PulseRate.lag_eq`, `PulseRate.lag_of_tracks`.
-/
import Mathlib.Tactic.Ring
import PulseKernel.Pulse.Rate

namespace PulseKernel

/-! ### The clock after so many pulses -/

namespace TickClock

variable {c c' : TickClock} {remainder n : Nat}

/-- A pulse adds a tick and the remainder to the time since boot. -/
theorem nanos_uptime_advance (h : c.advance? = some c') :
    c'.uptime.nanos = c.uptime.nanos + (nanosPerTick + c.remainder) ∧
      c'.remainder = c.remainder := by
  unfold advance? at h
  dsimp only at h
  split at h
  · cases h
  · split at h
    all_goals
      obtain rfl := Option.some.inj h
      refine ⟨?_, rfl⟩
      unfold uptime nanosPerTick at *
      dsimp only
      omega

/-- A pulse counts one tick or two. -/
theorem ticks_advance (hp : c.pending < nanosPerTick) (hr : c.remainder < nanosPerTick)
    (h : c.advance? = some c') : c'.ticks = c.ticks + 1 ∨ c'.ticks = c.ticks + 2 := by
  rw [advance?_of_lt hp hr] at h
  obtain rfl := Option.some.inj h
  have hlt : (c.pending + c.remainder) / nanosPerTick < 2 :=
    Nat.div_lt_of_lt_mul (by omega)
  show c.ticks + 1 + (c.pending + c.remainder) / nanosPerTick = c.ticks + 1 ∨
    c.ticks + 1 + (c.pending + c.remainder) / nanosPerTick = c.ticks + 2
  generalize (c.pending + c.remainder) / nanosPerTick = extra at hlt
  omega

theorem advanceBy?_succ (n : Nat) (c : TickClock) :
    advanceBy? (n + 1) c = c.advance?.bind (advanceBy? n) := by
  rw [advanceBy?]
  cases c.advance? <;> rfl

/-- Several pulses add as many ticks and remainders to the time since boot. -/
theorem nanos_uptime_advanceBy : ∀ {n : Nat} {c : TickClock}, advanceBy? n c = some c' →
    c'.uptime.nanos = c.uptime.nanos + n * (nanosPerTick + c.remainder)
  | 0, c, h => by
    obtain rfl := Option.some.inj h
    simp
  | n + 1, c, h => by
    rw [advanceBy?_succ] at h
    obtain ⟨next, hnext, hrest⟩ := Option.bind_eq_some_iff.mp h
    obtain ⟨hnanos, hremainder⟩ := nanos_uptime_advance hnext
    rw [nanos_uptime_advanceBy hrest, hnanos, hremainder]
    ring

theorem nanos_uptime_of_stopped (h : advanceBy? n (stopped remainder) = some c) :
    c.uptime.nanos = n * (nanosPerTick + remainder) := by
  rw [nanos_uptime_advanceBy h]
  simp [stopped, uptime]

/-- The last of several pulses comes after the others. -/
theorem advanceBy?_succ' : ∀ (n : Nat) (c : TickClock),
    advanceBy? (n + 1) c = (advanceBy? n c).bind advance?
  | 0, c => by
    rw [advanceBy?_succ]
    exact Option.bind_fun_some c.advance?
  | n + 1, c => by
    rw [advanceBy?_succ (n + 1), advanceBy?_succ n, Option.bind_assoc]
    exact congrArg _ (funext (advanceBy?_succ' n))

/-- The clock after `n` pulses, if a pulse adds less than a tick to those pending. -/
theorem advanceBy?_stopped (h : remainder < nanosPerTick) : ∀ n : Nat,
    advanceBy? n (stopped remainder) =
      some ⟨n + n * remainder / nanosPerTick, n * remainder % nanosPerTick, remainder⟩
  | 0 => by simp [advanceBy?, stopped]
  | n + 1 => by
    have hpos : 0 < nanosPerTick := by decide
    have hcarry : (n * remainder + remainder) / nanosPerTick =
        (n * remainder % nanosPerTick + remainder) / nanosPerTick +
          n * remainder / nanosPerTick := by
      conv_lhs => rw [← Nat.mod_add_div (n * remainder) nanosPerTick]
      rw [Nat.add_right_comm, Nat.add_mul_div_left _ _ hpos]
    rw [advanceBy?_succ', advanceBy?_stopped h n, Option.bind_some,
      advance?_of_lt (Nat.mod_lt _ hpos) h, Nat.mod_add_mod, Nat.succ_mul, hcarry]
    dsimp only
    congr 2
    omega

/-- The clock after a pulse and `n` more, if each adds a tick or more to those pending: it carries
once a pulse, until the pending nanoseconds leave their 32 bits. -/
theorem advanceBy?_stopped_of_le (h : nanosPerTick ≤ remainder) : ∀ n : Nat,
    advanceBy? (n + 1) (stopped remainder) =
      if n * (remainder - nanosPerTick) + remainder < UInt32.size then
        some ⟨2 * (n + 1), (n + 1) * (remainder - nanosPerTick), remainder⟩
      else none
  | 0 => by
    rw [advanceBy?_succ, advance?]
    simp only [stopped, Nat.zero_add, Nat.zero_mul, Nat.one_mul, Nat.mul_one]
    by_cases hfits : remainder < UInt32.size
    · rw [if_pos hfits, if_neg (Nat.not_le.mpr hfits), if_pos h]
      rfl
    · rw [if_neg hfits, if_pos (Nat.not_lt.mp hfits), Option.bind_none]
  | n + 1 => by
    rw [advanceBy?_succ', advanceBy?_stopped_of_le h n]
    have hsucc : (n + 1) * (remainder - nanosPerTick) =
        n * (remainder - nanosPerTick) + (remainder - nanosPerTick) := Nat.succ_mul _ _
    by_cases hfits : n * (remainder - nanosPerTick) + remainder < UInt32.size
    · rw [if_pos hfits, Option.bind_some]
      unfold advance?
      dsimp only
      by_cases hfits' : (n + 1) * (remainder - nanosPerTick) + remainder < UInt32.size
      · rw [if_pos hfits', if_neg (Nat.not_le.mpr hfits'), if_pos (by omega), Nat.succ_mul (n + 1)]
        simp only [Option.some.injEq, TickClock.mk.injEq, and_true]
        omega
      · rw [if_neg hfits', if_pos (Nat.not_lt.mp hfits')]
    · rw [if_neg hfits, if_neg (by omega), Option.bind_none]

/-- What the clock shows after `n` pulses. As long as the pending nanoseconds keep to their 32 bits,
the time since boot is `n` ticks and `n` remainders. A remainder below a tick never lets them leave
these; from a tick on they leave them at the first pulse that finds no room. -/
theorem advanceBy?_closed_form (remainder n : Nat) :
    (∀ c, advanceBy? n (stopped remainder) = some c →
      c.ticks * nanosPerTick + c.pending = n * (nanosPerTick + remainder) ∧
      c.uptime.nanos = n * (nanosPerTick + remainder)) ∧
    (remainder < nanosPerTick → ∃ c c', advanceBy? n (stopped remainder) = some c ∧
      c.pending = n * remainder % nanosPerTick ∧ c.pending < nanosPerTick ∧
      c.ticks = n + n * remainder / nanosPerTick ∧
      c.advance? = some c' ∧ (c'.ticks = c.ticks + 1 ∨ c'.ticks = c.ticks + 2)) ∧
    (nanosPerTick ≤ remainder → ((advanceBy? (n + 1) (stopped remainder)).isSome = true ↔
      n * (remainder - nanosPerTick) + remainder < UInt32.size)) := by
  refine ⟨fun c hc => ?_, fun hlt => ?_, fun hle => ?_⟩
  · have hnanos := nanos_uptime_of_stopped hc
    exact ⟨hnanos, hnanos⟩
  · have hpending : n * remainder % nanosPerTick < nanosPerTick := Nat.mod_lt _ (by decide)
    have hnext := advance?_of_lt
      (c := ⟨n + n * remainder / nanosPerTick, n * remainder % nanosPerTick, remainder⟩)
      hpending hlt
    exact ⟨_, _, advanceBy?_stopped hlt n, rfl, hpending, rfl, hnext,
      ticks_advance hpending hlt hnext⟩
  · rw [advanceBy?_stopped_of_le hle]
    by_cases hfits : n * (remainder - nanosPerTick) + remainder < UInt32.size <;> simp [hfits]

/-- Five default remainders are less than a tick, and the sixth makes up one. -/
theorem advanceBy?_closed_form_six_pulses :
    193180 < nanosPerTick ∧ ∃ c, advanceBy? 6 (stopped 193180) = some c ∧
      c.ticks = 7 ∧ c.pending = 159080 ∧ c.uptime.nanos = 7159080 := by
  have hlt : 193180 < nanosPerTick := by decide
  obtain ⟨hnanos, hbelow, -⟩ := advanceBy?_closed_form 193180 6
  obtain ⟨c, -, hc, hpending, -, hticks, -⟩ := hbelow hlt
  exact ⟨hlt, c, hc, hticks, hpending, (hnanos c hc).2⟩

end TickClock

/-! ### The clock and the rate -/

namespace PulseRate

variable {rate : PulseRate} {remainder n : Nat} {c : TickClock}

/-- What the period in whole nanoseconds leaves out of a pulse. The unit is a nanosecond, divided by
the frequency of the input clock: in this unit a pulse has a whole length. -/
def dropped (r : PulseRate) : Nat := r.divisor.toNat * nanosPerSecond % r.sourceHz.toNat

/-- By how much `n` pulses take longer than the ticks of the clock say, in the same unit. -/
def lag (r : PulseRate) (n : Nat) (c : TickClock) : Int :=
  (n * (r.divisor.toNat * nanosPerSecond) : Nat) - (c.ticks * nanosPerTick * r.sourceHz.toNat : Nat)

theorem period_add_dropped (r : PulseRate) :
    r.period * r.sourceHz.toNat + r.dropped = r.divisor.toNat * nanosPerSecond :=
  Nat.div_add_mod' _ _

/-- A remainder that keeps the ticks in step makes up the period, with the tick. -/
theorem tracks_iff : rate.tracks remainder = true ↔ rate.period = nanosPerTick + remainder := by
  unfold tracks drift
  rw [decide_eq_true_eq]
  omega

/-- The ticks lag by what is pending and by what was dropped at every pulse. -/
theorem lag_eq (htracks : rate.tracks remainder = true)
    (h : TickClock.advanceBy? n (.stopped remainder) = some c) :
    rate.lag n c = (c.pending * rate.sourceHz.toNat + n * rate.dropped : Nat) := by
  have hnanos := TickClock.nanos_uptime_of_stopped h
  rw [← tracks_iff.mp htracks] at hnanos
  have htotal : n * (rate.divisor.toNat * nanosPerSecond) =
      c.ticks * nanosPerTick * rate.sourceHz.toNat +
        (c.pending * rate.sourceHz.toNat + n * rate.dropped) := by
    calc n * (rate.divisor.toNat * nanosPerSecond)
        = n * rate.period * rate.sourceHz.toNat + n * rate.dropped := by
          rw [← period_add_dropped]
          ring
      _ = (c.ticks * nanosPerTick + c.pending) * rate.sourceHz.toNat + n * rate.dropped := by
          rw [← hnanos]
          rfl
      _ = _ := by ring
  rw [lag, htotal]
  omega

/-- What is pending is less than a period. -/
theorem pending_le (htracks : rate.tracks remainder = true) (hpending : c.pending < nanosPerTick) :
    c.pending * rate.sourceHz.toNat + rate.dropped ≤ rate.divisor.toNat * nanosPerSecond := by
  rw [← period_add_dropped, tracks_iff.mp htracks]
  exact Nat.add_le_add_right (Nat.mul_le_mul_right _ (by omega)) _

/-- With a remainder that tracks the rate, the ticks of the clock never run ahead of the pulses.
They lag by what is pending, which is less than a period, and by what was dropped at every pulse.
So the lag stays within one period for ever exactly if the period is a whole number of
nanoseconds. -/
theorem lag_of_tracks (hremainder : remainder < nanosPerTick)
    (htracks : rate.tracks remainder = true) :
    (∀ n, ∃ c, TickClock.advanceBy? n (.stopped remainder) = some c ∧
      rate.lag n c = (c.pending * rate.sourceHz.toNat + n * rate.dropped : Nat) ∧
      c.pending < nanosPerTick ∧
      (rate.lag n c).natAbs + rate.dropped ≤
        rate.divisor.toNat * nanosPerSecond + n * rate.dropped) ∧
    ((∀ n c, TickClock.advanceBy? n (.stopped remainder) = some c →
        (rate.lag n c).natAbs ≤ rate.divisor.toNat * nanosPerSecond) ↔
      rate.sourceHz.toNat ∣ rate.divisor.toNat * nanosPerSecond) := by
  have hclock (n : Nat) : ∃ c, TickClock.advanceBy? n (.stopped remainder) = some c ∧
      c.pending < nanosPerTick :=
    ⟨_, TickClock.advanceBy?_stopped hremainder n, Nat.mod_lt _ (by decide)⟩
  have hbound {n : Nat} {c : TickClock}
      (hc : TickClock.advanceBy? n (.stopped remainder) = some c)
      (hpending : c.pending < nanosPerTick) :
      (rate.lag n c).natAbs + rate.dropped ≤
        rate.divisor.toNat * nanosPerSecond + n * rate.dropped := by
    have hle := pending_le htracks hpending
    rw [lag_eq htracks hc, Int.natAbs_natCast]
    omega
  refine ⟨fun n => ?_, fun h => ?_, fun hdvd n c hc => ?_⟩
  · obtain ⟨c, hc, hpending⟩ := hclock n
    exact ⟨c, hc, lag_eq htracks hc, hpending, hbound hc hpending⟩
  · -- after more pulses than a pulse has units, what was dropped is more than a period
    obtain ⟨c, hc, -⟩ := hclock (rate.divisor.toNat * nanosPerSecond + 1)
    have hle := h _ c hc
    rw [lag_eq htracks hc, Int.natAbs_natCast] at hle
    refine Nat.dvd_of_mod_eq_zero (Nat.eq_zero_of_not_pos fun hpos => ?_)
    have hmany := Nat.le_mul_of_pos_right (rate.divisor.toNat * nanosPerSecond + 1) hpos
    have hdropped : rate.dropped = rate.divisor.toNat * nanosPerSecond % rate.sourceHz.toNat := rfl
    rw [hdropped] at hle
    omega
  · obtain ⟨c', hc', hpending⟩ := hclock n
    obtain rfl := Option.some.inj (hc'.symm.trans hc)
    have hnone : rate.dropped = 0 := Nat.mod_eq_zero_of_dvd hdvd
    simpa [hnone] using hbound hc hpending

/-- The rate of 999 pulses a second has a remainder of 687 nanoseconds; what is dropped of a pulse
is added to one period. -/
theorem lag_of_tracks_999_hz :
    ∃ rate, ofFrequencies? 1193180 999 = some rate ∧ 687 < nanosPerTick ∧
      rate.tracks 687 = true ∧ ∃ c, TickClock.advanceBy? 5822 (.stopped 687) = some c ∧
        (rate.lag 5822 c).natAbs + rate.dropped ≤
          rate.divisor.toNat * nanosPerSecond + 5822 * rate.dropped := by
  have hremainder : 687 < nanosPerTick := by decide
  have htracks : (⟨1193180, 1194⟩ : PulseRate).tracks 687 = true := by decide
  obtain ⟨c, hc, -, -, hbound⟩ := (lag_of_tracks hremainder htracks).1 5822
  exact ⟨⟨1193180, 1194⟩, by decide, hremainder, htracks, c, hc, hbound⟩

/-- At 999 pulses a second the ticks lag by more than a period after 5822 pulses, although the
remainder tracks the rate. -/
theorem period_lt_lag :
    ∃ rate, ofFrequencies? 1193180 999 = some rate ∧ 687 < nanosPerTick ∧
      rate.tracks 687 = true ∧ ∃ c, TickClock.advanceBy? 5822 (.stopped 687) = some c ∧
        rate.divisor.toNat * nanosPerSecond < (rate.lag 5822 c).natAbs :=
  ⟨⟨1193180, 1194⟩, by decide, by decide, by decide, _,
    TickClock.advanceBy?_stopped (by decide) 5822, by decide⟩

end PulseRate
end PulseKernel
