/-
# When the quantum is over

The clock counts one tick a pulse, and now and then two, when the remainders of the
pulses have made up a full tick. So the ticks after `n` more pulses are the time
since boot, in whole ticks (`TickClock.ticksAfter`). A pulse looks only at the ticks
it has come to: while another thread can run, it rotates exactly if these are a
multiple of the quantum (`Scheduler.Reached.rotates_iff`,
`Scheduler.Reached.pulses_rotations`).

A multiple that the clock passes over, from the tick before it to the tick behind
it, is therefore lost. With the default settings this happens at the 26th pulse
(`Scheduler.pulses_pass_multiple`). A remainder just below a tick makes the clock
show odd ticks only, for a long time, and with an even quantum nobody is rotated for
as long (`Scheduler.no_rotation_of_even`).

Key definitions: `TickClock.ticksAfter`, `Scheduler.busyAt`, `Scheduler.pulses`,
`Scheduler.busyFor`.
Key theorems: `TickClock.ticksAfter_succ`, `Scheduler.Reached.rotates_iff`,
`Scheduler.Reached.pulses_rotations`, `Scheduler.no_rotation_of_even`.
-/
import PulseKernel.Proofs.ClockDrift
import PulseKernel.Proofs.PulseEffect

namespace PulseKernel

/-! ### The ticks of a clock -/

namespace TickClock

variable {c c' : TickClock}

/-- The ticks that the clock shows after more pulses. -/
def ticksAfter (c : TickClock) (n : Nat) : Nat :=
  (c.uptime.nanos + n * (nanosPerTick + c.remainder)) / nanosPerTick

theorem ticksAfter_zero (hp : c.pending < nanosPerTick) : c.ticksAfter 0 = c.ticks := by
  have hpos : 0 < nanosPerTick := by decide
  rw [ticksAfter, uptime, Nat.zero_mul, Nat.add_zero, Nat.add_comm, Nat.add_mul_div_right _ _ hpos,
    Nat.div_eq_of_lt hp, Nat.zero_add]

/-- A pulse adds a tick and the remainder to the time since boot. -/
theorem uptime_advance (hp : c.pending < nanosPerTick) (hr : c.remainder < nanosPerTick)
    (h : c.advance? = some c') :
    c'.uptime.nanos = c.uptime.nanos + (nanosPerTick + c.remainder) ∧
      c'.remainder = c.remainder ∧ c'.pending < nanosPerTick := by
  obtain ⟨hnanos, hremainder⟩ := nanos_uptime_advance h
  rw [advance?_of_lt hp hr] at h
  obtain rfl := Option.some.inj h
  exact ⟨hnanos, hremainder, Nat.mod_lt _ (by decide)⟩

/-- The first of several pulses leaves one pulse less to come. -/
theorem ticksAfter_succ (hp : c.pending < nanosPerTick) (hr : c.remainder < nanosPerTick)
    (h : c.advance? = some c') (n : Nat) : c'.ticksAfter n = c.ticksAfter (n + 1) := by
  obtain ⟨huptime, hremainder, -⟩ := uptime_advance hp hr h
  rw [ticksAfter, ticksAfter, huptime, hremainder, Nat.add_right_comm, Nat.succ_mul,
    Nat.add_assoc c.uptime.nanos]

/-- With a remainder just below a tick a clock shows odd ticks only, until the nanoseconds that are
missing have made up a tick. -/
theorem ticksAfter_stopped {n : Nat} (hpos : 0 < n) (hn : n ≤ nanosPerTick) :
    (stopped (nanosPerTick - 1)).ticksAfter n = 2 * n - 1 := by
  unfold nanosPerTick at hn
  simp only [ticksAfter, uptime, stopped, nanosPerTick]
  omega

end TickClock

/-- On a step of one or two ticks a multiple of the quantum is met at the end, or else it is passed
over in the middle. -/
theorem dvd_iff_exists_multiple {quantum t t' : Nat} (hstep : t' = t + 1 ∨ t' = t + 2) :
    quantum ∣ t' ↔ (∃ m, quantum ∣ m ∧ t < m ∧ m ≤ t') ∧
      ¬ (t' = t + 2 ∧ quantum ∣ t + 1 ∧ quantum ≠ 1) := by
  constructor
  · intro hdvd
    refine ⟨⟨t', hdvd, by omega, Nat.le_refl _⟩, ?_⟩
    rintro ⟨rfl, hmiddle, hone⟩
    have hdvd' : quantum ∣ 1 := (Nat.dvd_add_right hmiddle).mp hdvd
    exact hone (Nat.dvd_one.mp hdvd')
  · rintro ⟨⟨m, hdvd, hlt, hle⟩, hnot⟩
    by_cases hm : m = t'
    · exact hm ▸ hdvd
    · have hmiddle : m = t + 1 := by omega
      have hone : quantum = 1 := by
        by_contra hone
        exact hnot ⟨by omega, hmiddle ▸ hdvd, hone⟩
      exact hone ▸ Nat.one_dvd t'

/-! ### Busy pulses -/

namespace Scheduler

variable {π : Type} [Policy π] {L : Layout Unit Unit} {s : Scheduler π} {naps : List Sleeper}

/-- Whether the policy has another thread that can run when a pulse asks it. -/
def busyAt (s : Scheduler π) (now : Nat) : Bool :=
  s.clock.advance?.any fun clock => (s.heard now clock.ticks).busy

/-- The scheduler after pulses at these times, after boot. -/
def pulses (s : Scheduler π) : List Nat → Logged (Scheduler π)
  | [] => return s
  | now :: nows => do
    let (_, s) ← s.tick now true
    s.pulses nows

/-- Whether the policy has another thread that can run at each of the pulses. -/
def busyFor (s : Scheduler π) : List Nat → Bool
  | [] => true
  | now :: nows =>
    s.busyAt now && match (s.tick now true).result with
      | .ok (_, s) => s.busyFor nows
      | .error _ => true

/-- A busy policy takes its turn exactly if the quantum is over. -/
theorem rotation_of_busy {now ticks : Nat} (hbusy : (s.heard now ticks).busy = true) :
    (s.heard now ticks).rotation.isSome.toNat = if s.quantum ∣ ticks then 1 else 0 := by
  unfold heard at hbusy ⊢
  rw [Policy.isSome_rotation_dialogue, hbusy, Bool.true_and]
  by_cases hover : ticks % s.quantum = 0
  · simp [hover, Nat.dvd_of_mod_eq_zero hover]
  · simp [hover, Nat.dvd_iff_mod_eq_zero]

/-- While another thread can run, a pulse rotates exactly if the clock comes to a multiple of the
quantum. -/
theorem Sound.tick_cadence (h : s.Sound L [] naps) {now : Nat} (hbusy : s.busyAt now = true) :
    (s.tick now true).Gives fun a => s.clock.advance? = some a.2.clock ∧
      a.2.quantum = s.quantum ∧
      a.2.stats.rotations = s.stats.rotations + (if s.quantum ∣ a.2.clock.ticks then 1 else 0) ∧
      ∃ naps', a.2.Sound L [] naps' := by
  obtain ⟨clock, heap, hclock, -, hs⟩ := h.tick_booted_eq now
  rw [busyAt, hclock, Option.any_some] at hbusy
  exact ⟨_, hs, hclock, rfl, congrArg (s.stats.rotations + ·) (rotation_of_busy hbusy),
    (h.tick now true).of_result hs⟩

/-- What a pulse does at which another thread can run: it counts one tick or two, and it rotates
exactly if the clock then shows a multiple of the quantum. That is, a multiple that the clock comes
to or passes makes it rotate, unless it is passed over in the middle of two ticks. -/
theorem Reached.rotates_iff (h : s.Reached) {now : Nat} (hbusy : s.busyAt now = true) :
    ∃ outcome s', (s.tick now true).result = .ok (outcome, s') ∧
      (s'.clock.ticks = s.clock.ticks + 1 ∨ s'.clock.ticks = s.clock.ticks + 2) ∧
      s'.stats.rotations = s.stats.rotations + (if s.quantum ∣ s'.clock.ticks then 1 else 0) ∧
      (s.quantum ∣ s'.clock.ticks ↔
        (∃ m, s.quantum ∣ m ∧ s.clock.ticks < m ∧ m ≤ s'.clock.ticks) ∧
        ¬ (s'.clock.ticks = s.clock.ticks + 2 ∧ s.quantum ∣ s.clock.ticks + 1 ∧
          s.quantum ≠ 1)) := by
  obtain ⟨L, naps, hsound⟩ := h.sound
  obtain ⟨⟨outcome, s'⟩, hs, hclock, -, hrotations, -⟩ := hsound.tick_cadence hbusy
  have hstep := TickClock.ticks_advance hsound.pending hsound.remainder hclock
  exact ⟨outcome, s', hs, hstep, hrotations, dvd_iff_exists_multiple hstep⟩

/-- With a quantum of one tick the first pulse rotates two threads. -/
theorem Reached.rotates_iff_first_pulse :
    ∃ s : Scheduler Fifo, s.Reached ∧ s.busyAt 0 = true ∧
      ∃ outcome s', (s.tick 0 true).result = .ok (outcome, s') ∧
        s'.stats.rotations = s.stats.rotations + 1 := by
  have hcheck : ({ maxThreads := 2, quantum := 1 } : Settings).check = .ok () := by decide
  obtain ⟨s, hs, h⟩ := Reached.exists_callAll hcheck (⟨[⟨1⟩], ⟨0⟩⟩ : Fifo) ⟨1⟩
    [.serve (.register {}), .serve (.register {})]
  have hbusy := Logged.eq_of_map_result (f := fun s => s.busyAt 0) (b := true) hs
    (by decide +kernel)
  have hquantum := Logged.eq_of_map_result (f := fun s => s.quantum) (b := 1) hs
    (by decide +kernel)
  obtain ⟨outcome, s', hs', -, hrotations, -⟩ := h.rotates_iff hbusy
  rw [hquantum, if_pos (Nat.one_dvd _)] at hrotations
  exact ⟨s, h, hbusy, outcome, s', hs', hrotations⟩

theorem Sound.pulses_rotations : ∀ (nows : List Nat) {s : Scheduler π} {naps : List Sleeper},
    s.Sound L [] naps → s.busyFor nows = true → (s.pulses nows).Gives fun s' =>
      s'.clock.ticks = s.clock.ticksAfter nows.length ∧
      s'.stats.rotations = s.stats.rotations + (List.range nows.length).countP fun k =>
        s.quantum ∣ s.clock.ticksAfter (k + 1)
  | [], s, naps, h, _ => .pure ⟨(TickClock.ticksAfter_zero h.pending).symm, rfl⟩
  | now :: nows, s, naps, h, hbusy => by
    rw [busyFor, Bool.and_eq_true] at hbusy
    obtain ⟨⟨outcome, s₁⟩, hs₁, hclock, hquantum, hrotations, naps', h₁⟩ := h.tick_cadence hbusy.1
    rw [hs₁] at hbusy
    obtain ⟨s', hs', hticks, hrest⟩ := Sound.pulses_rotations nows h₁ hbusy.2
    dsimp only at hclock hquantum hrotations hticks hrest
    have hsucc := TickClock.ticksAfter_succ h.pending h.remainder hclock
    have hfirst : s₁.clock.ticks = s.clock.ticksAfter 1 := by
      rw [← TickClock.ticksAfter_zero h₁.pending, hsucc]
    refine ⟨s', Logged.result_bind_eq_ok.mpr ⟨_, hs₁, hs'⟩, ?_, ?_⟩
    · rw [hticks, hsucc, List.length_cons]
    · -- the first pulse counts for itself, and the others as they do from the clock it leaves
      rw [hrest, hrotations, hquantum, hfirst, List.length_cons, List.range_succ_eq_map,
        List.countP_cons, List.countP_map]
      simp only [hsucc, Function.comp_def, Nat.succ_eq_add_one, decide_eq_true_eq, Nat.zero_add]
      omega

/-- After pulses at which another thread can run, the rotations are as many as the pulses after
which the clock shows a multiple of the quantum. -/
theorem Reached.pulses_rotations (h : s.Reached) {nows : List Nat}
    (hbusy : s.busyFor nows = true) : ∃ s', (s.pulses nows).result = .ok s' ∧
      s'.clock.ticks = s.clock.ticksAfter nows.length ∧
      s'.stats.rotations = s.stats.rotations + (List.range nows.length).countP fun k =>
        s.quantum ∣ s.clock.ticksAfter (k + 1) := by
  obtain ⟨L, naps, hsound⟩ := h.sound
  exact hsound.pulses_rotations nows hbusy

/-- With an even quantum and a remainder just below a tick nobody is rotated for as many pulses as
there are nanoseconds in a tick. -/
theorem no_rotation_of_even {settings : Settings} (hcheck : settings.check = .ok ())
    (hremainder : settings.remainder.toNat = nanosPerTick - 1)
    (heven : 2 ∣ settings.quantum.toNat) (policy : π) (handoff : QueueId) {nows : List Nat}
    (hlength : nows.length ≤ nanosPerTick)
    (hbusy : (ofSettings settings policy handoff).busyFor nows = true) :
    ∃ s', ((ofSettings settings policy handoff).pulses nows).result = .ok s' ∧
      s'.stats.rotations = 0 := by
  obtain ⟨s', hs', -, hrotations⟩ := (Reached.boot hcheck policy handoff).pulses_rotations hbusy
  refine ⟨s', hs', hrotations.trans ?_⟩
  have hclock : (ofSettings settings policy handoff).clock = .stopped (nanosPerTick - 1) := by
    rw [← hremainder]
    rfl
  have hstats : (ofSettings settings policy handoff).stats.rotations = 0 := rfl
  rw [hstats, hclock, Nat.zero_add, List.countP_eq_zero]
  intro k hk
  have hk' : k + 1 ≤ nanosPerTick := Nat.le_trans (List.mem_range.mp hk) hlength
  rw [TickClock.ticksAfter_stopped k.succ_pos hk', decide_eq_true_eq]
  intro hdvd
  have hodd : 2 ∣ 2 * (k + 1) - 1 := Nat.dvd_trans heven hdvd
  omega

/-- With the default settings two threads take turns at the ticks 10 and 20; the 26th pulse leads
from tick 29 to tick 31, and nobody is rotated. -/
theorem pulses_pass_multiple :
    ∃ start s s' : Scheduler Fifo, ∃ outcome : PulseOutcome,
      ((ofSettings { maxThreads := 2 } (⟨[⟨1⟩], ⟨0⟩⟩ : Fifo) ⟨1⟩).callAll
        [.serve (.register {}), .serve (.register {})]).result = .ok start ∧
      start.busyFor (List.replicate 26 0) = true ∧
      (start.pulses (List.replicate 25 0)).result = .ok s ∧
      (s.tick 0 true).result = .ok (outcome, s') ∧
      s.quantum = 10 ∧ s.clock.ticks = 29 ∧ s'.clock.ticks = 31 ∧
      outcome.plan = none ∧ s.stats.rotations = 2 ∧ s'.stats.rotations = 2 := by
  have hcheck : ({ maxThreads := 2 } : Settings).check = .ok () := by decide
  obtain ⟨start, hs, -⟩ := Reached.exists_callAll hcheck (⟨[⟨1⟩], ⟨0⟩⟩ : Fifo) ⟨1⟩
    [.serve (.register {}), .serve (.register {})]
  have hbusy := Logged.eq_of_map_result
    (f := fun s => s.busyFor (List.replicate 26 0)) (b := true) hs (by decide +kernel)
  have hend := Logged.eq_of_map_result
    (f := fun s => ((do
      let s ← s.pulses (List.replicate 25 0)
      let (outcome, s') ← s.tick 0 true
      return ([s.quantum, s.clock.ticks, s'.clock.ticks], outcome.plan,
        [s.stats.rotations, s'.stats.rotations])) : Logged _).result)
    (b := .ok ([10, 29, 31], none, [2, 2])) hs (by decide +kernel)
  obtain ⟨s, hs₁, hrest⟩ := Logged.result_bind_eq_ok.mp hend
  obtain ⟨⟨outcome, s'⟩, hs₂, hlast⟩ := Logged.result_bind_eq_ok.mp hrest
  simp only [Logged.result_pure, Except.ok.injEq, Prod.mk.injEq, List.cons.injEq, and_true] at hlast
  obtain ⟨⟨hquantum, hticks, hticks'⟩, hplan, hrotations, hrotations'⟩ := hlast
  exact ⟨start, s, s', outcome, hs, hbusy, hs₁, hs₂, hquantum, hticks, hticks', hplan, hrotations,
    hrotations'⟩

end Scheduler
end PulseKernel
