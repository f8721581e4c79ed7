/-
# Cancelling a sleep that is due

A sleep can be cancelled when its deadline has come but the pulse that would end it
has not. It makes no difference which of the two is first: the request finds the
sleeper and the pulse wakes the others, or the pulse wakes them all and the request
finds nobody (`Scheduler.Reached.cancel_tick_either_order`). In both orders the same
threads were woken, each was added to the policy once, and the one that holds the
processor was not.

Both are accounts of who was woken (`Scheduler.Wakes`): waking some threads and then
others is waking them all, and the order only shows in the order of the line. At the
end of a quantum the pulse would hand the processor on as well, from a line that
depends on the order; so the next pulse is not to be one.

Key definitions: `Scheduler.Wakes`, `Scheduler.Alike`, `Scheduler.AddsWoken`.
Key theorems: `Policy.policy_dialogue_of_early`, `Scheduler.Wakes.trans`,
`Scheduler.Wakes.alike`, `Scheduler.Sound.wakes_tick`,
`Scheduler.Reached.cancel_tick_either_order`.
-/
import PulseKernel.Proofs.CallEffect

namespace PulseKernel

namespace ThreadTable

/-- It only matters who is freed. -/
theorem freed_congr (table : ThreadTable) {ts us : List ThreadId} (h : ∀ t, t ∈ ts ↔ t ∈ us) :
    table.freed ts = table.freed us := by
  refine ext_slot? (by simp) fun t => ?_
  simp only [slot?_freed, h]

end ThreadTable

namespace Policy

variable {π : Type} [Policy π]

/-- While the quantum lasts, a steady policy is only told of the woken threads that do not hold the
processor. -/
theorem policy_dialogue_of_early [SteadyPolicy π] (p : π) (woken : List ThreadId)
    (awake : ThreadId → Bool) :
    (dialogue p woken false awake).policy =
      addAll p (woken.filter fun t => t ≠ (Policy.current p).1) := by
  simp only [dialogue, consult_of_early, others_of_steady, SteadyPolicy.hasOtherRunnable_snd]

end Policy

theorem Recorded.policy_addAll {π : Type} [Policy π] (r : Recorded π) (ts : List ThreadId) :
    (Policy.addAll r ts).policy = Policy.addAll r.policy ts := by
  induction ts generalizing r with
  | nil => rfl
  | cons t ts ih => exact ih (Policy.addReady r t)

namespace Scheduler

variable {s s₁ s₂ s₃ : Scheduler (Recorded Fifo)} {L : Layout Unit Unit} {naps : List Sleeper}
  {woken woken' : List ThreadId} {now deadline : Nat}

/-! ### Waking -/

/-- These threads, which slept, were woken: their slots are freed, and those that do not hold the
processor were added to the policy. -/
structure Wakes (s s' : Scheduler (Recorded Fifo)) (woken : List ThreadId) : Prop where
  threads : s'.threads = s.threads.freed woken
  policy : s'.policy = Policy.addAll s.policy (woken.filter fun t => t ≠ s.policy.policy.running)
  ended : s'.stats.expirations + s'.stats.cancellations =
    s.stats.expirations + s.stats.cancellations + woken.length

namespace Wakes

theorem refl (s : Scheduler (Recorded Fifo)) : s.Wakes s [] := ⟨rfl, rfl, rfl⟩

theorem running (h : s.Wakes s₁ woken) : s₁.policy.policy.running = s.policy.policy.running := by
  rw [h.policy, Recorded.policy_addAll, Fifo.addAll_eq]

theorem ready (h : s.Wakes s₁ woken) : s₁.policy.policy.ready =
    s.policy.policy.ready ++ woken.filter fun t => t ≠ s.policy.policy.running := by
  rw [h.policy, Recorded.policy_addAll, Fifo.addAll_eq]

theorem calls (h : s.Wakes s₁ woken) : s₁.policy.calls =
    s.policy.calls ++ (woken.filter fun t => t ≠ s.policy.policy.running).map .addReady := by
  rw [h.policy, Recorded.calls_addAll]

/-- Waking some threads and then others is waking them all. -/
theorem trans (h : s.Wakes s₁ woken) (h' : s₁.Wakes s₂ woken') : s.Wakes s₂ (woken ++ woken') := by
  refine ⟨?_, ?_, ?_⟩
  · rw [h'.threads, h.threads, ThreadTable.freed_append]
  · rw [h'.policy, h.running, h.policy, List.filter_append, Policy.addAll_append]
  · rw [h'.ended, h.ended, List.length_append, Nat.add_assoc]

end Wakes

/-- The schedulers differ at most in the order of the line and in how the sleeps that ended are
counted. -/
structure Alike (s s' : Scheduler (Recorded Fifo)) : Prop where
  pairs : s.sleepers.pairs = s'.sleepers.pairs
  threads : s.threads = s'.threads
  clock : s.clock = s'.clock
  running : s.policy.policy.running = s'.policy.policy.running
  ready : s.policy.policy.ready.Perm s'.policy.policy.ready
  ended : s.stats.expirations + s.stats.cancellations =
    s'.stats.expirations + s'.stats.cancellations

/-- Since `s` the policy was called only to add threads: those that slept and do not any more, each
once, apart from the one that holds the processor. -/
def AddsWoken (s s' : Scheduler (Recorded Fifo)) : Prop :=
  ∃ added : List ThreadId, s'.policy.calls = s.policy.calls ++ added.map .addReady ∧
    added.Nodup ∧ ∀ t, t ∈ added ↔
      s.isSleeping t = true ∧ s'.isSleeping t = false ∧ t ≠ s.policy.policy.running

/-- Who was woken in what order makes no difference. -/
theorem Wakes.alike (h : s.Wakes s₁ woken) (h' : s.Wakes s₂ woken') (hperm : woken.Perm woken')
    (hpairs : s₁.sleepers.pairs = s₂.sleepers.pairs) (hclock : s₁.clock = s₂.clock) :
    s₁.Alike s₂ := by
  refine ⟨hpairs, ?_, hclock, ?_, ?_, ?_⟩
  · rw [h.threads, h'.threads]
    exact s.threads.freed_congr fun t => hperm.mem_iff
  · rw [h.running, h'.running]
  · rw [h.ready, h'.ready]
    exact (hperm.filter _).append_left _
  · rw [h.ended, h'.ended, hperm.length_eq]

namespace Sound

/-- A pulse that does not end a quantum wakes who is due, and does nothing else to the threads and
the policy. -/
theorem wakes_tick (h : s.Sound L [] naps) (now : Nat) {clock : TickClock}
    (hclock : s.clock.advance? = some clock) (hover : clock.ticks % s.quantum ≠ 0) :
    ∃ outcome s', (s.tick now true).result = .ok (outcome, s') ∧ s'.clock = clock ∧
      s.Wakes s' ((s.sleepers.due now).map (·.thread)) ∧
      s'.Sound L [] (naps.filter fun e => now < e.deadline) := by
  obtain ⟨clock', heap, hclock', hperm, hs⟩ := h.tick_booted_eq now
  obtain rfl := Option.some.inj (hclock.symm.trans hclock')
  have hearly : (s.heard now clock.ticks).policy = Policy.addAll s.policy
      (((s.sleepers.due now).map (·.thread)).filter fun t => t ≠ s.policy.policy.running) := by
    rw [heard, decide_eq_false hover]
    exact Policy.policy_dialogue_of_early s.policy _ _
  refine ⟨_, _, hs, rfl, ⟨rfl, hearly, ?_⟩, h.afterPulse hs hperm⟩
  simp only [Scheduler.afterPulse, Stats.rotated, List.length_map]
  omega

/-- The first sleeper with the deadline is woken. -/
theorem wakes_cancelSleep (h : s.Sound L [] naps) {e : Sleeper}
    (he : naps.find? (·.deadline == deadline) = some e) :
    ∃ s', (s.cancelSleep deadline).result = .ok (some e.thread, s') ∧ s'.clock = s.clock ∧
      s'.quantum = s.quantum ∧ s.Wakes s' [e.thread] ∧ s'.Sound L [] (naps.erase e) := by
  obtain ⟨a, ha, ⟨-, hnone⟩ | ⟨e', heap, he', rfl, h'⟩⟩ := h.cancelSleep_result deadline
  · rw [he] at hnone
    cases hnone
  · obtain rfl := Option.some.inj (he.symm.trans he')
    refine ⟨_, ha, rfl, rfl, ⟨rfl, ?_, (Nat.add_assoc _ _ _).symm⟩, h'⟩
    exact congrArg (fun o => Policy.addAll o.2 o.1) (Policy.others_of_steady s.policy [e.thread])

theorem cancelSleep_none (h : s.Sound L [] naps)
    (hnone : naps.find? (·.deadline == deadline) = none) :
    (s.cancelSleep deadline).result = .ok (none, s) := by
  obtain ⟨a, ha, ⟨rfl, -⟩ | ⟨e, heap, he, -⟩⟩ := h.cancelSleep_result deadline
  · exact ha
  · rw [hnone] at he
    cases he

/-- The answer of a cancellation is the oldest sleeper with the deadline. -/
theorem find?_pairs (h : s.Sound L [] naps) (deadline : Nat) :
    (s.sleepers.pairs.find? (·.1 == deadline)).map (·.2) =
      (naps.find? (·.deadline == deadline)).map (·.thread) := by
  rw [h.lists.pairs_eq, List.find?_map, Option.map_map]
  rfl

/-- The threads that were due, in whatever order they were woken, are those that slept and do not
any more. -/
theorem addsWoken (h : s.Sound L [] naps) (hwakes : s.Wakes s₁ woken)
    (h₁ : s₁.Sound L [] (naps.filter fun e => now < e.deadline))
    (hperm : woken.Perm ((s.sleepers.due now).map (·.thread))) : s.AddsWoken s₁ := by
  refine ⟨_, hwakes.calls, (hperm.nodup_iff.mpr (h.lists.nodup_due now)).filter _, fun t => ?_⟩
  rw [List.mem_filter, decide_eq_true_eq, ← and_assoc, hperm.mem_iff, h.isSleeping_iff,
    ← Bool.not_eq_true, h₁.isSleeping_iff]
  refine and_congr_left fun _ => ⟨fun ht => ?_, fun ⟨ht, hawake⟩ => ?_⟩
  · obtain ⟨e, he, rfl⟩ := List.mem_map.mp ht
    obtain ⟨hel, hnow⟩ := h.lists.mem_due_iff.mp he
    refine ⟨List.mem_map_of_mem hel, fun hlater => ?_⟩
    obtain ⟨e', he', hthread⟩ := List.mem_map.mp hlater
    obtain ⟨hel', hstays⟩ := List.mem_filter.mp he'
    obtain rfl := h.lists.eq_of_thread hel' hel hthread
    exact absurd hnow (Nat.not_le.mpr (of_decide_eq_true hstays))
  · obtain ⟨e, hel, rfl⟩ := List.mem_map.mp ht
    refine List.mem_map_of_mem (h.lists.mem_due_iff.mpr ⟨hel, ?_⟩)
    by_contra hnow
    exact hawake (List.mem_map_of_mem
      (List.mem_filter.mpr ⟨hel, decide_eq_true (Nat.not_le.mp hnow)⟩))

end Sound

/-- A sleep that is due may be cancelled before the pulse or after it: the request finds the oldest
sleeper with the deadline or nobody, and the schedulers are alike in the end. -/
theorem Reached.cancel_tick_either_order {s : Scheduler (Recorded Fifo)} (h : s.Reached)
    {deadline now : Nat} (hdue : deadline ≤ now) {clock : TickClock}
    (hclock : s.clock.advance? = some clock) (hover : clock.ticks % s.quantum ≠ 0) :
    ∃ s₁ s₂ s₃ outcome outcome',
      (s.cancelSleep deadline).result =
        .ok ((s.sleepers.pairs.find? (·.1 == deadline)).map (·.2), s₁) ∧
      (s₁.tick now true).result = .ok (outcome, s₂) ∧
      (s.tick now true).result = .ok (outcome', s₃) ∧
      (s₃.cancelSleep deadline).result = .ok (none, s₃) ∧
      s₂.Alike s₃ ∧ s.AddsWoken s₂ ∧ s.AddsWoken s₃ := by
  obtain ⟨L, naps, hsound⟩ := h.sound
  obtain ⟨outcome', s₃, hs₃, hclock₃, hwakes₃, hsound₃⟩ := hsound.wakes_tick now hclock hover
  have hadds₃ := hsound.addsWoken hwakes₃ hsound₃ (.refl _)
  have hafter : (s₃.cancelSleep deadline).result = .ok (none, s₃) := by
    refine hsound₃.cancelSleep_none (List.find?_eq_none.mpr fun e he heq => ?_)
    have hlater := of_decide_eq_true (List.mem_filter.mp he).2
    have hdeadline : e.deadline = deadline := by simpa using heq
    omega
  rw [hsound.find?_pairs]
  cases he : naps.find? (·.deadline == deadline) with
  | none =>
    refine ⟨s, s₃, s₃, outcome', outcome', hsound.cancelSleep_none he, hs₃, hs₃, hafter, ?_, hadds₃,
      hadds₃⟩
    exact ⟨rfl, rfl, rfl, rfl, .refl _, rfl⟩
  | some e =>
    obtain ⟨s₁, hs₁, hclock₁, hquantum₁, hwakes₁, hsound₁⟩ := hsound.wakes_cancelSleep he
    obtain ⟨outcome, s₂, hs₂, hclock₂, hwakes₂, hsound₂⟩ :=
      hsound₁.wakes_tick now (hclock₁ ▸ hclock) (hquantum₁ ▸ hover)
    have hel := List.mem_of_find?_eq_some he
    have hnow : e.deadline ≤ now := by
      have hdeadline : e.deadline = deadline := by simpa using List.find?_some he
      omega
    -- the one that the request woke and those that the pulse woke then
    have hwakes := hwakes₁.trans hwakes₂
    have hperm : ([e.thread] ++ (s₁.sleepers.due now).map (·.thread)).Perm
        ((s.sleepers.due now).map (·.thread)) :=
      (hsound.lists.cons_due_erase_perm hsound₁.lists hel hnow).map fun e : Sleeper => e.thread
    rw [hsound.lists.filter_erase_of_due hnow] at hsound₂
    have hpairs : s₂.sleepers.pairs = s₃.sleepers.pairs := by
      rw [hsound₂.lists.pairs_eq, hsound₃.lists.pairs_eq]
    refine ⟨s₁, s₂, s₃, outcome, outcome', hs₁, hs₂, hs₃, hafter, ?_,
      hsound.addsWoken hwakes hsound₂ hperm, hadds₃⟩
    exact hwakes.alike hwakes₃ hperm hpairs (hclock₂.trans hclock₃.symm)

/-- The second of two sleepers is cancelled when both are due: it stands before the first in line,
or behind it. -/
theorem Reached.cancel_tick_either_order_two_sleepers :
    ∃ s s₁ s₂ s₃ : Scheduler (Recorded Fifo), s.Reached ∧
      (s.cancelSleep 7).result = .ok (some ⟨1⟩, s₁) ∧
      s₂.policy.policy.ready = [⟨1⟩, ⟨0⟩] ∧ s₃.policy.policy.ready = [⟨0⟩, ⟨1⟩] ∧
      (∃ outcome, (s₁.tick 9 true).result = .ok (outcome, s₂)) ∧
      (∃ outcome, (s.tick 9 true).result = .ok (outcome, s₃)) ∧
      (s₃.cancelSleep 7).result = .ok (none, s₃) ∧
      s₂.Alike s₃ ∧ s.AddsWoken s₂ ∧ s.AddsWoken s₃ := by
  have hcheck : ({ maxThreads := 3, sleepSlots := 2 } : Settings).check = .ok () := by decide
  obtain ⟨s, hs, h⟩ := Reached.exists_callAll hcheck (⟨⟨[⟨1⟩, ⟨2⟩], ⟨0⟩⟩, []⟩ : Recorded Fifo) ⟨1⟩
    [.serve (.register {}), .serve (.register {}), .serve (.register {}), .beginSleep 5,
      .beginSleep 7]
  have hclock := Logged.eq_of_map_result (f := fun s => s.clock.advance?)
    (b := some ⟨1, 193180, 193180⟩) hs (by decide +kernel)
  have hquantum := Logged.eq_of_map_result (f := fun s => s.quantum) (b := 10) hs
    (by decide +kernel)
  have hlines := Logged.eq_of_map_result
    (f := fun s => ((do
      let (woken, s₁) ← s.cancelSleep 7
      let (_, s₂) ← s₁.tick 9 true
      let (_, s₃) ← s.tick 9 true
      return (woken, s₂.policy.policy.ready, s₃.policy.policy.ready)) : Logged _).result)
    (b := .ok (some ⟨1⟩, [⟨1⟩, ⟨0⟩], [⟨0⟩, ⟨1⟩])) hs (by decide +kernel)
  obtain ⟨s₁, s₂, s₃, outcome, outcome', hs₁, hs₂, hs₃, hnone, halike, hadds₂, hadds₃⟩ :=
    h.cancel_tick_either_order (show 7 ≤ 9 by decide) hclock (by rw [hquantum]; decide)
  rw [Logged.result_bind_of_ok _ hs₁, Logged.result_bind_of_ok _ hs₂,
    Logged.result_bind_of_ok _ hs₃] at hlines
  simp only [Logged.result_pure, Except.ok.injEq, Prod.mk.injEq] at hlines
  obtain ⟨hwoken, hready₂, hready₃⟩ := hlines
  rw [hwoken] at hs₁
  exact ⟨s, s₁, s₂, s₃, h, hs₁, hready₂, hready₃, ⟨outcome, hs₂⟩, ⟨outcome', hs₃⟩, hnone, halike,
    hadds₂, hadds₃⟩

end Scheduler
end PulseKernel
