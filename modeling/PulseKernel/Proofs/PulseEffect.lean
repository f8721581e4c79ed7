/-
# What a pulse does

A pulse is described in full: which sleepers leave the heap, what the policy hears
and in which order, which slots change, what is counted, how often the time is read
and which switch is planned (`Scheduler.Reached.tick_eq`). All of it follows from
the scheduler as it was before and from what the policy answers
(`Policy.dialogue`); the hand-off queue, on which the woken threads stood in
between, is empty again and left no trace.

Key definitions: `SwitchPlan.plan?`, `Stats.rotated`, `Scheduler.awake`,
`Scheduler.roused`, `Scheduler.expiry`, `Scheduler.heard`, `Scheduler.afterPulse`.
Key theorems: `Scheduler.Sound.expireDue_eq`, `Scheduler.Sound.rotate_eq`,
`Scheduler.Sound.tick_booted_eq`, `Scheduler.Reached.tick_eq`.
-/
import PulseKernel.Proofs.Reached
import PulseKernel.Proofs.Staging

namespace PulseKernel

/-! ### Plans -/

theorem ThreadTable.context_eq_ok_iff {table : ThreadTable} {t : ThreadId} :
    (∃ context, table.context t = .ok context) ↔ table.contains t = true := by
  unfold ThreadTable.context ThreadTable.contains
  cases table.slot t <;> simp [Except.map, Except.isOk, Except.toBool]

namespace SwitchPlan

/-- The switch between two different registered threads. -/
def plan? (table : ThreadTable) (source target : ThreadId) : Option SwitchPlan :=
  if source ≠ target ∧ table.contains source ∧ table.contains target then some ⟨source, target⟩
  else none

/-- Two threads have a plan unless they are the same or one of them is not registered. -/
theorem between_eq (table : ThreadTable) (source target : ThreadId) :
    between table source target = .ok (plan? table source target) ∨
      plan? table source target = none ∧
        ∃ refusal, between table source target = .error refusal := by
  unfold between plan?
  by_cases hsame : source = target
  · simp [hsame]
  · rw [if_neg hsame]
    cases hs : table.context source with
    | error refusal =>
      have hcontains : ¬ table.contains source = true := by
        rw [← ThreadTable.context_eq_ok_iff, hs]
        simp
      exact Or.inr ⟨by simp [hcontains], refusal, rfl⟩
    | ok c =>
      have hsource := ThreadTable.context_eq_ok_iff.mp ⟨c, hs⟩
      cases ht : table.context target with
      | error refusal =>
        have hcontains : ¬ table.contains target = true := by
          rw [← ThreadTable.context_eq_ok_iff, ht]
          simp
        exact Or.inr ⟨by simp [hcontains], refusal, rfl⟩
      | ok c' =>
        have htarget := ThreadTable.context_eq_ok_iff.mp ⟨c', ht⟩
        exact Or.inl (by simp [hsame, hsource, htarget, bind, Except.bind, pure, Except.pure])

end SwitchPlan

/-- The switch that a rotation asks for. -/
def Rotation.plan? (r : Rotation) (table : ThreadTable) : Option SwitchPlan :=
  SwitchPlan.plan? table r.running r.next

/-- The counts after a rotation, if there was one. A running thread without a slot cannot be put on
the hand-off queue. -/
def Stats.rotated (stats : Stats) (rotation : Option Rotation) (table : ThreadTable) : Stats :=
  { stats with
    rotations := stats.rotations + rotation.isSome.toNat
    redundantEnqueues := stats.redundantEnqueues +
      (rotation.any fun r => !table.contains r.running).toNat
    contextSwitches := stats.contextSwitches + (rotation.bind (·.plan? table)).isSome.toNat }

namespace Scheduler

variable {π : Type} {L : Layout Unit Unit} {s : Scheduler π} {staged : List ThreadId}
  {naps : List Sleeper} {t : ThreadId}

/-- Whether the thread is registered and does not sleep. -/
def awake (s : Scheduler π) (t : ThreadId) : Bool := s.threads.contains t && !s.isSleeping t

theorem planSwitch_eq (s : Scheduler π) (source target : ThreadId) :
    (s.planSwitch source target).result = .ok (SwitchPlan.plan? s.threads source target, { s with
      stats := { s.stats with contextSwitches := s.stats.contextSwitches +
        (SwitchPlan.plan? s.threads source target).isSome.toNat } }) := by
  unfold Scheduler.planSwitch
  rcases SwitchPlan.between_eq s.threads source target with h | ⟨hnone, refusal, h⟩
  · rw [h]
    cases SwitchPlan.plan? s.threads source target <;> rfl
  · rw [h, hnone]
    rfl

/-- The scheduler after a pulse has been counted. -/
def counted (s : Scheduler π) (clock : TickClock) : Scheduler π :=
  { s with clock := clock, stats := { s.stats with pulses := s.stats.pulses + 1 } }

namespace Sound

/-- Between two steps the awake threads are those that no structure owns. -/
theorem awake_iff (h : s.Sound L [] naps) : s.awake t = true ↔ s.threads.tag t = .ok .unqueued := by
  rw [awake, Bool.and_eq_true, ThreadTable.contains_iff, Bool.not_eq_true', isSleeping,
    ← Bool.not_eq_true, ThreadTable.hasTag_iff]
  constructor
  · rintro ⟨⟨g, hg⟩, hawake⟩
    cases g with
    | unqueued => exact hg
    | asleep => exact absurd hg hawake
    | ready q =>
      obtain ⟨-, -, ht⟩ := h.accounts.ready_of_tag t q hg
      cases ht
  · intro hg
    exact ⟨⟨_, hg⟩, by simp [hg]⟩

end Sound

variable [Policy π]

/-- The scheduler after these sleepers have left the heap and been passed to the policy. -/
def roused (s : Scheduler π) (heap : Array Sleeper) (due : List Sleeper) : Scheduler π :=
  { s.woken heap due with
    threads := s.threads.freed (due.map (·.thread))
    policy := Policy.addAll (s.woken heap due).policy (s.admits due) }

/-- The scheduler after the sleepers that are due have left the heap, one after the other, and been
passed to the policy. -/
def expiry (s : Scheduler π) (now : Nat) : Scheduler π :=
  s.roused (s.sleepers.eraseAll (s.sleepers.due now)).heap (s.sleepers.due now)

/-- What a pulse says to the policy, when the clock has come to these ticks. -/
def heard (s : Scheduler π) (now ticks : Nat) : Dialogue π :=
  let woken := (s.sleepers.due now).map (·.thread)
  let threads := s.threads.freed woken
  Policy.dialogue s.policy woken (ticks % s.quantum = 0) fun t =>
    threads.contains t && !threads.hasTag t .asleep

/-- The scheduler after a pulse, given the clock and the heap that it left. -/
def afterPulse (s : Scheduler π) (now : Nat) (clock : TickClock) (heap : Array Sleeper) :
    Scheduler π :=
  let due := s.sleepers.due now
  let threads := s.threads.freed (due.map (·.thread))
  let stats := { s.stats with
    pulses := s.stats.pulses + 1
    expirations := s.stats.expirations + due.length }
  { s with
    clock := clock
    sleepers := { s.sleepers with heap := heap }
    threads := threads
    policy := (s.heard now clock.ticks).policy
    stats := stats.rotated (s.heard now clock.ticks).rotation threads }

/-- The running thread goes back to the policy unless it sleeps. -/
def sendBack (s : Scheduler π) (running : ThreadId) : Logged (Scheduler π) :=
  if s.isSleeping running then pure s else s.handOff running >>= flushHandoff

/-- Gives the processor to the next thread. -/
def turn (s : Scheduler π) : Logged (Option SwitchPlan × Scheduler π) := do
  let s₁ ← s.current.2.sendBack s.current.1
  let s₂ := s₁.pickNext.2
  let stats := { s₂.stats with rotations := s₂.stats.rotations + 1 }
  ({ s₂ with stats := stats } : Scheduler π).planSwitch s.current.1 s₁.pickNext.1

theorem rotate_of_idle (hbusy : s.hasOtherRunnable.1 = false) :
    s.rotate = pure (none, s.hasOtherRunnable.2) := by
  unfold Scheduler.rotate
  simp [hbusy]

theorem rotate_of_early (hquantum : s.quantum ≠ 0) (hover : s.clock.ticks % s.quantum ≠ 0) :
    s.rotate = pure (none, s.hasOtherRunnable.2) := by
  have hquantum' : s.hasOtherRunnable.2.quantum ≠ 0 := hquantum
  have hover' : s.hasOtherRunnable.2.clock.ticks % s.hasOtherRunnable.2.quantum ≠ 0 := hover
  unfold Scheduler.rotate
  simp only [hquantum', hover', ne_eq, not_false_eq_true, if_true, if_false, ite_self]

/-- At the end of the quantum, and if another thread can run, the processor changes hands. -/
theorem rotate_of_over (hquantum : s.quantum ≠ 0) (hbusy : s.hasOtherRunnable.1 = true)
    (hover : s.clock.ticks % s.quantum = 0) : s.rotate = s.hasOtherRunnable.2.turn := by
  have hquantum' : s.hasOtherRunnable.2.quantum ≠ 0 := hquantum
  have hover' : s.hasOtherRunnable.2.clock.ticks % s.hasOtherRunnable.2.quantum = 0 := hover
  unfold Scheduler.rotate Scheduler.turn Scheduler.sendBack
  simp only [hquantum', hover', hbusy, Bool.not_true, Bool.false_eq_true, ne_eq, not_true_eq_false,
    if_false]
  split
  · rfl
  · rw [bind_assoc]

namespace Sound

/-! ### Expiry -/

/-- Every sleeper that is due is woken, and the time is read if there is a sleeper. -/
theorem expireDue_eq (h : s.Sound L [] naps) (now : Nat) :
    (s.expireDue now).Gives fun a => a = (if s.sleepers.isEmpty then 0 else 1, s.expiry now) ∧
      a.2.Sound L [] (naps.filter fun e => now < e.deadline) := by
  unfold Scheduler.expireDue
  split
  · rename_i hempty
    have hnil : s.sleepers.due now = [] := by
      have hnaps : naps = [] := by rwa [h.lists.isEmpty_eq, List.isEmpty_iff] at hempty
      refine List.eq_nil_iff_forall_not_mem.mpr fun e he => ?_
      have hmem := (h.lists.mem_due_iff.mp he).1
      rw [hnaps] at hmem
      cases hmem
    refine .pure ⟨?_, ?_⟩
    · rw [expiry, hnil]
      rfl
    · rw [h.lists.filter_of_due_eq_nil hnil]
      exact h
  · have hlength : (s.sleepers.due now).length ≤ s.sleepers.size := by
      rw [(h.lists.perm_due now).length_eq, h.lists.size_eq]
      exact List.length_filter_le _ _
    refine .bind (h.expireUpTo_eq now _ s.sleepers.size rfl hlength) fun s₁ hs₁ => ?_
    obtain ⟨table, rfl, h₁, hfreed⟩ := hs₁
    refine .bind (h₁.flush_withStaged h.queue hfreed) fun s₂ hs₂ => .pure ⟨?_, hs₂.2⟩
    rw [hs₂.1]
    rfl

/-! ### Rotation -/

/-- An awake thread goes back to the policy; one without a slot is counted. -/
theorem sendBack_eq (h : s.Sound L [] naps) (t : ThreadId) :
    (s.sendBack t).result = .ok { s with
      policy := if s.awake t then Policy.addReady s.policy t else s.policy
      stats := { s.stats with
        redundantEnqueues := s.stats.redundantEnqueues + (!s.threads.contains t).toNat } } := by
  unfold Scheduler.sendBack
  cases hsleep : s.isSleeping t with
  | true =>
    have hg : s.threads.tag t = .ok .asleep := ThreadTable.hasTag_iff.mp hsleep
    have hcontains : s.threads.contains t = true := ThreadTable.contains_iff.mpr ⟨_, hg⟩
    have hawake : s.awake t = false := by simp [awake, hsleep]
    rw [hawake, hcontains]
    rfl
  | false =>
    rw [if_neg Bool.false_ne_true]
    cases hcontains : s.threads.contains t with
    | true =>
      have hawake : s.awake t = true := by simp [awake, hsleep, hcontains]
      obtain ⟨s₁, hs₁, table, rfl, h₁, hfreed⟩ := h.handOff_of_free (h.awake_iff.mp hawake)
      obtain ⟨s₂, hs₂, rfl, -⟩ := h₁.flush_withStaged h.queue hfreed
      rw [Logged.result_bind_of_ok _ hs₁, hs₂, hawake]
      rfl
    | false =>
      have hawake : s.awake t = false := by simp [awake, hcontains]
      have hg : s.threads.tag t ≠ .ok .unqueued := fun hg => by
        rw [h.awake_iff.mpr hg] at hawake
        cases hawake
      obtain ⟨s₂, hs₂, heq₂, -⟩ := (h.withStats { s.stats with
        redundantEnqueues := s.stats.redundantEnqueues + 1 }).flushHandoff_eq
      rw [Logged.result_bind_of_ok _ (handOff_of_not_free hg), hs₂, heq₂, ← h.queue, hawake]
      rfl

/-- The processor changes hands as the policy tells. -/
theorem turn_eq (h : s.Sound L [] naps) :
    s.turn.result = .ok ((Policy.turn s.policy s.awake).1.plan? s.threads, { s with
      policy := (Policy.turn s.policy s.awake).2
      stats := s.stats.rotated (some (Policy.turn s.policy s.awake).1) s.threads }) := by
  rw [Scheduler.turn, Logged.result_bind_of_ok _ (h.current.sendBack_eq s.current.1)]
  exact planSwitch_eq _ _ _

/-- The policy is consulted, and counts and plan are as its answers tell. -/
theorem rotate_eq (h : s.Sound L [] naps) :
    s.rotate.result = .ok
      ((Policy.consult s.policy (s.clock.ticks % s.quantum = 0) s.awake).2.1.bind
        (·.plan? s.threads),
      { s with
        policy := (Policy.consult s.policy (s.clock.ticks % s.quantum = 0) s.awake).2.2
        stats := s.stats.rotated
          (Policy.consult s.policy (s.clock.ticks % s.quantum = 0) s.awake).2.1 s.threads }) := by
  cases hbusy : s.hasOtherRunnable.1 with
  | false =>
    rw [rotate_of_idle hbusy, Policy.consult_of_idle _ _ hbusy]
    rfl
  | true =>
    by_cases hover : s.clock.ticks % s.quantum = 0
    · rw [rotate_of_over h.quantum hbusy hover, h.hasOtherRunnable.turn_eq, decide_eq_true hover,
        Policy.consult_of_over _ hbusy]
      rfl
    · rw [rotate_of_early h.quantum hover, decide_eq_false hover, Policy.consult_of_early]
      rfl

/-! ### The whole pulse -/

omit [Policy π] in
/-- The clock of a scheduler whose accounts are in order can go on. -/
theorem countPulse_eq (h : s.Sound L [] naps) :
    ∃ clock, s.clock.advance? = some clock ∧ s.countPulse = pure (s.counted clock) ∧
      (s.counted clock).Sound L [] naps := by
  obtain ⟨clock, hclock⟩ : ∃ clock, s.clock.advance? = some clock :=
    ⟨_, TickClock.advance?_of_lt h.pending h.remainder⟩
  have hcount : s.countPulse = pure (s.counted clock) := by
    rw [Scheduler.countPulse, hclock]
    rfl
  exact ⟨clock, hclock, hcount, h.countPulse.of_result (by rw [hcount]; rfl)⟩

/-- Before the system has booted a pulse only moves the clock. -/
theorem tick_early_eq (h : s.Sound L [] naps) (now : Nat) :
    ∃ clock, s.clock.advance? = some clock ∧ (s.tick now false).result = .ok ({}, { s with
      clock := clock
      stats := { s.stats with
        pulses := s.stats.pulses + 1
        earlyPulses := s.stats.earlyPulses + 1 } }) := by
  obtain ⟨clock, hclock, hcount, -⟩ := h.countPulse_eq
  refine ⟨clock, hclock, ?_⟩
  rw [Scheduler.tick, hcount, pure_bind]
  rfl

/-- After boot a pulse wakes who is due and lets the policy take its turn. -/
theorem tick_booted_eq (h : s.Sound L [] naps) (now : Nat) :
    ∃ clock heap, s.clock.advance? = some clock ∧
      heap.toList.Perm (s.sleepers.heap.toList.filter fun e => now < e.deadline) ∧
      (s.tick now true).result = .ok
        (⟨(s.heard now clock.ticks).rotation.bind (·.plan? (s.afterPulse now clock heap).threads),
          if s.sleepers.isEmpty then 0 else 1⟩, s.afterPulse now clock heap) := by
  obtain ⟨clock, hclock, hcount, h₁⟩ := h.countPulse_eq
  obtain ⟨a, ha, heq, h₂⟩ := h₁.expireDue_eq now
  let heap := (s.sleepers.eraseAll (s.sleepers.due now)).heap
  refine ⟨clock, heap, hclock, ?_, ?_⟩
  · have hperm : heap.toList.Perm (naps.filter fun e => now < e.deadline) := by
      have := h₂.lists.perm
      rwa [heq] at this
    exact hperm.trans (h.lists.perm.filter _).symm
  · rw [Scheduler.tick, hcount, pure_bind, if_neg (by simp), Logged.result_bind_of_ok _ ha,
      Logged.result_bind_of_ok _ h₂.rotate_eq, heq]
    rfl

end Sound

/-- What a pulse does to a scheduler with a recorded policy, and what the policy hears of it. -/
theorem Reached.tick_eq {s : Scheduler (Recorded π)} (h : s.Reached) (now : Nat) :
    ∃ clock heap, s.clock.advance? = some clock ∧
      heap.toList.Perm (s.sleepers.heap.toList.filter fun e => now < e.deadline) ∧
      (s.tick now false).result = .ok ({}, { s with
        clock := clock
        stats := { s.stats with
          pulses := s.stats.pulses + 1
          earlyPulses := s.stats.earlyPulses + 1 } }) ∧
      (s.tick now true).result = .ok
        (⟨(s.heard now clock.ticks).rotation.bind (·.plan? (s.afterPulse now clock heap).threads),
          if s.sleepers.isEmpty then 0 else 1⟩, s.afterPulse now clock heap) ∧
      (s.afterPulse now clock heap).policy.calls =
        s.policy.calls ++ (s.heard now clock.ticks).calls := by
  obtain ⟨L, naps, hsound⟩ := h.sound
  obtain ⟨clock, hclock, hearly⟩ := hsound.tick_early_eq now
  obtain ⟨clock', heap, hclock', hperm, hbooted⟩ := hsound.tick_booted_eq now
  obtain rfl := Option.some.inj (hclock.symm.trans hclock')
  refine ⟨clock, heap, hclock, hperm, hearly, hbooted, ?_⟩
  show (s.heard now clock.ticks).policy.calls = _
  unfold heard
  exact s.policy.calls_dialogue _ _ _

/-- A pulse wakes the first of two threads and, the quantum being over, runs it at once. -/
theorem Reached.tick_eq_two_threads :
    ∃ s s' : Scheduler (Recorded Fifo), s.Reached ∧ s.sleepers.size = 1 ∧
      (s.tick 7 true).result = .ok (⟨some ⟨⟨1⟩, ⟨0⟩⟩, 1⟩, s') ∧
      s'.policy.calls =
        [.pickNext ⟨1⟩, .addReady ⟨0⟩, .addReady ⟨1⟩, .pickNext ⟨0⟩] := by
  have hcheck : ({ maxThreads := 2, sleepSlots := 2, quantum := 1 } : Settings).check = .ok () := by
    decide
  obtain ⟨s, hs, h⟩ := Reached.exists_callAll hcheck (⟨⟨[⟨1⟩], ⟨0⟩⟩, []⟩ : Recorded Fifo) ⟨1⟩
    [.serve (.register {}), .serve (.register {}), .beginSleep 5]
  -- what is needed of the state is computed
  have hclock := Logged.eq_of_map_result (f := fun s => s.clock.advance?)
    (b := some ⟨1, 193180, 193180⟩) hs (by decide +kernel)
  have hsize := Logged.eq_of_map_result (f := fun s => (s.sleepers.size, s.sleepers.isEmpty))
    (b := (1, false)) hs (by decide +kernel)
  have hcalls := Logged.eq_of_map_result
    (f := fun s => s.policy.calls ++ (s.heard 7 1).calls)
    (b := [.pickNext ⟨1⟩, .addReady ⟨0⟩, .addReady ⟨1⟩, .pickNext ⟨0⟩]) hs (by decide +kernel)
  have hplan := Logged.eq_of_map_result
    (f := fun s => (s.heard 7 1).rotation.bind
      (·.plan? (s.threads.freed ((s.sleepers.due 7).map (·.thread)))))
    (b := some ⟨⟨1⟩, ⟨0⟩⟩) hs (by decide +kernel)
  obtain ⟨clock, heap, hadvance, -, -, htick, hheard⟩ := h.tick_eq 7
  obtain rfl := Option.some.inj (hclock.symm.trans hadvance)
  refine ⟨s, s.afterPulse 7 ⟨1, 193180, 193180⟩ heap, h, (Prod.mk.inj hsize).1, ?_, ?_⟩
  · rw [htick, (Prod.mk.inj hsize).2]
    exact congrArg (fun plan => Except.ok (PulseOutcome.mk plan 1, _)) hplan
  · exact hheard.trans hcalls

end Scheduler
end PulseKernel
