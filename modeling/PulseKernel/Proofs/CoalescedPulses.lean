/-
# Pulses that run together

A pulse that comes late finds more sleepers due than one in time would have found, and
looks for them once instead of twice. Nothing else is different: looking at one time and
then at another is looking at the later one (`Scheduler.Reached.expireDue_coalesced`). This
is so because who is due at the later time is who is due at the first, in the same order,
and after them who is due of the others (`SleepQueue.Lists.due_max`); so both ways the same
sleepers leave the heap in the same order, and the heap goes through the same states.

In between the threads that are woken first are passed to the policy, which is then asked
about the others. The answers are the same as long as they do not depend on the threads
that have been added (`Policy.CurrentStays`); and if they did, a thread that holds the
processor in one of the two ways might be added in the other.

Key definitions: `Policy.CurrentStays`, `Policy.addOthers`.
Key theorems: `Policy.CurrentStays.addOthers_append`, `SleepQueue.Lists.due_max`,
`Scheduler.roused_roused`, `Scheduler.Reached.expireDue_coalesced`.
-/
import PulseKernel.Proofs.PulseEffect

namespace PulseKernel

/-! ### The policy -/

namespace Policy

variable {π : Type} [Policy π] {p : π}

/-- Who holds the processor does not depend on the threads that have been added, and neither does
what asking for it changes. -/
def CurrentStays (π : Type) [Policy π] : Prop :=
  ∀ (p : π) (t : ThreadId), Policy.current (Policy.addReady p t) =
    ((Policy.current p).1, Policy.addReady (Policy.current p).2 t)

/-- If asking changes nothing, it is the answer that stays. -/
theorem currentStays_iff_of_steady [SteadyPolicy π] : CurrentStays π ↔
    ∀ (p : π) (t : ThreadId), (Policy.current (Policy.addReady p t)).1 = (Policy.current p).1 := by
  refine forall_congr' fun p => forall_congr' fun t => ?_
  rw [Prod.ext_iff, SteadyPolicy.current_snd, SteadyPolicy.current_snd]
  exact and_iff_left rfl

theorem CurrentStays.current_addAll (h : CurrentStays π) (p : π) (added : List ThreadId) :
    Policy.current (addAll p added) = ((Policy.current p).1, addAll (Policy.current p).2 added) := by
  induction added generalizing p with
  | nil => rfl
  | cons t added ih => rw [addAll_cons, ih, h p t, addAll_cons]

/-- The threads that have been added make no difference to who is added next. -/
theorem CurrentStays.others_addAll (h : CurrentStays π) (p : π) (added ts : List ThreadId) :
    others (addAll p added) ts = ((others p ts).1, addAll (others p ts).2 added) := by
  induction ts generalizing p with
  | nil => rfl
  | cons t ts ih => rw [others_cons, others_cons, h.current_addAll, ih]

/-- The policy after it was asked about these threads and those that do not hold the processor were
added. -/
def addOthers (p : π) (ts : List ThreadId) : π := addAll (others p ts).2 (others p ts).1

/-- Doing so with some threads and then with others is doing so with them all. -/
theorem CurrentStays.addOthers_append (h : CurrentStays π) (p : π) (ts us : List ThreadId) :
    addOthers p (ts ++ us) = addOthers (addOthers p ts) us := by
  simp only [addOthers, others_append, h.others_addAll, addAll_append]

end Policy

theorem Fifo.currentStays : Policy.CurrentStays Fifo := fun _ _ => rfl

/-- A recorder does not show in the answers. -/
theorem Recorded.currentStays {π : Type} [Policy π] (h : Policy.CurrentStays π) :
    Policy.CurrentStays (Recorded π) := by
  intro r t
  simp only [Policy.current, Policy.addReady]
  rw [h r.policy t]

/-! ### The sleepers -/

namespace SleepQueue

/-- Who is due at the later of two times is due at the first, or is one of the others and due at the
second. -/
theorem Lists.due_max {q q' : SleepQueue} {l : List Sleeper} (h : q.Lists l) {n₁ : Nat}
    (h' : q'.Lists (l.filter fun e => n₁ < e.deadline)) (n₂ : Nat) :
    q.due (max n₁ n₂) = q.due n₁ ++ q'.due n₂ := by
  refine h.eq_due ?_ ?_
  · let late := l.filter fun e => e.deadline ≤ max n₁ n₂
    have hfirst : late.filter (fun e => e.deadline ≤ n₁) = l.filter fun e => e.deadline ≤ n₁ := by
      rw [List.filter_filter]
      refine List.filter_congr fun e _ => ?_
      rw [Bool.eq_iff_iff, Bool.and_eq_true, decide_eq_true_eq, decide_eq_true_eq]
      omega
    have hsecond : late.filter (fun e => !decide (e.deadline ≤ n₁)) =
        (l.filter fun e => n₁ < e.deadline).filter fun e => e.deadline ≤ n₂ := by
      rw [List.filter_filter, List.filter_filter]
      refine List.filter_congr fun e _ => ?_
      rw [Bool.eq_iff_iff, Bool.and_eq_true, Bool.and_eq_true, Bool.not_eq_true',
        decide_eq_false_iff_not, decide_eq_true_eq, decide_eq_true_eq, decide_eq_true_eq]
      omega
    have hsplit := List.filter_append_perm (fun e : Sleeper => decide (e.deadline ≤ n₁)) late
    rw [hfirst, hsecond] at hsplit
    exact ((h.perm_due n₁).append (h'.perm_due n₂)).trans hsplit
  · refine List.pairwise_append.mpr ⟨q.pairwise_due n₁, q'.pairwise_due n₂, fun a ha b hb => ?_⟩
    have hsoon := (h.mem_due_iff.mp ha).2
    have hlate := List.mem_filter.mp (h'.mem_due_iff.mp hb).1
    rw [Sleeper.lt_iff]
    have := of_decide_eq_true hlate.2
    omega

end SleepQueue

/-! ### Two expiries -/

namespace Scheduler

variable {π : Type} [Policy π]

theorem policy_roused (s : Scheduler π) (heap : Array Sleeper) (due : List Sleeper) :
    (s.roused heap due).policy = Policy.addOthers s.policy (due.map (·.thread)) := rfl

/-- Rousing some sleepers and then others is rousing them all. -/
theorem roused_roused (hstays : Policy.CurrentStays π) (s : Scheduler π)
    (due due' : List Sleeper) (heap heap' : Array Sleeper) :
    (s.roused heap due).roused heap' due' = s.roused heap' (due ++ due') := by
  have hpolicy : ((s.roused heap due).roused heap' due').policy =
      (s.roused heap' (due ++ due')).policy := by
    rw [policy_roused, policy_roused, policy_roused, List.map_append, hstays.addOthers_append]
  have hthreads : ((s.roused heap due).roused heap' due').threads =
      (s.roused heap' (due ++ due')).threads := by
    simp only [roused, List.map_append, ThreadTable.freed_append]
  have hstats : ((s.roused heap due).roused heap' due').stats =
      (s.roused heap' (due ++ due')).stats := by
    simp only [roused, woken, List.length_append, Nat.add_assoc]
  exact (mk.injEq ..).mpr ⟨rfl, rfl, rfl, hthreads, hpolicy, rfl, hstats⟩

namespace Sound

variable {s : Scheduler π} {L : Layout Unit Unit} {naps : List Sleeper}

/-- The expiry wakes who is due, and the others still sleep. -/
theorem expireDue_result (h : s.Sound L [] naps) (now : Nat) :
    (s.expireDue now).result = .ok (if s.sleepers.isEmpty then 0 else 1, s.expiry now) ∧
      (s.expiry now).Sound L [] (naps.filter fun e => now < e.deadline) := by
  obtain ⟨_, hs, rfl, hsound⟩ := h.expireDue_eq now
  exact ⟨hs, hsound⟩

theorem expiry_expiry (hstays : Policy.CurrentStays π) (h : s.Sound L [] naps) (n₁ n₂ : Nat) :
    (s.expiry n₁).expiry n₂ = s.expiry (max n₁ n₂) := by
  have hsleepers : (s.expiry n₁).sleepers = s.sleepers.eraseAll (s.sleepers.due n₁) :=
    (s.sleepers.eraseAll_eq _).symm
  have hdue : s.sleepers.due (max n₁ n₂) =
      s.sleepers.due n₁ ++ (s.expiry n₁).sleepers.due n₂ :=
    h.lists.due_max (h.expireDue_result n₁).2.lists n₂
  have hheap : s.sleepers.eraseAll (s.sleepers.due (max n₁ n₂)) =
      (s.expiry n₁).sleepers.eraseAll ((s.expiry n₁).sleepers.due n₂) := by
    rw [hdue, s.sleepers.eraseAll_append, ← hsleepers]
  calc (s.expiry n₁).expiry n₂
      = s.roused ((s.expiry n₁).sleepers.eraseAll ((s.expiry n₁).sleepers.due n₂)).heap
          (s.sleepers.due n₁ ++ (s.expiry n₁).sleepers.due n₂) := roused_roused hstays ..
    _ = s.expiry (max n₁ n₂) := by rw [← hheap, ← hdue, expiry]

end Sound

/-- Looking for the sleepers that are due at one time and then at another leaves the scheduler as
looking at the later time does. -/
theorem Reached.expireDue_coalesced {s : Scheduler (Recorded π)} (h : s.Reached)
    (hstays : Policy.CurrentStays π) (n₁ n₂ : Nat) :
    ∃ reads₁ reads₂ reads s₁ s₂, (s.expireDue n₁).result = .ok (reads₁, s₁) ∧
      (s₁.expireDue n₂).result = .ok (reads₂, s₂) ∧
      (s.expireDue (max n₁ n₂)).result = .ok (reads, s₂) := by
  obtain ⟨L, naps, hsound⟩ := h.sound
  obtain ⟨hs₁, hsound₁⟩ := hsound.expireDue_result n₁
  obtain ⟨hs₂, -⟩ := hsound₁.expireDue_result n₂
  obtain ⟨hs, -⟩ := hsound.expireDue_result (max n₁ n₂)
  rw [hsound.expiry_expiry (Recorded.currentStays hstays)] at hs₂
  exact ⟨_, _, _, _, _, hs₁, hs₂, hs⟩

/-- Of two sleepers, the first is due at one time and both are due at a later one. -/
theorem Reached.expireDue_coalesced_two_sleepers :
    ∃ (s s₁ s₂ : Scheduler (Recorded Fifo)) (reads₁ reads₂ reads : Nat), s.Reached ∧
      Policy.CurrentStays Fifo ∧ s.sleepers.size = 2 ∧ s₁.sleepers.size = 1 ∧
      (s.expireDue 7).result = .ok (reads₁, s₁) ∧ (s₁.expireDue 9).result = .ok (reads₂, s₂) ∧
      (s.expireDue (max 7 9)).result = .ok (reads, s₂) ∧
      s₂.policy.calls = [.pickNext ⟨1⟩, .pickNext ⟨2⟩, .addReady ⟨1⟩, .addReady ⟨0⟩] := by
  have hcheck : ({ maxThreads := 3, sleepSlots := 2 } : Settings).check = .ok () := by decide
  obtain ⟨s, hs, h⟩ := Reached.exists_callAll hcheck (⟨⟨[⟨1⟩, ⟨2⟩], ⟨0⟩⟩, []⟩ : Recorded Fifo) ⟨1⟩
    [.serve (.register {}), .serve (.register {}), .serve (.register {}), .beginSleep 9,
      .beginSleep 5]
  -- what is needed of the states is computed
  have hsize := Logged.eq_of_map_result (f := fun s => s.sleepers.size) (b := 2) hs
    (by decide +kernel)
  have hsize₁ := Logged.eq_of_map_result
    (f := fun s => (s.expireDue 7).result.map fun a => a.2.sleepers.size) (b := .ok 1) hs
    (by decide +kernel)
  have hcalls := Logged.eq_of_map_result
    (f := fun s => (s.expireDue 9).result.map fun a => a.2.policy.calls)
    (b := .ok [.pickNext ⟨1⟩, .pickNext ⟨2⟩, .addReady ⟨1⟩, .addReady ⟨0⟩]) hs
    (by decide +kernel)
  obtain ⟨reads₁, reads₂, reads, s₁, s₂, hs₁, hs₂, hmax⟩ :=
    h.expireDue_coalesced Fifo.currentStays 7 9
  have hlater : (s.expireDue 9).result = .ok (reads, s₂) := hmax
  rw [hs₁] at hsize₁
  rw [hlater] at hcalls
  exact ⟨s, s₁, s₂, reads₁, reads₂, reads, h, Fifo.currentStays, hsize, Except.ok.inj hsize₁, hs₁,
    hs₂, hmax, Except.ok.inj hcalls⟩

end Scheduler
end PulseKernel
