/-
# What a call does to the threads and the policy

Of each call it is said what becomes of the tags of the threads and of the policy,
and which switch is planned: a thread that falls asleep is tagged, one that is
cancelled is freed and, if another thread holds the processor, added to the policy,
and a slot is taken or given back. What is refused changes nothing. A pulse frees
the threads that are due, and has its dialogue with the policy.

Key definitions: `Scheduler.relieved`, `Scheduler.dozing`.
Key theorems: `Scheduler.Sound.beginSleep_result`, `Scheduler.Sound.cancelSleep_result`,
`Scheduler.Sound.cancelThreadSleep_result`, `Scheduler.Sound.register_result`,
`Scheduler.Sound.release_result`, `Scheduler.Sound.tick_booted_effect`.
-/
import PulseKernel.Proofs.PulseEffect

namespace PulseKernel

namespace ThreadTable

variable {table : ThreadTable} {t u : ThreadId}

theorem contains_touch_dormant {g : Tag} (h : table.tag t = .ok g) (u : ThreadId) :
    (table.touch (some t) Slot.dormant).contains u = table.contains u := by
  rw [Bool.eq_iff_iff, contains_iff, contains_iff, tag_touch_dormant h]
  split
  · rename_i htu
    subst htu
    exact ⟨fun _ => ⟨g, h⟩, fun _ => ⟨_, rfl⟩⟩
  · rfl

/-- A registration gives the lowest vacant slot to a thread that no structure owns. -/
theorem tag_register {context : SavedContext} {table' : ThreadTable}
    (h : table.register context = (.ok t, table')) (u : ThreadId) :
    table.contains t = false ∧
      table'.tag u = if u = t then .ok .unqueued else table.tag u := by
  obtain ⟨⟨slot, hslot, hvacant⟩, rfl⟩ := register_eq_ok h
  constructor
  · rw [← Bool.not_eq_true, contains_iff]
    rintro ⟨g, hg⟩
    obtain ⟨slot', hslot', hused, -⟩ := tag_eq_ok.mp hg
    rw [hslot] at hslot'
    obtain rfl := Option.some.inj hslot'
    rw [hvacant] at hused
    cases hused
  · split
    · rename_i hut
      subst hut
      exact tag_eq_ok.mpr ⟨{ inUse := true, context := context },
        by rw [slot?_setLive, slot?_touch, if_pos rfl, hslot]; rfl, rfl, rfl⟩
    · rename_i hut
      exact tag_congr (by rw [slot?_setLive, slot?_touch, if_neg (by simp [Ne.symm hut])])

/-- A release leaves the slot of the thread vacant. -/
theorem tag_release {table' : ThreadTable} (h : table.release t = (.ok (), table')) (u : ThreadId) :
    table.tag t = .ok .unqueued ∧ table'.contains t = false ∧
      (u ≠ t → table'.tag u = table.tag u) := by
  obtain ⟨hg, rfl⟩ := release_eq_ok.mp h
  refine ⟨hg, ?_, fun hut => ?_⟩
  · obtain ⟨slot, hslot, -⟩ := tag_eq_ok.mp hg
    rw [← Bool.not_eq_true, contains_iff]
    rintro ⟨g, hg'⟩
    obtain ⟨slot', hslot', hused, -⟩ := tag_eq_ok.mp hg'
    rw [slot?_setLive, slot?_touch, if_pos rfl, hslot] at hslot'
    obtain rfl := Option.some.inj hslot'
    cases hused
  · exact tag_congr (by rw [slot?_setLive, slot?_touch, if_neg (by simp [Ne.symm hut])])

end ThreadTable

namespace Scheduler

variable {π : Type} {L : Layout Unit Unit} {s : Scheduler π} {naps : List Sleeper}

/-- The scheduler after a sleep has been cancelled, given the heap that is left. -/
def relieved (s : Scheduler π) (heap : Array Sleeper) (t : ThreadId) : Scheduler π :=
  { s with
    sleepers := { s.sleepers with heap := heap }
    threads := s.threads.freed [t]
    stats := { s.stats with cancellations := s.stats.cancellations + 1 } }

/-- The scheduler after the running thread has fallen asleep and the next one has been picked. -/
def dozing [Policy π] (s : Scheduler π) (deadline : Nat) : Scheduler π :=
  let threads := s.threads.touch (some s.current.1) Slot.dormant
  let plan := SwitchPlan.plan? threads s.current.1 (Policy.pickNext s.current.2.policy).1
  { s with
    sleepers := s.sleepers.inserted deadline s.current.1
    threads := threads
    policy := (Policy.pickNext s.current.2.policy).2
    stats := { s.stats with contextSwitches := s.stats.contextSwitches + plan.isSome.toNat } }

namespace Sound

/-- The sleeper of a thread is taken out, if there is one. -/
theorem cancelThreadSleep_result (h : s.Sound L [] naps) (t : ThreadId) :
    (s.cancelThreadSleep t).Gives fun a =>
      (a = (none, s) ∧ naps.find? (·.thread == t) = none) ∨
      ∃ e heap, naps.find? (·.thread == t) = some e ∧
        a = (some e.deadline, s.relieved heap e.thread) ∧ a.2.Sound L [] (naps.erase e) := by
  unfold Scheduler.cancelThreadSleep
  cases he : naps.find? (·.thread == t) with
  | none =>
    rw [h.lists.removeThread_none he, pure_bind]
    exact .pure (Or.inl ⟨rfl, rfl⟩)
  | some e =>
    obtain ⟨i, hi, hq⟩ := h.lists.removeThread_some he (h.tag_of_mem (List.mem_of_find?_eq_some he))
    rw [hq, pure_bind]
    exact .pure (Or.inr ⟨e, (s.sleepers.without i).heap, rfl, rfl,
      (h.putSleep (h.accounts.woken (w := ()) hi)).withStats _⟩)

/-- A thread is taken out of the sleep queue if it sleeps, and is not added to the policy. -/
theorem cancelThreadSleep_eq (h : s.Sound L [] naps) (t : ThreadId) :
    (s.cancelThreadSleep t).Gives fun a =>
      (a = (none, s) ∧ s.threads.tag t ≠ .ok .asleep) ∨
      ∃ deadline naps', s.threads.tag t = .ok .asleep ∧ a.1 = some deadline ∧
        a.2.threads = s.threads.freed [t] ∧ a.2.policy = s.policy ∧ a.2.Sound L [] naps' := by
  obtain ⟨a, ha, hcases⟩ := h.cancelThreadSleep_result t
  refine ⟨a, ha, ?_⟩
  rcases hcases with ⟨heq, hnone⟩ | ⟨e, heap, he, heq, h'⟩
  · refine Or.inl ⟨heq, fun hg => ?_⟩
    obtain ⟨e, he, rfl⟩ := List.mem_map.mp (h.tag_asleep_iff.mp hg)
    exact absurd (beq_self_eq_true _) (List.find?_eq_none.mp hnone e he)
  · obtain rfl : e.thread = t := by simpa using List.find?_some he
    obtain rfl := heq
    exact Or.inr ⟨e.deadline, _, h.tag_of_mem (List.mem_of_find?_eq_some he), rfl, rfl, rfl, h'⟩

/-- A thread gets a slot unless there is none left. -/
theorem register_result (h : s.Sound L [] naps) (context : SavedContext) :
    (s.register context).Gives fun a =>
      (∃ refusal, a = (.error refusal, s)) ∨
      ∃ t threads, s.threads.register context = (.ok t, threads) ∧
        a = (.ok t, { s with threads := threads }) ∧ a.2.Sound L [] naps := by
  unfold Scheduler.register
  cases hq : s.threads.register context with
  | mk outcome threads =>
    cases outcome with
    | error refusal =>
      obtain rfl := ThreadTable.register_refused hq
      exact .pure (Or.inl ⟨refusal, rfl⟩)
    | ok t =>
      refine .bind (Logged.gives_note _) fun _ _ => .pure (Or.inr ⟨t, threads, rfl, rfl, ?_⟩)
      exact ⟨h.accounts.granted hq, h.pending, h.remainder, h.quantum⟩

/-- The thread that gets the slot was not registered, and no structure owns it. -/
theorem register_eq (h : s.Sound L [] naps) (context : SavedContext) :
    (s.register context).Gives fun a =>
      (∃ refusal, a = (.error refusal, s)) ∨
      ∃ t, a.1 = .ok t ∧ s.threads.contains t = false ∧
        (∀ u, a.2.threads.tag u = if u = t then .ok .unqueued else s.threads.tag u) ∧
        a.2.policy = s.policy ∧ a.2.Sound L [] naps := by
  obtain ⟨a, ha, hcases⟩ := h.register_result context
  refine ⟨a, ha, ?_⟩
  rcases hcases with hrefused | ⟨t, threads, hq, rfl, h'⟩
  · exact Or.inl hrefused
  · exact Or.inr ⟨t, rfl, (ThreadTable.tag_register hq t).1,
      fun u => (ThreadTable.tag_register hq u).2, rfl, h'⟩

/-- A thread that no structure owns gives its slot back. -/
theorem release_result (h : s.Sound L [] naps) (t : ThreadId) :
    (s.release t).Gives fun a =>
      (∃ refusal, (s.threads.release t).1 = .error refusal ∧ a = (.error refusal, s)) ∨
      ∃ threads, s.threads.release t = (.ok (), threads) ∧
        a = (.ok (), { s with threads := threads }) ∧ a.2.Sound L [] naps := by
  unfold Scheduler.release
  cases hq : s.threads.release t with
  | mk outcome threads =>
    cases outcome with
    | error refusal =>
      obtain rfl := ThreadTable.release_refused hq
      exact .pure (Or.inl ⟨refusal, rfl, rfl⟩)
    | ok =>
      refine .bind (Logged.gives_note _) fun _ _ => .pure (Or.inr ⟨threads, rfl, rfl, ?_⟩)
      exact ⟨h.accounts.returned hq, h.pending, h.remainder, h.quantum⟩

/-- The thread is not registered any more, and the others are as they were. -/
theorem release_eq (h : s.Sound L [] naps) (t : ThreadId) :
    (s.release t).Gives fun a =>
      (∃ refusal, (s.threads.release t).1 = .error refusal ∧ a = (.error refusal, s)) ∨
      (∃ threads, s.threads.release t = (.ok (), threads)) ∧ a.2.threads.contains t = false ∧
        (∀ u, u ≠ t → a.2.threads.tag u = s.threads.tag u) ∧
        a.2.policy = s.policy ∧ a.2.Sound L [] naps := by
  obtain ⟨a, ha, hcases⟩ := h.release_result t
  refine ⟨a, ha, ?_⟩
  rcases hcases with hrefused | ⟨threads, hq, rfl, h'⟩
  · exact Or.inl hrefused
  · exact Or.inr ⟨⟨threads, hq⟩, (ThreadTable.tag_release hq t).2.1,
      fun u hu => (ThreadTable.tag_release hq u).2.2 hu, rfl, h'⟩

variable [Policy π]

/-- The running thread is refused, or it falls asleep behind the other sleepers. -/
theorem beginSleep_result (h : s.Sound L [] naps) (deadline : Nat) :
    (s.beginSleep deadline).Gives fun a =>
      (∃ refusal, s.sleepers.refusal? s.threads s.current.1 = some refusal ∧
        a = (.error refusal, s.current.2)) ∨
      s.threads.tag s.current.1 = .ok .unqueued ∧
        a = (.ok ⟨s.current.1, SwitchPlan.plan? (s.dozing deadline).threads s.current.1
          (Policy.pickNext s.current.2.policy).1⟩, s.dozing deadline) ∧
        a.2.Sound L [] (naps ++ [⟨deadline, s.current.1, s.sleepers.nextSeq⟩]) := by
  unfold Scheduler.beginSleep
  have hq : s.current.2.sleepers.insert s.current.2.threads deadline s.current.1 =
      s.sleepers.insert s.threads deadline s.current.1 := rfl
  cases hrefusal : s.sleepers.refusal? s.threads s.current.1 with
  | some refusal =>
    simp only [hq, SleepQueue.insert_of_refused deadline hrefusal, pure_bind]
    exact .pure (Or.inl ⟨refusal, rfl, rfl⟩)
  | none =>
    obtain ⟨hg, hroom⟩ := h.lists.refusal?_eq_none.mp hrefusal
    have h₂ := h.current.putSleep (h.current.accounts.slept () deadline hg hroom)
    simp only [hq, SleepQueue.insert_of_tag h.lists deadline hg hroom, pure_bind]
    refine .bind (Logged.gives_note _) fun _ _ => ?_
    refine .bind ⟨_, planSwitch_eq _ _ _, rfl⟩ fun a ha => ?_
    subst ha
    exact .pure (Or.inr ⟨hg, rfl, h₂.pickNext.withStats _⟩)

/-- The running thread falls asleep, and the policy picks the next one. -/
theorem beginSleep_eq (h : s.Sound L [] naps) (deadline : Nat) :
    (s.beginSleep deadline).Gives fun a =>
      (∃ refusal, a = (.error refusal, s.current.2)) ∨
      ∃ naps', s.threads.tag s.current.1 = .ok .unqueued ∧
        a.1 = .ok ⟨s.current.1, SwitchPlan.plan? a.2.threads s.current.1
          (Policy.pickNext s.current.2.policy).1⟩ ∧
        a.2.threads = s.threads.touch (some s.current.1) Slot.dormant ∧
        a.2.policy = (Policy.pickNext s.current.2.policy).2 ∧ a.2.Sound L [] naps' := by
  obtain ⟨a, ha, hcases⟩ := h.beginSleep_result deadline
  refine ⟨a, ha, ?_⟩
  rcases hcases with ⟨refusal, -, rfl⟩ | ⟨hg, rfl, h'⟩
  · exact Or.inl ⟨refusal, rfl⟩
  · exact Or.inr ⟨_, hg, rfl, rfl, rfl, h'⟩

/-- A thread that no structure owns is added to the policy, unless it holds the processor. -/
theorem wake_flush_eq (h : s.Sound L [] naps) {t : ThreadId}
    (hg : s.threads.tag t = .ok .unqueued) :
    (s.wake t >>= Scheduler.flushHandoff).result = .ok { s with
      policy := Policy.addAll (Policy.others s.policy [t]).2 (Policy.others s.policy [t]).1 } := by
  obtain ⟨s₁, hs₁, table, rfl, h₁, hfreed⟩ := h.wake_eq hg
  obtain ⟨s₂, hs₂, rfl, -⟩ := h₁.flush_withStaged h.queue hfreed
  exact (Logged.result_bind_of_ok _ hs₁).trans hs₂

/-- The first sleeper with the deadline is woken, if there is one. -/
theorem cancelSleep_result (h : s.Sound L [] naps) (deadline : Nat) :
    (s.cancelSleep deadline).Gives fun a =>
      (a = (none, s) ∧ naps.find? (·.deadline == deadline) = none) ∨
      ∃ e heap, naps.find? (·.deadline == deadline) = some e ∧
        a = (some e.thread, { s.relieved heap e.thread with
          policy := Policy.addAll (Policy.others s.policy [e.thread]).2
            (Policy.others s.policy [e.thread]).1 }) ∧
        a.2.Sound L [] (naps.erase e) := by
  unfold Scheduler.cancelSleep
  cases he : naps.find? (·.deadline == deadline) with
  | none =>
    rw [h.lists.remove_none he, pure_bind]
    exact .bind (Logged.gives_note _) fun _ _ => .pure (Or.inl ⟨rfl, rfl⟩)
  | some e =>
    obtain ⟨hq, h₁, hg⟩ := h.remove_eq he
    have h₂ := h₁.withStats { s.stats with cancellations := s.stats.cancellations + 1 }
    have hwake := h₂.wake_flush_eq hg
    rw [hq, pure_bind]
    dsimp only
    rw [← bind_assoc]
    refine ⟨_, (Logged.result_bind_of_ok _ hwake).trans rfl,
      Or.inr ⟨e, (s.sleepers.erase e).heap, rfl, ?_, h₂.withPolicy _⟩⟩
    simp only [relieved, ← s.sleepers.erase_eq e]

/-- The oldest sleeper with the deadline is woken and, if another thread holds the processor, added
to the policy. -/
theorem cancelSleep_eq (h : s.Sound L [] naps) (deadline : Nat) :
    (s.cancelSleep deadline).Gives fun a =>
      a = (none, s) ∨
      ∃ t naps', s.threads.tag t = .ok .asleep ∧ a.1 = some t ∧
        a.2.threads = s.threads.freed [t] ∧
        a.2.policy = Policy.addAll (Policy.others s.policy [t]).2 (Policy.others s.policy [t]).1 ∧
        a.2.Sound L [] naps' := by
  obtain ⟨a, ha, hcases⟩ := h.cancelSleep_result deadline
  refine ⟨a, ha, ?_⟩
  rcases hcases with ⟨heq, -⟩ | ⟨e, heap, he, rfl, h'⟩
  · exact Or.inl heq
  · exact Or.inr ⟨e.thread, _, h.tag_of_mem (List.mem_of_find?_eq_some he), rfl, rfl, rfl, h'⟩

/-- Of a pulse before boot neither the threads nor the policy learn. -/
theorem tick_early_effect (h : s.Sound L [] naps) (now : Nat) :
    (s.tick now false).Gives fun a =>
      a.1.plan = none ∧ a.2.threads = s.threads ∧ a.2.policy = s.policy ∧
      ∃ naps', a.2.Sound L [] naps' := by
  obtain ⟨clock, -, hs⟩ := h.tick_early_eq now
  exact ⟨_, hs, rfl, rfl, rfl, (h.tick now false).of_result hs⟩

/-- After a pulse those sleepers are left that were not due. -/
theorem afterPulse (h : s.Sound L [] naps) {now : Nat} {clock : TickClock} {heap : Array Sleeper}
    {outcome : PulseOutcome}
    (hs : (s.tick now true).result = .ok (outcome, s.afterPulse now clock heap))
    (hperm : heap.toList.Perm (s.sleepers.heap.toList.filter fun e => now < e.deadline)) :
    (s.afterPulse now clock heap).Sound L [] (naps.filter fun e => now < e.deadline) := by
  obtain ⟨naps', h'⟩ := (h.tick now true).of_result hs
  have hleft : naps'.Perm (naps.filter fun e => now < e.deadline) :=
    h'.lists.perm.symm.trans (hperm.trans (h.lists.perm.filter _))
  have hsorted := h.lists.sorted.sublist (List.filter_sublist (p := fun e => now < e.deadline))
  obtain rfl := hleft.eq_of_pairwise
    (fun a b _ _ hab hba => absurd hab (Nat.lt_asymm hba)) h'.lists.sorted hsorted
  exact h'

/-- A pulse frees the sleepers that are due, and the policy is told of them. -/
theorem tick_booted_effect (h : s.Sound L [] naps) (now : Nat) :
    (s.tick now true).Gives fun a => ∃ (d : Dialogue π) (woken : List ThreadId) (quantumOver : Bool)
        (naps' : List Sleeper),
      d = Policy.dialogue s.policy woken quantumOver a.2.awake ∧ woken.Nodup ∧
      (∀ t ∈ woken, s.threads.tag t = .ok .asleep) ∧
      a.1.plan = d.rotation.bind (·.plan? a.2.threads) ∧
      a.2.threads = s.threads.freed woken ∧ a.2.policy = d.policy ∧ a.2.Sound L [] naps' := by
  obtain ⟨clock, heap, -, -, hs⟩ := h.tick_booted_eq now
  obtain ⟨naps', hsound⟩ := (h.tick now true).of_result hs
  refine ⟨_, hs, s.heard now clock.ticks, (s.sleepers.due now).map (·.thread), _, naps', rfl,
    h.lists.nodup_due now, ?_, rfl, rfl, rfl, hsound⟩
  intro t ht
  obtain ⟨e, he, rfl⟩ := List.mem_map.mp ht
  exact h.tag_of_mem (h.lists.mem_due_iff.mp he).1

end Sound
end Scheduler
end PulseKernel
