/-
# What the scheduler keeps up

The scheduler works on one table, one sleep queue and the hand-off queue. What is
kept up of them is what queues over any shared table keep up, together with what
the clock and the quantum need (`Scheduler.Sound`): the threads in the hand-off
queue and the sleepers are lists, and each operation says what becomes of the two.

Nothing is asked of the policy. Whatever it answers, an operation works only on
threads whose tags allow it.

Key definitions: `Scheduler.shared`, `Scheduler.Sound`.
Key theorems: `Scheduler.Sound.flushHandoff`, `Scheduler.Sound.expireUpTo`,
`Scheduler.Sound.tick`, `Scheduler.Sound.beginSleep`, `Scheduler.Sound.cancelSleep`.
-/
import PulseKernel.Proofs.SharedTable
import PulseKernel.Scheduler.Pulse
import PulseKernel.Scheduler.Request

namespace PulseKernel
namespace Scheduler

variable {π : Type} {L : Layout Unit Unit} {s : Scheduler π} {staged : List ThreadId}
  {naps : List Sleeper}

/-- The table of the scheduler and its queues. -/
def shared (s : Scheduler π) : SharedTable Unit Unit where
  table := s.threads
  ready _ := s.handoff
  sleep _ := s.sleepers

/-- The hand-off queue is the line of these threads, the sleep queue holds these sleepers, and the
clock and the quantum are as the settings allow. -/
structure Sound (L : Layout Unit Unit) (s : Scheduler π) (staged : List ThreadId)
    (naps : List Sleeper) : Prop where
  accounts : SharedTable.Accounts L s.shared (fun _ => staged) fun _ => naps
  pending : s.clock.pending < nanosPerTick
  remainder : s.clock.remainder < nanosPerTick
  quantum : s.quantum ≠ 0

namespace Sound

theorem queue (h : s.Sound L staged naps) : s.handoff = .ofList (L.id ()) staged :=
  h.accounts.queue ()

theorem linedUp (h : s.Sound L staged naps) : s.threads.LinedUp (L.id ()) staged :=
  h.accounts.linedUp ()

theorem lists (h : s.Sound L staged naps) : s.sleepers.Lists naps := h.accounts.lists ()

/-- The threads of the sleepers are those that are tagged asleep. -/
theorem tag_asleep_iff (h : s.Sound L staged naps) {t : ThreadId} :
    s.threads.tag t = .ok .asleep ↔ t ∈ naps.map (·.thread) := by
  refine ⟨fun hg => ?_, h.accounts.asleep () t⟩
  obtain ⟨-, ht⟩ := h.accounts.asleep_of_tag t hg
  exact ht

theorem tag_of_mem (h : s.Sound L staged naps) {e : Sleeper} (he : e ∈ naps) :
    s.threads.tag e.thread = .ok .asleep :=
  h.tag_asleep_iff.mpr (List.mem_map_of_mem he)

theorem isSleeping_iff (h : s.Sound L staged naps) {t : ThreadId} :
    s.isSleeping t = true ↔ t ∈ naps.map (·.thread) := by
  rw [isSleeping, ThreadTable.hasTag_iff, h.tag_asleep_iff]

/-- The accounts are in order again when a thread has moved in or out of the hand-off queue. -/
theorem putReady (h : s.Sound L staged naps) {q : ReadyQueue} {table : ThreadTable}
    {l : List ThreadId}
    (h' : SharedTable.Accounts L (s.shared.putReady () q table)
      (Function.update (fun _ => staged) () l) fun _ => naps) :
    ({ s with handoff := q, threads := table } : Scheduler π).Sound L l naps := by
  refine ⟨?_, h.pending, h.remainder, h.quantum⟩
  simp only [SharedTable.putReady, Function.update_eq_const_of_subsingleton] at h'
  exact h'

/-- The accounts are in order again when a thread has moved in or out of the sleep queue. -/
theorem putSleep (h : s.Sound L staged naps) {q : SleepQueue} {table : ThreadTable}
    {l : List Sleeper}
    (h' : SharedTable.Accounts L (s.shared.putSleep () q table) (fun _ => staged)
      (Function.update (fun _ => naps) () l)) :
    ({ s with sleepers := q, threads := table } : Scheduler π).Sound L staged l := by
  refine ⟨?_, h.pending, h.remainder, h.quantum⟩
  simp only [SharedTable.putSleep, Function.update_eq_const_of_subsingleton] at h'
  exact h'

theorem withPolicy (h : s.Sound L staged naps) (p : π) :
    ({ s with policy := p } : Scheduler π).Sound L staged naps :=
  ⟨h.accounts, h.pending, h.remainder, h.quantum⟩

theorem withStats (h : s.Sound L staged naps) (stats : Stats) :
    ({ s with stats := stats } : Scheduler π).Sound L staged naps :=
  ⟨h.accounts, h.pending, h.remainder, h.quantum⟩

/-! ### The hand-off queue -/

/-- A thread that no queue owns is put on the hand-off queue; another one is left alone. -/
theorem handOff (h : s.Sound L staged naps) (t : ThreadId) :
    (s.handOff t).Gives fun s' => ∃ staged', s'.Sound L staged' naps := by
  unfold Scheduler.handOff
  by_cases hg : s.threads.tag t = .ok .unqueued
  · have hq := ReadyQueue.enqueue_ofList h.linedUp hg
    rw [← h.queue] at hq
    rw [hq, pure_bind]
    exact .pure ⟨staged ++ [t], h.putReady (h.accounts.joined () hg)⟩
  · refine .bind (P := fun a => a = (false, s.handoff, s.threads))
      ⟨_, ReadyQueue.enqueue_of_not_free s.handoff hg, rfl⟩ fun a ha => ?_
    subst ha
    exact .pure ⟨staged, h.withStats _⟩

variable [Policy π]

theorem flushUpTo : ∀ (staged : List ThreadId) (most : Nat) {s : Scheduler π},
    s.Sound L staged naps → staged.length < most →
    (s.flushUpTo most).Gives fun s' => s'.Sound L [] naps
  | [], most + 1, s, h, _ => by
    have hhead : s.handoff.head = none := by rw [h.queue]; rfl
    rw [Scheduler.flushUpTo, ReadyQueue.dequeue_of_empty _ hhead, pure_bind]
    exact .pure h
  | t :: staged, most + 1, s, h, hlength => by
    have hq := ReadyQueue.dequeue_ofList h.linedUp
    rw [← h.queue] at hq
    rw [Scheduler.flushUpTo, hq, pure_bind]
    have h' := (h.putReady (h.accounts.closed (x := []) rfl)).withPolicy
      (Policy.addReady s.policy t)
    exact flushUpTo staged most h' (Nat.lt_of_succ_lt_succ hlength)

/-- Every thread of the hand-off queue is passed to the policy. -/
theorem flushHandoff (h : s.Sound L staged naps) :
    s.flushHandoff.Gives fun s' => s'.Sound L [] naps :=
  flushUpTo staged _ h (Nat.lt_succ_of_le h.linedUp.length_le)

/-! ### Asking the policy -/

theorem current (h : s.Sound L staged naps) : s.current.2.Sound L staged naps := h.withPolicy _

theorem hasOtherRunnable (h : s.Sound L staged naps) :
    s.hasOtherRunnable.2.Sound L staged naps :=
  h.withPolicy _

theorem pickNext (h : s.Sound L staged naps) : s.pickNext.2.Sound L staged naps := h.withPolicy _

omit [Policy π] in
theorem planSwitch (h : s.Sound L staged naps) (source target : ThreadId) :
    (s.planSwitch source target).Gives fun a => a.2.Sound L staged naps := by
  unfold Scheduler.planSwitch
  split
  · exact .pure h
  · exact .pure (h.withStats _)
  · exact .bind (Logged.gives_note _) fun _ _ => .pure h

theorem wake (h : s.Sound L staged naps) (t : ThreadId) :
    (s.wake t).Gives fun s' => ∃ staged', s'.Sound L staged' naps := by
  unfold Scheduler.wake
  by_cases ht : t = s.current.1
  · simp only [ht, if_true]
    exact .bind (Logged.gives_note _) fun _ _ => .pure ⟨staged, h.current⟩
  · simp only [ht, if_false]
    exact h.current.handOff t

/-! ### The sleep queue -/

omit [Policy π] in
/-- The oldest sleeper with a deadline leaves the sleep queue, if there is one. -/
theorem remove (h : s.Sound L staged naps) (deadline : Nat) :
    (s.sleepers.remove s.threads deadline).Gives fun a =>
      (a = (none, s.sleepers, s.threads) ∧ naps.find? (·.deadline == deadline) = none) ∨
      ∃ e, naps.find? (·.deadline == deadline) = some e ∧ a.1 = some e.thread ∧
        ({ s with sleepers := a.2.1, threads := a.2.2 } : Scheduler π).Sound L staged
          (naps.erase e) := by
  cases he : naps.find? (·.deadline == deadline) with
  | none =>
    rw [h.lists.remove_none he]
    exact .pure (Or.inl ⟨rfl, rfl⟩)
  | some e =>
    have hg : s.threads.tag e.thread = .ok .asleep :=
      h.accounts.asleep () e.thread (List.mem_map_of_mem (List.mem_of_find?_eq_some he))
    obtain ⟨i, hi, hq⟩ := h.lists.remove_some he hg
    rw [hq]
    exact .pure (Or.inr ⟨e, rfl, rfl, h.putSleep (h.accounts.woken (w := ()) hi)⟩)

omit [Policy π] in
/-- The deadline at the root of the heap is the deadline of a sleeper. -/
theorem find?_ne_none (h : s.Sound L staged naps) {deadline : Nat}
    (hfirst : s.sleepers.earliest? = some deadline) :
    naps.find? (·.deadline == deadline) ≠ none := by
  rw [h.lists.earliest?_eq] at hfirst
  obtain ⟨e, he, hed⟩ := List.mem_map.mp (List.min?_mem hfirst)
  exact fun hnone => absurd (beq_iff_eq.mpr hed) (List.find?_eq_none.mp hnone e he)

/-- What the loop of the expiry finds at the root of the heap it can take out. -/
theorem expireUpTo (now : Nat) : ∀ (most : Nat) {s : Scheduler π} {staged : List ThreadId}
    {naps : List Sleeper}, s.Sound L staged naps →
    (s.expireUpTo now most).Gives fun s' => ∃ staged' naps', s'.Sound L staged' naps'
  | 0, s, staged, naps, h => .pure ⟨staged, naps, h⟩
  | most + 1, s, staged, naps, h => by
    rw [Scheduler.expireUpTo]
    cases hfirst : s.sleepers.earliest? with
    | none => exact .pure ⟨staged, naps, h⟩
    | some deadline =>
      by_cases hnow : now < deadline
      · simp only [hnow, if_true]
        exact .pure ⟨staged, naps, h⟩
      · simp only [hnow, if_false]
        refine .bind (h.remove deadline) fun a ha => ?_
        obtain ⟨woken, q, table⟩ := a
        rcases ha with ⟨-, hnone⟩ | ⟨e, -, rfl, h'⟩
        · exact absurd hnone (h.find?_ne_none hfirst)
        · refine .bind (Logged.gives_note _) fun _ _ => ?_
          refine .bind ((h'.withStats _).wake e.thread) fun s' hs' => ?_
          obtain ⟨staged', hs'⟩ := hs'
          exact expireUpTo now most hs'

theorem expireDue (h : s.Sound L [] naps) (now : Nat) :
    (s.expireDue now).Gives fun a => ∃ naps', a.2.Sound L [] naps' := by
  unfold Scheduler.expireDue
  split
  · exact .pure ⟨naps, h⟩
  · refine .bind (h.expireUpTo now s.sleepers.size) fun s₁ hs₁ => ?_
    obtain ⟨staged, naps', h₁⟩ := hs₁
    exact .bind h₁.flushHandoff fun s₂ h₂ => .pure ⟨naps', h₂⟩

/-! ### Pulses -/

omit [Policy π] in
theorem countPulse (h : s.Sound L staged naps) :
    s.countPulse.Gives fun s' => s'.Sound L staged naps := by
  unfold Scheduler.countPulse
  rw [TickClock.advance?_of_lt h.pending h.remainder]
  exact .pure ⟨h.accounts, Nat.mod_lt _ (by decide), h.remainder, h.quantum⟩

theorem rotate (h : s.Sound L [] naps) : s.rotate.Gives fun a => a.2.Sound L [] naps := by
  unfold Scheduler.rotate
  have h₁ := h.hasOtherRunnable
  have hquantum := h₁.quantum
  generalize s.hasOtherRunnable = a at h₁ hquantum
  obtain ⟨other, s₁⟩ := a
  cases other with
  | false => exact .pure h₁
  | true =>
    simp only [Bool.not_true, Bool.false_eq_true, if_false, hquantum]
    split
    · exact .pure h₁
    · have h₂ := h₁.current
      generalize s₁.current = a at h₂
      obtain ⟨running, s₂⟩ := a
      split
      · rw [pure_bind]
        exact (h₂.pickNext.withStats _).planSwitch _ _
      · refine .bind (h₂.handOff running) fun s₃ hs₃ => ?_
        obtain ⟨staged, h₃⟩ := hs₃
        exact .bind h₃.flushHandoff fun s₄ h₄ => (h₄.pickNext.withStats _).planSwitch _ _

theorem tick (h : s.Sound L [] naps) (now : Nat) (booted : Bool) :
    (s.tick now booted).Gives fun a => ∃ naps', a.2.Sound L [] naps' := by
  unfold Scheduler.tick
  refine .bind h.countPulse fun s₁ h₁ => ?_
  cases booted with
  | false => exact .pure ⟨naps, h₁.withStats _⟩
  | true =>
    refine .bind (h₁.expireDue now) fun a ha => ?_
    obtain ⟨naps', h₂⟩ := ha
    exact .bind h₂.rotate fun a h₃ => .pure ⟨naps', h₃⟩

/-! ### Falling asleep and waking early -/

theorem beginSleep (h : s.Sound L staged naps) (deadline : Nat) :
    (s.beginSleep deadline).Gives fun a => ∃ naps', a.2.Sound L staged naps' := by
  unfold Scheduler.beginSleep
  have h₁ := h.current
  generalize s.current = a at h₁
  obtain ⟨running, s₁⟩ := a
  by_cases hfree : s₁.threads.tag running = .ok .unqueued ∧ naps.length < s₁.sleepers.capacity
  · have hq := SleepQueue.insert_of_tag h₁.lists deadline hfree.1 hfree.2
    have h₂ := h₁.putSleep (h₁.accounts.slept () deadline hfree.1 hfree.2)
    simp only [hq, pure_bind]
    refine .bind (Logged.gives_note _) fun _ _ => ?_
    exact .bind (h₂.pickNext.planSwitch _ _) fun b h₃ => .pure ⟨_, h₃⟩
  · obtain ⟨refusal, hq⟩ := SleepQueue.insert_eq_error h₁.lists deadline hfree
    simp only [hq, pure_bind]
    exact .pure ⟨naps, h₁⟩

theorem cancelSleep (h : s.Sound L [] naps) (deadline : Nat) :
    (s.cancelSleep deadline).Gives fun a => ∃ naps', a.2.Sound L [] naps' := by
  unfold Scheduler.cancelSleep
  refine .bind (h.remove deadline) fun a ha => ?_
  rcases ha with ⟨rfl, -⟩ | ⟨e, -, hwoken, h₁⟩
  · exact .bind (Logged.gives_note _) fun _ _ => .pure ⟨naps, h⟩
  · obtain ⟨woken, q, table⟩ := a
    obtain rfl : woken = some e.thread := hwoken
    refine .bind ((h₁.withStats _).wake e.thread) fun s₂ hs₂ => ?_
    obtain ⟨staged, h₂⟩ := hs₂
    exact .bind h₂.flushHandoff fun s₃ h₃ => .pure ⟨_, h₃⟩

omit [Policy π] in
theorem cancelThreadSleep (h : s.Sound L staged naps) (t : ThreadId) :
    (s.cancelThreadSleep t).Gives fun a => ∃ naps', a.2.Sound L staged naps' := by
  unfold Scheduler.cancelThreadSleep
  cases he : naps.find? (·.thread == t) with
  | none =>
    rw [h.lists.removeThread_none he, pure_bind]
    exact .pure ⟨naps, h⟩
  | some e =>
    have hg : s.threads.tag e.thread = .ok .asleep :=
      h.accounts.asleep () e.thread (List.mem_map_of_mem (List.mem_of_find?_eq_some he))
    obtain ⟨i, hi, hq⟩ := h.lists.removeThread_some he hg
    rw [hq, pure_bind]
    exact .pure ⟨_, (h.putSleep (h.accounts.woken (w := ()) hi)).withStats _⟩

/-! ### Registering and releasing -/

omit [Policy π] in
theorem register (h : s.Sound L staged naps) (context : SavedContext) :
    (s.register context).Gives fun a => a.2.Sound L staged naps := by
  have h' : ({ s with threads := (s.threads.register context).2 } : Scheduler π).Sound L staged
      naps := ⟨h.accounts.register context, h.pending, h.remainder, h.quantum⟩
  unfold Scheduler.register
  generalize s.threads.register context = a at h'
  obtain ⟨refusal | t, threads⟩ := a
  · exact .pure h'
  · exact .bind (Logged.gives_note _) fun _ _ => .pure h'

omit [Policy π] in
theorem release (h : s.Sound L staged naps) (t : ThreadId) :
    (s.release t).Gives fun a => a.2.Sound L staged naps := by
  have h' : ({ s with threads := (s.threads.release t).2 } : Scheduler π).Sound L staged naps :=
    ⟨h.accounts.release t, h.pending, h.remainder, h.quantum⟩
  unfold Scheduler.release
  generalize s.threads.release t = a at h'
  obtain ⟨refusal | ⟨⟩, threads⟩ := a
  · exact .pure h'
  · exact .bind (Logged.gives_note _) fun _ _ => .pure h'

end Sound
end Scheduler
end PulseKernel
