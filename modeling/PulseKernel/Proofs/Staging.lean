/-
# Through the hand-off queue

A thread that is woken or rotated is staged on the hand-off queue and passed on to
the policy within the same step. Its slot is then as if it had never been on that
queue: what a step does to the table is told by the table whose staged threads
are freed (`ThreadTable.freed`), and that table does not change when a thread joins
or leaves the line.

Key definitions: `ThreadTable.freed`, `Scheduler.withStaged`, `Scheduler.admits`,
`Scheduler.woken`.
Key theorems: `ThreadTable.freed_joined`, `ThreadTable.freed_closed`,
`Scheduler.Sound.flushHandoff_eq`, `Scheduler.Sound.wake_eq`,
`Scheduler.Sound.expire_step`, `Scheduler.Sound.expireUpTo_eq`.
-/
import PulseKernel.Proofs.DueSleepers
import PulseKernel.Proofs.PolicyDialogue
import PulseKernel.Proofs.SchedulerSound

namespace PulseKernel

@[simp] theorem Slot.unlinked_unlinked (s : Slot) : s.unlinked.unlinked = s.unlinked := rfl

@[simp] theorem Slot.unlinked_withNext (s : Slot) (next : Option ThreadId) :
    (s.withNext next).unlinked = s.unlinked := rfl

@[simp] theorem Slot.unlinked_withPrev (s : Slot) (prev : Option ThreadId) :
    (s.withPrev prev).unlinked = s.unlinked := rfl

@[simp] theorem Slot.unlinked_lastOn (s : Slot) (id : QueueId) (prev : Option ThreadId) :
    (s.lastOn id prev).unlinked = s.unlinked := rfl

namespace ThreadTable

variable {table : ThreadTable} {id : QueueId} {l x y ts : List ThreadId} {t u : ThreadId}

/-- Two tables with the same slots and as many threads are the same. -/
theorem ext_slot? {a b : ThreadTable} (hlive : a.live = b.live)
    (hslot : ∀ t, a.slot? t = b.slot? t) : a = b := by
  cases a with
  | mk slots live =>
    cases b with
    | mk slots' live' =>
      have hslots : slots = slots' := Array.ext_getElem? fun i => hslot ⟨i⟩
      rw [hslots, show live = live' from hlive]

@[simp] theorem live_touch (table : ThreadTable) (who : Option ThreadId) (f : Slot → Slot) :
    (table.touch who f).live = table.live := by
  cases who <;> rfl

/-- The table after the threads have left whatever owns them. -/
def freed (table : ThreadTable) (ts : List ThreadId) : ThreadTable :=
  ts.foldl (fun table t => table.touch (some t) Slot.unlinked) table

@[simp] theorem freed_nil (table : ThreadTable) : table.freed [] = table := rfl

theorem freed_cons (table : ThreadTable) (t : ThreadId) (ts : List ThreadId) :
    table.freed (t :: ts) = (table.touch (some t) Slot.unlinked).freed ts := rfl

theorem freed_append (table : ThreadTable) (ts us : List ThreadId) :
    table.freed (ts ++ us) = (table.freed ts).freed us := List.foldl_append

@[simp] theorem live_freed (table : ThreadTable) (ts : List ThreadId) :
    (table.freed ts).live = table.live := by
  induction ts generalizing table with
  | nil => rfl
  | cons t ts ih => rw [freed_cons, ih, live_touch]

theorem slot?_freed (table : ThreadTable) (ts : List ThreadId) (u : ThreadId) :
    (table.freed ts).slot? u =
      if u ∈ ts then (table.slot? u).map Slot.unlinked else table.slot? u := by
  induction ts generalizing table with
  | nil => simp
  | cons t ts ih =>
    rw [freed_cons, ih, slot?_touch]
    by_cases htu : t = u
    · subst htu
      simp [Function.comp_def]
    · simp [htu, Ne.symm htu]

/-- A registered thread that has been freed has no owner, and the others keep theirs. -/
theorem tag_freed {g : Tag} (h : table.tag u = .ok g) (ts : List ThreadId) :
    (table.freed ts).tag u = .ok (if u ∈ ts then .unqueued else g) := by
  obtain ⟨s, hs, hused, rfl⟩ := tag_eq_ok.mp h
  refine tag_eq_ok.mpr ?_
  rw [slot?_freed, hs]
  by_cases hu : u ∈ ts
  · exact ⟨s.unlinked, by simp [hu], hused, by simp [hu, Slot.unlinked]⟩
  · exact ⟨s, by simp [hu], hused, by simp [hu]⟩

theorem tag_freed_of_notMem (table : ThreadTable) {ts : List ThreadId} (hu : u ∉ ts) :
    (table.freed ts).tag u = table.tag u :=
  tag_congr (by rw [slot?_freed, if_neg hu])

@[simp] theorem contains_freed (table : ThreadTable) (ts : List ThreadId) (u : ThreadId) :
    (table.freed ts).contains u = table.contains u := by
  rw [Bool.eq_iff_iff, contains_iff, contains_iff]
  constructor
  · rintro ⟨g, hg⟩
    obtain ⟨s, hs, hused, -⟩ := tag_eq_ok.mp hg
    rw [slot?_freed] at hs
    split at hs
    · obtain ⟨s₀, hs₀, rfl⟩ := Option.map_eq_some_iff.mp hs
      exact ⟨s₀.tag, tag_eq_ok.mpr ⟨s₀, hs₀, hused, rfl⟩⟩
    · exact ⟨s.tag, tag_eq_ok.mpr ⟨s, hs, hused, rfl⟩⟩
  · rintro ⟨g, hg⟩
    exact ⟨_, tag_freed hg ts⟩

/-- After some threads have been freed, they and those that were free before have no owner. -/
theorem tag_freed_eq_unqueued (table : ThreadTable) (ts : List ThreadId) (u : ThreadId) :
    (table.freed ts).tag u = .ok .unqueued ↔
      table.tag u = .ok .unqueued ∨ u ∈ ts ∧ table.contains u = true := by
  cases hcontains : table.contains u with
  | true =>
    obtain ⟨g, hg⟩ := contains_iff.mp hcontains
    rw [tag_freed hg, hg]
    by_cases hu : u ∈ ts <;> simp [hu]
  | false =>
    have hnone : ∀ table : ThreadTable, table.contains u = false → table.tag u ≠ .ok .unqueued := by
      intro table hfalse hg
      rw [contains_iff.mpr ⟨_, hg⟩] at hfalse
      cases hfalse
    have hfreed : (table.freed ts).contains u = false := by rw [contains_freed, hcontains]
    simp [hnone _ hcontains, hnone _ hfreed]

/-- Who is freed first and who later makes no difference. -/
theorem freed_touch_comm (table : ThreadTable) (t : ThreadId) (ts : List ThreadId) :
    (table.touch (some t) Slot.unlinked).freed ts =
      (table.freed ts).touch (some t) Slot.unlinked := by
  refine ext_slot? (by simp) fun u => ?_
  simp only [slot?_freed, slot?_touch]
  split <;> split <;> simp [Function.comp_def]

/-- A thread without links joins a line, and leaves no trace when the line is freed. -/
theorem freed_joined (hfree : (table.slot? t).map Slot.unlinked = table.slot? t) :
    (table.joined id l t).freed (l ++ [t]) = table.freed l := by
  refine ext_slot? (by simp [joined]) fun u => ?_
  rw [slot?_freed, slot?_freed]
  by_cases hut : u = t
  · subst hut
    have hslot : ((table.joined id l u).slot? u).map Slot.unlinked = table.slot? u := by
      rw [← hfree, joined, slot?_touch, slot?_touch, if_pos rfl]
      cases table.slot? u <;> split <;> simp
    rw [if_pos (by simp), hslot]
    split
    · exact hfree.symm
    · rfl
  · by_cases hul : u ∈ l
    · have hslot : ((table.joined id l t).slot? u).map Slot.unlinked =
          (table.slot? u).map Slot.unlinked := by
        rw [joined, slot?_touch, slot?_touch, if_neg (fun e => hut (Option.some.inj e).symm)]
        cases table.slot? u <;> split <;> simp
      rw [if_pos (by simp [hul]), if_pos hul, hslot]
    · rw [if_neg (by simp [hul, hut]), if_neg hul, slot?_joined_of_notMem hul hut]

/-- A thread leaves a line, and freeing the others does what freeing them all would have done. -/
theorem freed_closed (table : ThreadTable) (x : List ThreadId) (t : ThreadId)
    (y : List ThreadId) : (table.closed x t y).freed (x ++ y) = table.freed (x ++ t :: y) := by
  refine ext_slot? (by simp [closed]) fun u => ?_
  rw [slot?_freed, slot?_freed]
  have hslot : ((table.closed x t y).slot? u).map Slot.unlinked =
      (table.slot? u).map Slot.unlinked := by
    rw [closed, slot?_touch, slot?_touch, slot?_touch]
    cases table.slot? u <;> split <;> split <;> split <;> simp
  by_cases hut : u = t
  · subst hut
    rw [if_pos (by simp : u ∈ x ++ u :: y), slot?_closed_self]
    split <;> simp [Function.comp_def]
  · by_cases hu : u ∈ x ++ y
    · rw [if_pos hu, if_pos (by simp at hu ⊢; tauto), hslot]
    · have hu' : u ∉ x ++ t :: y := by simp at hu ⊢; tauto
      rw [if_neg hu, if_neg hu', slot?_closed_of_notMem hu']

/-- The slot of a thread without an owner is a free one. -/
theorem Tidy.map_unlinked (h : table.Tidy) (hg : table.tag t = .ok .unqueued) :
    (table.slot? t).map Slot.unlinked = table.slot? t := by
  obtain ⟨s, hs, -, htag⟩ := tag_eq_ok.mp hg
  obtain ⟨hnext, hprev⟩ := h.unlinked t s hs (by simp [htag])
  have hself : s.unlinked = s := by
    cases s
    simp_all [Slot.unlinked]
  rw [hs, Option.map_some, hself]

end ThreadTable

namespace Scheduler

variable {π : Type} {L : Layout Unit Unit} {s : Scheduler π} {staged : List ThreadId}
  {naps : List Sleeper} {t : ThreadId}

/-- The scheduler with these threads staged, as links in the table. -/
def withStaged (s : Scheduler π) (L : Layout Unit Unit) (staged : List ThreadId)
    (table : ThreadTable) : Scheduler π :=
  { s with handoff := .ofList (L.id ()) staged, threads := table }

/-- Those of the sleepers' threads that do not hold the processor. -/
def admits [Policy π] (s : Scheduler π) (due : List Sleeper) : List ThreadId :=
  (Policy.others s.policy (due.map (·.thread))).1

/-- The scheduler after these sleepers have left the heap and the policy was asked about them. -/
def woken [Policy π] (s : Scheduler π) (heap : Array Sleeper) (due : List Sleeper) :
    Scheduler π :=
  { s with
    sleepers := { s.sleepers with heap := heap }
    policy := (Policy.others s.policy (due.map (·.thread))).2
    stats := { s.stats with expirations := s.stats.expirations + due.length } }

/-- The scheduler after this sleeper has left the heap and has been counted. -/
def expired (s : Scheduler π) (e : Sleeper) : Scheduler π :=
  ({ s with sleepers := s.sleepers.erase e, threads := s.threads.freed [e.thread] } :
    Scheduler π).countExpiration

theorem admits_withStaged [Policy π] (s : Scheduler π) (due : List Sleeper)
    (table : ThreadTable) : (s.withStaged L staged table).admits due = s.admits due := rfl

theorem admits_append [Policy π] (s : Scheduler π) (due due' : List Sleeper)
    (heap : Array Sleeper) :
    s.admits (due ++ due') = s.admits due ++ (s.woken heap due).admits due' := by
  rw [admits, List.map_append, Policy.others_append]
  rfl

/-- Waking some sleepers and then others is waking them all. -/
theorem woken_withStaged_woken [Policy π] (s : Scheduler π) (due due' : List Sleeper)
    (heap heap' : Array Sleeper) (table : ThreadTable) :
    ((s.woken heap due).withStaged L staged table).woken heap' due' =
      (s.woken heap' (due ++ due')).withStaged L staged table := by
  simp only [woken, withStaged, List.map_append, Policy.others_append, List.length_append,
    Nat.add_assoc]

namespace Sound

/-! ### Staging -/

/-- A thread without an owner is staged. -/
theorem handOff_of_free (h : s.Sound L staged naps) (hg : s.threads.tag t = .ok .unqueued) :
    (s.handOff t).Gives fun s' => ∃ table, s' = s.withStaged L (staged ++ [t]) table ∧
      s'.Sound L (staged ++ [t]) naps ∧ table.freed (staged ++ [t]) = s.threads.freed staged := by
  have hq := ReadyQueue.enqueue_ofList h.linedUp hg
  rw [← h.queue] at hq
  have hfree := h.accounts.tidy.map_unlinked hg
  rw [Scheduler.handOff, hq, pure_bind]
  exact .pure ⟨_, rfl, h.putReady (h.accounts.joined () hg), ThreadTable.freed_joined hfree⟩

/-- The scheduler with one more thread counted that was not staged. -/
theorem handOff_of_not_free (hg : s.threads.tag t ≠ .ok .unqueued) :
    (s.handOff t).result = .ok { s with
      stats := { s.stats with redundantEnqueues := s.stats.redundantEnqueues + 1 } } := by
  rw [Scheduler.handOff, Logged.bind_of_ok _ (ReadyQueue.enqueue_of_not_free s.handoff hg)]
  rfl

variable [Policy π]

theorem flushUpTo_eq : ∀ (staged : List ThreadId) (most : Nat) {s : Scheduler π},
    s.Sound L staged naps → staged.length < most →
    (s.flushUpTo most).Gives fun s' => s' = { s with
      handoff := .ofList (L.id ()) []
      threads := s.threads.freed staged
      policy := Policy.addAll s.policy staged } ∧ s'.Sound L [] naps
  | [], most + 1, s, h, _ => by
    have hhead : s.handoff.head = none := by rw [h.queue]; rfl
    rw [Scheduler.flushUpTo, ReadyQueue.dequeue_of_empty _ hhead, pure_bind]
    refine .pure ⟨?_, h⟩
    rw [ThreadTable.freed_nil, Policy.addAll_nil, ← h.queue]
  | t :: staged, most + 1, s, h, hlength => by
    have hq := ReadyQueue.dequeue_ofList h.linedUp
    rw [← h.queue] at hq
    rw [Scheduler.flushUpTo, hq, pure_bind]
    have h₁ := (h.putReady (h.accounts.closed (x := []) rfl)).withPolicy
      (Policy.addReady s.policy t)
    obtain ⟨s', hs', heq, h'⟩ := flushUpTo_eq staged most h₁ (Nat.lt_of_succ_lt_succ hlength)
    refine ⟨s', hs', ?_, h'⟩
    have hfreed := ThreadTable.freed_closed s.threads [] t staged
    simp only [List.nil_append] at hfreed
    rw [heq, Policy.addAll_cons, ← hfreed]
    rfl

/-- The staged threads are passed to the policy in their order, and their slots are freed. -/
theorem flushHandoff_eq (h : s.Sound L staged naps) :
    s.flushHandoff.Gives fun s' => s' = { s with
      handoff := .ofList (L.id ()) []
      threads := s.threads.freed staged
      policy := Policy.addAll s.policy staged } ∧ s'.Sound L [] naps :=
  flushUpTo_eq staged _ h (Nat.lt_succ_of_le h.linedUp.length_le)

/-- Threads that were staged within a step are passed on, and the hand-off queue is as it was. -/
theorem flush_withStaged {table threads : ThreadTable}
    (h : (s.withStaged L staged table).Sound L staged naps)
    (hq : s.handoff = .ofList (L.id ()) []) (hfreed : table.freed staged = threads) :
    (s.withStaged L staged table).flushHandoff.Gives fun s' =>
      s' = { s with threads := threads, policy := Policy.addAll s.policy staged } ∧
      s'.Sound L [] naps := by
  obtain ⟨s', hs', heq, h'⟩ := h.flushHandoff_eq
  refine ⟨s', hs', ?_, h'⟩
  rw [heq, ← hq, ← hfreed]
  rfl

/-! ### Waking -/

/-- A free thread is staged unless it holds the processor. -/
theorem wake_eq (h : s.Sound L staged naps) (hg : s.threads.tag t = .ok .unqueued) :
    (s.wake t).Gives fun s' => ∃ table,
      s' = ({ s with policy := (Policy.others s.policy [t]).2 } : Scheduler π).withStaged L
        (staged ++ (Policy.others s.policy [t]).1) table ∧
      s'.Sound L (staged ++ (Policy.others s.policy [t]).1) naps ∧
      table.freed (staged ++ (Policy.others s.policy [t]).1) = s.threads.freed staged := by
  have hwake : s.wake t = if t = s.current.1 then
      (do Logged.note (.resumesInPlace t); return s.current.2) else s.current.2.handOff t := rfl
  rw [hwake]
  by_cases ht : t = s.current.1
  · have hothers : Policy.others s.policy [t] = ([], s.current.2.policy) := by
      rw [Policy.others_cons, if_pos (show t = (Policy.current s.policy).1 from ht)]
      rfl
    rw [if_pos ht, hothers, List.append_nil]
    refine .bind (Logged.gives_note _) fun _ _ => .pure ⟨s.threads, ?_, h.current, rfl⟩
    rw [withStaged, ← h.queue]
    rfl
  · have hothers : Policy.others s.policy [t] = ([t], s.current.2.policy) := by
      rw [Policy.others_cons, if_neg (show ¬ t = (Policy.current s.policy).1 from ht)]
      rfl
    rw [if_neg ht, hothers]
    exact h.current.handOff_of_free hg

omit [Policy π] in
/-- The oldest sleeper with a deadline is taken out, and its thread is free. -/
theorem remove_eq (h : s.Sound L staged naps) {deadline : Nat} {e : Sleeper}
    (he : naps.find? (·.deadline == deadline) = some e) :
    s.sleepers.remove s.threads deadline =
        pure (some e.thread, s.sleepers.erase e, s.threads.freed [e.thread]) ∧
      ({ s with sleepers := s.sleepers.erase e, threads := s.threads.freed [e.thread] } :
        Scheduler π).Sound L staged (naps.erase e) ∧
      (s.threads.freed [e.thread]).tag e.thread = .ok .unqueued := by
  have hmem := List.mem_of_find?_eq_some he
  obtain ⟨i, rfl, hq⟩ := h.lists.remove_some he (h.tag_of_mem hmem)
  rw [h.lists.erase_entry i]
  exact ⟨hq, h.putSleep (h.accounts.woken (w := ()) rfl), h.accounts.tag_woken (w := ()) hmem⟩

/-! ### Expiring -/

omit [Policy π] in
/-- The first sleeper that is due leaves the sleep queue, its thread is free, and the others are due
as before. -/
theorem expired (h : s.Sound L staged naps) {now : Nat} {e : Sleeper} {due : List Sleeper}
    (hdue : s.sleepers.due now = e :: due) :
    (s.expired e).Sound L staged (naps.erase e) ∧
      (s.expired e).threads.tag e.thread = .ok .unqueued ∧
      (s.expired e).sleepers.due now = due := by
  obtain ⟨-, -, -, hfind⟩ := h.lists.due_cons hdue
  obtain ⟨-, h₁, hg⟩ := h.remove_eq hfind
  exact ⟨h₁.withStats _, hg, h.lists.due_erase hdue⟩

/-- If nobody is due, the loop of the expiry does nothing. -/
theorem expireUpTo_of_nil (h : s.Sound L staged naps) {now : Nat}
    (hdue : s.sleepers.due now = []) (most : Nat) : s.expireUpTo now most = pure s := by
  cases most with
  | zero => rfl
  | succ most =>
    rw [Scheduler.expireUpTo]
    cases hfirst : s.sleepers.earliest? with
    | none => rfl
    | some deadline => simp only [h.lists.due_eq_nil hdue hfirst, if_true]

/-- Otherwise one turn of it wakes the first sleeper that is due. -/
theorem expireUpTo_of_cons (h : s.Sound L staged naps) {now : Nat} {e : Sleeper}
    {due : List Sleeper} (hdue : s.sleepers.due now = e :: due) (most : Nat) :
    s.expireUpTo now (most + 1) = (do
      Logged.note (.expired e.thread e.deadline now)
      let s' ← (s.expired e).wake e.thread
      s'.expireUpTo now most) := by
  obtain ⟨-, hnow, hfirst, hfind⟩ := h.lists.due_cons hdue
  obtain ⟨hq, -⟩ := h.remove_eq hfind
  rw [Scheduler.expireUpTo, hfirst]
  simp only [Nat.not_lt.mpr hnow, if_false, hq, pure_bind]
  rfl

/-- In one turn of the expiry the thread of the first sleeper that is due is staged, unless it holds
the processor. -/
theorem expire_step (h : s.Sound L staged naps) {now : Nat} {e : Sleeper} {due : List Sleeper}
    (hdue : s.sleepers.due now = e :: due) (most : Nat) :
    ∃ s₁ table, (s.expireUpTo now (most + 1)).result = (s₁.expireUpTo now most).result ∧
      s₁ = (s.woken (s.sleepers.erase e).heap [e]).withStaged L (staged ++ s.admits [e]) table ∧
      s₁.Sound L (staged ++ s.admits [e]) (naps.erase e) ∧ s₁.sleepers.due now = due ∧
      table.freed (staged ++ s.admits [e]) = (s.threads.freed staged).freed [e.thread] := by
  obtain ⟨hsound, hg, hrest⟩ := h.expired hdue
  obtain ⟨s₁, hs₁, table, heq, hsound₁, hfreed⟩ := hsound.wake_eq hg
  refine ⟨s₁, table, ?_, ?_, hsound₁, ?_, ?_⟩
  · rw [h.expireUpTo_of_cons hdue]
    exact (Logged.result_bind_of_ok _ rfl).trans (Logged.result_bind_of_ok _ hs₁)
  · rw [heq, Scheduler.expired, s.sleepers.erase_eq e]
    rfl
  · rw [heq]
    exact hrest
  · exact hfreed.trans (ThreadTable.freed_touch_comm s.threads e.thread staged)

/-- The loop of the expiry wakes the sleepers that are due, in their order. -/
theorem expireUpTo_eq (now : Nat) : ∀ (due : List Sleeper) (most : Nat) {s : Scheduler π}
    {staged : List ThreadId} {naps : List Sleeper}, s.Sound L staged naps →
    s.sleepers.due now = due → due.length ≤ most →
    (s.expireUpTo now most).Gives fun s' => ∃ table,
      s' = (s.woken (s.sleepers.eraseAll due).heap due).withStaged L (staged ++ s.admits due)
        table ∧
      s'.Sound L (staged ++ s.admits due) (naps.filter fun e => now < e.deadline) ∧
      table.freed (staged ++ s.admits due) =
        (s.threads.freed staged).freed (due.map (·.thread))
  | [], most, s, staged, naps, h, hdue, _ => by
    rw [h.expireUpTo_of_nil hdue]
    have hnone : s.admits [] = [] := rfl
    rw [hnone, List.append_nil]
    refine .pure ⟨s.threads, ?_, ?_, rfl⟩
    · rw [withStaged, ← h.queue]
      rfl
    · rw [h.lists.filter_of_due_eq_nil hdue]
      exact h
  | e :: due, most + 1, s, staged, naps, h, hdue, hlength => by
    obtain ⟨-, hnow, -⟩ := h.lists.due_cons hdue
    obtain ⟨s₁, table₁, hresult, rfl, h₁, hdue₁, hfreed₁⟩ := h.expire_step hdue most
    obtain ⟨s', hs', table, heq, h', hfreed⟩ :=
      expireUpTo_eq now due most h₁ hdue₁ (Nat.le_of_succ_le_succ hlength)
    rw [admits_withStaged, List.append_assoc, ← admits_append, List.singleton_append]
      at heq h' hfreed
    have hsleepers : (((s.woken (s.sleepers.erase e).heap [e]).withStaged L
        (staged ++ s.admits [e]) table₁).sleepers).eraseAll due =
        s.sleepers.eraseAll (e :: due) :=
      congrArg (·.eraseAll due) (s.sleepers.erase_eq e).symm
    refine ⟨s', hresult.trans hs', table, ?_, ?_, ?_⟩
    · rw [heq, woken_withStaged_woken, List.singleton_append, hsleepers]
      rfl
    · rw [← h.lists.filter_erase_of_due hnow]
      exact h'
    · exact hfreed.trans (congrArg (·.freed (due.map (·.thread))) hfreed₁)

end Sound
end Scheduler
end PulseKernel
