/-
# Sleep queues are lists in the order of insertion

What a sleep queue means is the list of its sleepers in the order in which they
fell asleep, which is the order of their sequence numbers; the heap holds the
same sleepers in another order (`SleepQueue.Lists`). Falling asleep adds a
sleeper at the end of the list, and of several sleepers with the wanted
deadline the first one in the list is taken out.

Key definitions: `SleepQueue.Lists`, `SleepQueue.pairs`, `SleepQueue.erase`,
`SleepQueue.eraseAll`.
Key theorems: `SleepQueue.Lists.pairs_eq`, `SleepQueue.Lists.earliest?_eq`,
`SleepQueue.insert_of_tag`, `SleepQueue.Lists.remove_some`,
`SleepQueue.Lists.removeThread_some`.
-/
import Mathlib.Data.List.Nodup
import Mathlib.Data.List.Perm.Basic
import PulseKernel.Proofs.HeapOrder
import PulseKernel.Proofs.ThreadSlots
import PulseKernel.Queue.Sleep

namespace PulseKernel

instance : Heap.Ranked Sleeper where
  asymm := by
    intro a b
    simp only [Sleeper.lt_iff]
    omega
  not_lt_trans := by
    intro a b c
    simp only [Sleeper.lt_iff]
    omega

/-- What is asked of a sleeper: who it is and until when. -/
def Sleeper.pair (s : Sleeper) : Nat × ThreadId := (s.deadline, s.thread)

@[simp] theorem Sleeper.pair_fst (s : Sleeper) : s.pair.1 = s.deadline := rfl

@[simp] theorem Sleeper.pair_snd (s : Sleeper) : s.pair.2 = s.thread := rfl

namespace SleepQueue

variable {q : SleepQueue} {l : List Sleeper} {table : ThreadTable} {t : ThreadId}

/-- The sleepers as deadlines and threads, in the order in which they fell asleep. -/
def pairs (q : SleepQueue) : List (Nat × ThreadId) :=
  (q.heap.toList.mergeSort fun a b => decide (a.seq ≤ b.seq)).map Sleeper.pair

/-- The queue holds the sleepers of this list, which stands in the order of insertion. -/
structure Lists (q : SleepQueue) (l : List Sleeper) : Prop where
  perm : q.heap.toList.Perm l
  sorted : l.Pairwise fun a b => a.seq < b.seq
  fresh : ∀ e ∈ l, e.seq < q.nextSeq
  ordered : Heap.Ordered q.heap
  fits : l.length ≤ q.capacity
  distinct : (l.map (·.thread)).Nodup

theorem Lists.empty (capacity : Nat) : ({ capacity := capacity } : SleepQueue).Lists [] where
  perm := List.Perm.refl _
  sorted := List.Pairwise.nil
  fresh _ h := by cases h
  ordered _ hi := absurd hi (Nat.not_lt_zero _)
  fits := Nat.zero_le _
  distinct := List.nodup_nil

theorem Lists.mem_heap_iff (h : q.Lists l) {e : Sleeper} : e ∈ q.heap ↔ e ∈ l := by
  rw [← h.perm.mem_iff, Array.mem_toList_iff]

theorem Lists.eq_of_thread (h : q.Lists l) {a b : Sleeper} (ha : a ∈ l) (hb : b ∈ l)
    (hab : a.thread = b.thread) : a = b :=
  List.inj_on_of_nodup_map h.distinct ha hb hab

theorem Lists.seq_nodup (h : q.Lists l) : (l.map (·.seq)).Nodup :=
  List.pairwise_map.mpr (h.sorted.imp Nat.ne_of_lt)

/-! ### What the queue answers -/

/-- The order of the sequence numbers is the order of the list. -/
theorem Lists.pairs_eq (h : q.Lists l) : q.pairs = l.map Sleeper.pair := by
  have hperm := (List.mergeSort_perm q.heap.toList fun a b => decide (a.seq ≤ b.seq)).trans h.perm
  have hsorted : (q.heap.toList.mergeSort fun a b => decide (a.seq ≤ b.seq)).Pairwise
      fun a b => decide (a.seq ≤ b.seq) = true := by
    apply List.pairwise_mergeSort
    · intro a b c
      simp only [decide_eq_true_eq]
      omega
    · intro a b
      simp only [Bool.or_eq_true, decide_eq_true_eq]
      omega
  have hl : l.Pairwise fun a b => decide (a.seq ≤ b.seq) = true :=
    h.sorted.imp fun hab => decide_eq_true (Nat.le_of_lt hab)
  rw [pairs, hperm.eq_of_pairwise ?_ hsorted hl]
  intro a b ha hb hab hba
  simp only [decide_eq_true_eq] at hab hba
  exact List.inj_on_of_nodup_map h.seq_nodup (hperm.mem_iff.mp ha) hb (Nat.le_antisymm hab hba)

theorem Lists.size_eq (h : q.Lists l) : q.size = l.length := by
  simpa [size] using h.perm.length_eq

theorem Lists.isEmpty_eq (h : q.Lists l) : q.isEmpty = l.isEmpty := by
  rw [isEmpty, ← Array.isEmpty_toList, h.perm.isEmpty_eq]

/-- The root of the heap has the earliest deadline. -/
theorem Lists.earliest?_eq (h : q.Lists l) : q.earliest? = (l.map (·.deadline)).min? := by
  unfold earliest?
  cases hl : l with
  | nil =>
    have hsize : q.heap.size = 0 := by simpa [size, hl] using h.size_eq
    simp [Array.eq_empty_of_size_eq_zero hsize]
  | cons e l' =>
    have hsize : 0 < q.heap.size := by
      have := h.size_eq
      simp only [size, hl, List.length_cons] at this
      omega
    rw [← hl, Array.getElem?_eq_getElem hsize, Option.map_some, eq_comm, List.min?_eq_some_iff]
    constructor
    · exact List.mem_map_of_mem (h.mem_heap_iff.mp (Array.getElem_mem hsize))
    · intro d hd
      obtain ⟨e', he', rfl⟩ := List.mem_map.mp hd
      obtain ⟨i, hi, rfl⟩ := Array.mem_iff_getElem.mp (h.mem_heap_iff.mpr he')
      have := h.ordered.not_lt_root i hi
      rw [Sleeper.lt_iff] at this
      omega

/-- What is found by a property that only one entry has does not depend on the order. -/
theorem find?_eq_of_perm {α : Type} {l₁ l₂ : List α} {p : α → Bool} (h : l₁.Perm l₂)
    (hp : ∀ a ∈ l₂, ∀ b ∈ l₂, p a → p b → a = b) : l₁.find? p = l₂.find? p := by
  cases h₁ : l₁.find? p with
  | none =>
    rw [List.find?_eq_none] at h₁
    exact (List.find?_eq_none.mpr fun a ha => h₁ a (h.mem_iff.mpr ha)).symm
  | some a =>
    have ha := h.mem_iff.mp (List.mem_of_find?_eq_some h₁)
    cases h₂ : l₂.find? p with
    | none => exact absurd (List.find?_some h₁) (List.find?_eq_none.mp h₂ a ha)
    | some b =>
      rw [hp a ha b (List.mem_of_find?_eq_some h₂) (List.find?_some h₁) (List.find?_some h₂)]

theorem Lists.find?_heap_eq (h : q.Lists l) (t : ThreadId) :
    q.heap.find? (·.thread == t) = l.find? (·.thread == t) := by
  rw [← Array.find?_toList]
  refine find?_eq_of_perm h.perm fun a ha b hb hat hbt => h.eq_of_thread ha hb ?_
  rw [eq_of_beq hat, eq_of_beq hbt]

theorem Lists.find?_thread (h : q.Lists l) {e : Sleeper} (he : e ∈ l) :
    l.find? (·.thread == e.thread) = some e := by
  cases hfind : l.find? (·.thread == e.thread) with
  | none => exact absurd (beq_self_eq_true _) (List.find?_eq_none.mp hfind e he)
  | some a =>
    have hthread : a.thread = e.thread := by simpa using List.find?_some hfind
    rw [h.eq_of_thread (List.mem_of_find?_eq_some hfind) he hthread]

theorem Lists.deadlineOf?_eq (h : q.Lists l) (t : ThreadId) :
    q.deadlineOf? t = (l.find? (·.thread == t)).map (·.deadline) := by
  rw [deadlineOf?, h.find?_heap_eq]

theorem Lists.contains_iff (h : q.Lists l) : q.contains t = true ↔ t ∈ l.map (·.thread) := by
  simp [contains, h.deadlineOf?_eq]

/-! ### Falling asleep -/

/-- The queue with one more sleeper. -/
def inserted (q : SleepQueue) (deadline : Nat) (t : ThreadId) : SleepQueue :=
  { q with
    heap := Heap.insert q.heap { deadline := deadline, thread := t, seq := q.nextSeq }
    nextSeq := q.nextSeq + 1 }

theorem Lists.inserted (h : q.Lists l) (deadline : Nat) (hroom : l.length < q.capacity)
    (ht : t ∉ l.map (·.thread)) :
    (q.inserted deadline t).Lists (l ++ [⟨deadline, t, q.nextSeq⟩]) where
  perm := (Heap.perm_insert q.heap _).trans (h.perm.append_right _)
  sorted := by
    refine List.pairwise_append.mpr ⟨h.sorted, List.pairwise_singleton _ _, fun a ha b hb => ?_⟩
    rw [List.mem_singleton.mp hb]
    exact h.fresh a ha
  fresh e he := by
    rcases List.mem_append.mp he with he | he
    · exact Nat.lt_succ_of_lt (h.fresh e he)
    · rw [List.mem_singleton.mp he]
      exact Nat.lt_succ_self _
  ordered := Heap.ordered_insert h.ordered _
  fits := by
    rw [List.length_append, List.length_singleton]
    exact hroom
  distinct := by
    rw [List.map_append]
    exact List.nodup_append.mpr ⟨h.distinct, List.nodup_singleton _, by grind⟩

/-- Who is not refused is put to sleep. -/
theorem insert_of_not_refused (deadline : Nat) (h : q.refusal? table t = none) :
    q.insert table deadline t =
      pure (.ok (), q.inserted deadline t, table.touch (some t) Slot.dormant) := by
  have hlt : t.index < table.capacity := by
    unfold refusal? at h
    cases hg : table.tag t with
    | error r => simp [hg] at h
    | ok g => exact ThreadTable.index_lt_of_tag hg
  simp [SleepQueue.insert, h, ThreadTable.setTag_asleep_of_lt hlt, SleepQueue.inserted]

/-- A thread that no structure owns falls asleep if there is room. -/
theorem insert_of_tag (h : q.Lists l) (deadline : Nat) (hg : table.tag t = .ok .unqueued)
    (hroom : l.length < q.capacity) :
    q.insert table deadline t =
      pure (.ok (), q.inserted deadline t, table.touch (some t) Slot.dormant) := by
  have hrefusal : q.refusal? table t = none := by
    simp [refusal?, hg, Tag.isQueued, h.size_eq, hroom]
  exact insert_of_not_refused deadline hrefusal

/-- A thread is refused unless no structure owns it and there is room. -/
theorem Lists.refusal?_eq_none (h : q.Lists l) :
    q.refusal? table t = none ↔ table.tag t = .ok .unqueued ∧ l.length < q.capacity := by
  unfold refusal?
  cases table.tag t with
  | error r => simp
  | ok g => cases g <;> simp [Tag.isQueued, h.size_eq]

/-- A thread is refused if a queue owns it, if it is not registered, or if there is no room. -/
theorem insert_eq_error (h : q.Lists l) (deadline : Nat)
    (hbusy : ¬ (table.tag t = .ok .unqueued ∧ l.length < q.capacity)) :
    ∃ r, q.insert table deadline t = pure (.error r, q, table) := by
  rw [← h.refusal?_eq_none] at hbusy
  obtain ⟨r, hr⟩ := Option.ne_none_iff_exists'.mp hbusy
  exact ⟨r, insert_of_refused deadline hr⟩

/-! ### Waking up -/

/-- The sleeper at a place of the heap. -/
def entry (q : SleepQueue) (i : Fin q.heap.size) : Sleeper := q.heap.toVector.get i

theorem Lists.entry_mem (h : q.Lists l) (i : Fin q.heap.size) : q.entry i ∈ l :=
  h.mem_heap_iff.mp (Array.getElem_mem i.isLt)

theorem Lists.exists_entry (h : q.Lists l) {e : Sleeper} (he : e ∈ l) :
    ∃ i : Fin q.heap.size, q.entry i = e := by
  obtain ⟨i, hi, hie⟩ := Array.mem_iff_getElem.mp (h.mem_heap_iff.mpr he)
  exact ⟨⟨i, hi⟩, hie⟩

/-- The queue without the sleeper at a place of its heap. -/
def without (q : SleepQueue) (i : Fin q.heap.size) : SleepQueue :=
  { q with heap := Heap.removeAt q.heap i }

theorem Lists.without (h : q.Lists l) (i : Fin q.heap.size) :
    (q.without i).Lists (l.erase (q.entry i)) where
  perm := by
    have hcons := (Heap.perm_removeAt q.heap i).symm.trans h.perm
    exact (List.cons_perm_iff_perm_erase.mp hcons).2
  sorted := h.sorted.sublist List.erase_sublist
  fresh e he := h.fresh e (List.mem_of_mem_erase he)
  ordered := Heap.ordered_removeAt h.ordered i
  fits := Nat.le_trans List.erase_sublist.length_le h.fits
  distinct := h.distinct.sublist (List.erase_sublist.map _)

/-- No sleeper has two places in the heap, as no thread has. -/
theorem Lists.entry_injective (h : q.Lists l) : Function.Injective q.entry := by
  intro i j hij
  have hnodup : q.heap.toList.Nodup := h.perm.nodup_iff.mpr (.of_map _ h.distinct)
  have hlist : q.heap.toList[i.val] = q.heap.toList[j.val] := hij
  exact Fin.ext (hnodup.getElem_inj_iff.mp hlist)

/-- The queue without a sleeper, wherever it stands in the heap. -/
def erase (q : SleepQueue) (e : Sleeper) : SleepQueue :=
  match q.heap.findFinIdx? (· == e) with
  | some i => q.without i
  | none => q

theorem Lists.erase_entry (h : q.Lists l) (i : Fin q.heap.size) :
    q.erase (q.entry i) = q.without i := by
  unfold SleepQueue.erase
  cases hfind : q.heap.findFinIdx? (· == q.entry i) with
  | none =>
    have hnone := Array.findFinIdx?_eq_none_iff.mp hfind (q.entry i) (Array.getElem_mem i.isLt)
    simp at hnone
  | some j =>
    have hj : q.entry j = q.entry i := eq_of_beq (Array.findFinIdx?_eq_some_iff.mp hfind).1
    rw [h.entry_injective hj]

theorem Lists.erase (h : q.Lists l) {e : Sleeper} (he : e ∈ l) : (q.erase e).Lists (l.erase e) := by
  obtain ⟨i, rfl⟩ := h.exists_entry he
  rw [h.erase_entry i]
  exact h.without i

/-- Of the queue itself only the heap changes. -/
theorem erase_eq (q : SleepQueue) (e : Sleeper) :
    q.erase e = { q with heap := (q.erase e).heap } := by
  unfold erase
  split <;> rfl

/-- The queue without these sleepers, who leave one after the other. -/
def eraseAll (q : SleepQueue) (es : List Sleeper) : SleepQueue := es.foldl erase q

theorem eraseAll_append (q : SleepQueue) (es es' : List Sleeper) :
    q.eraseAll (es ++ es') = (q.eraseAll es).eraseAll es' := List.foldl_append

theorem eraseAll_eq (q : SleepQueue) (es : List Sleeper) :
    q.eraseAll es = { q with heap := (q.eraseAll es).heap } := by
  induction es generalizing q with
  | nil => rfl
  | cons e es ih =>
    calc (q.erase e).eraseAll es
        = { q.erase e with heap := ((q.erase e).eraseAll es).heap } := ih _
      _ = { q with heap := ((q.erase e).eraseAll es).heap } := by rw [q.erase_eq e]

/-- Without a sleeper the others are still there. -/
theorem Lists.mem_erase_iff (h : q.Lists l) {e : Sleeper} (he : e ∈ l) :
    t ∈ (l.erase e).map (·.thread) ↔ t ≠ e.thread ∧ t ∈ l.map (·.thread) := by
  have hnodup : l.Nodup := .of_map _ h.distinct
  simp only [List.mem_map, hnodup.mem_erase_iff]
  constructor
  · rintro ⟨a, ⟨hae, ha⟩, rfl⟩
    exact ⟨fun hthread => hae (h.eq_of_thread ha he hthread), a, ha, rfl⟩
  · rintro ⟨ht, a, ha, rfl⟩
    exact ⟨a, ⟨fun hae => ht (congrArg Sleeper.thread hae), ha⟩, rfl⟩

/-- A sleeper whose thread is tagged asleep is taken out, and its thread is free. -/
theorem take_of_tag (i : Fin q.heap.size) (hg : table.tag (q.entry i).thread = .ok .asleep) :
    q.take table i =
      pure (q.entry i, q.without i, table.touch (some (q.entry i).thread) Slot.unlinked) := by
  obtain ⟨s, hs, -, hsleep⟩ := ThreadTable.tag_eq_ok.mp hg
  have hlink := ThreadTable.link_of_slot? hs
  have hunlink := ThreadTable.unlink_of_lt (ThreadTable.index_lt_of_tag hg)
  have hentry : q.heap[i] = q.entry i := rfl
  simp only [take, hentry, hlink, hunlink, hsleep, Logged.lift_ok, pure_bind, ne_eq,
    not_true_eq_false, if_false]
  rfl

/-! ### Who is woken -/

/-- `best` is the place, among those in `seen`, of the oldest sleeper with the deadline. -/
def IsOldest (q : SleepQueue) (deadline : Nat) (seen : List (Fin q.heap.size)) :
    Option (Fin q.heap.size) → Prop
  | none => ∀ i ∈ seen, (q.entry i).deadline ≠ deadline
  | some b => (q.entry b).deadline = deadline ∧
      ∀ i ∈ seen, (q.entry i).deadline = deadline → (q.entry b).seq ≤ (q.entry i).seq

/-- The better one of the oldest sleeper so far and the one at a place. -/
def older (q : SleepQueue) (deadline : Nat) (best : Option (Fin q.heap.size))
    (i : Fin q.heap.size) : Option (Fin q.heap.size) :=
  if (q.entry i).deadline = deadline then
    match best with
    | none => some i
    | some b => if (q.entry i).seq < (q.entry b).seq then some i else best
  else best

theorem IsOldest.older {deadline : Nat} {seen : List (Fin q.heap.size)}
    {best : Option (Fin q.heap.size)} (h : q.IsOldest deadline seen best) (i : Fin q.heap.size) :
    q.IsOldest deadline (seen ++ [i]) (q.older deadline best i) := by
  have hmem : ∀ j ∈ seen ++ [i], j ∈ seen ∨ j = i := fun j hj => by simpa using hj
  unfold SleepQueue.older
  by_cases hi : (q.entry i).deadline = deadline
  · rw [if_pos hi]
    cases best with
    | none =>
      refine ⟨hi, fun j hj hd => ?_⟩
      rcases hmem j hj with hj | rfl
      · exact absurd hd (h j hj)
      · exact Nat.le_refl _
    | some b =>
      by_cases hlt : (q.entry i).seq < (q.entry b).seq
      · simp only [hlt, if_true]
        refine ⟨hi, fun j hj hd => ?_⟩
        rcases hmem j hj with hj | rfl
        · exact Nat.le_trans (Nat.le_of_lt hlt) (h.2 j hj hd)
        · exact Nat.le_refl _
      · simp only [hlt, if_false]
        refine ⟨h.1, fun j hj hd => ?_⟩
        rcases hmem j hj with hj | rfl
        · exact h.2 j hj hd
        · exact Nat.le_of_not_lt hlt
  · rw [if_neg hi]
    cases best with
    | none =>
      intro j hj
      rcases hmem j hj with hj | rfl
      · exact h j hj
      · exact hi
    | some b =>
      refine ⟨h.1, fun j hj hd => ?_⟩
      rcases hmem j hj with hj | rfl
      · exact h.2 j hj hd
      · exact absurd hd hi

theorem IsOldest.foldl {deadline : Nat} : ∀ (rest : List (Fin q.heap.size))
    {seen : List (Fin q.heap.size)} {best : Option (Fin q.heap.size)},
    q.IsOldest deadline seen best →
    q.IsOldest deadline (seen ++ rest) (rest.foldl (q.older deadline) best)
  | [], _, _, h => by simpa using h
  | i :: rest, seen, best, h => by simpa using IsOldest.foldl rest (h.older i)

/-- The search for the oldest sleeper with a deadline looks at every place of the heap. -/
theorem isOldest_oldestAt? (q : SleepQueue) (deadline : Nat) :
    q.IsOldest deadline (List.finRange q.heap.size) (q.oldestAt? deadline) := by
  have hnone : q.IsOldest deadline [] none := fun i hi => by cases hi
  exact hnone.foldl (List.finRange q.heap.size)

/-- In the order of insertion the first sleeper with a property is the oldest one. -/
theorem Lists.seq_le_of_find? (h : q.Lists l) {p : Sleeper → Bool} {e a : Sleeper}
    (he : l.find? p = some e) (ha : a ∈ l) (hp : p a = true) : e.seq ≤ a.seq := by
  obtain ⟨-, before, behind, rfl, hbefore⟩ := List.find?_eq_some_iff_append.mp he
  rcases List.mem_append.mp ha with ha | ha
  · have := hbefore a ha
    simp [hp] at this
  · rcases List.mem_cons.mp ha with rfl | ha
    · exact Nat.le_refl _
    · have hsorted := (List.pairwise_append.mp h.sorted).2.1
      exact Nat.le_of_lt ((List.pairwise_cons.mp hsorted).1 a ha)

theorem Lists.remove_none (h : q.Lists l) {deadline : Nat}
    (hnone : l.find? (·.deadline == deadline) = none) :
    q.remove table deadline = pure (none, q, table) := by
  have hold := isOldest_oldestAt? q deadline
  unfold SleepQueue.remove
  cases hbest : q.oldestAt? deadline with
  | none => rfl
  | some b =>
    rw [hbest] at hold
    exact absurd (beq_iff_eq.mpr hold.1) (List.find?_eq_none.mp hnone _ (h.entry_mem b))

/-- The first sleeper in the list with the deadline is taken out. -/
theorem Lists.remove_some (h : q.Lists l) {deadline : Nat} {e : Sleeper}
    (he : l.find? (·.deadline == deadline) = some e) (hg : table.tag e.thread = .ok .asleep) :
    ∃ i : Fin q.heap.size, q.entry i = e ∧ q.remove table deadline =
      pure (some e.thread, q.without i, table.touch (some e.thread) Slot.unlinked) := by
  have hold := isOldest_oldestAt? q deadline
  have hel := List.mem_of_find?_eq_some he
  have hed : e.deadline = deadline := by simpa using List.find?_some he
  obtain ⟨j, hj⟩ := h.exists_entry hel
  unfold SleepQueue.remove
  cases hbest : q.oldestAt? deadline with
  | none =>
    rw [hbest] at hold
    exact absurd (by rw [hj, hed]) (hold j (List.mem_finRange _))
  | some b =>
    rw [hbest] at hold
    have hle : (q.entry b).seq ≤ e.seq := by
      have := hold.2 j (List.mem_finRange _) (by rw [hj, hed])
      rwa [hj] at this
    have hge : e.seq ≤ (q.entry b).seq :=
      h.seq_le_of_find? he (h.entry_mem b) (beq_iff_eq.mpr hold.1)
    have hbe : q.entry b = e :=
      List.inj_on_of_nodup_map h.seq_nodup (h.entry_mem b) hel (Nat.le_antisymm hle hge)
    refine ⟨b, hbe, ?_⟩
    rw [← hbe] at hg
    simp [take_of_tag b hg, hbe]

theorem Lists.removeThread_none (h : q.Lists l) (hnone : l.find? (·.thread == t) = none) :
    q.removeThread table t = pure (none, q, table) := by
  unfold SleepQueue.removeThread
  cases hfind : q.heap.findFinIdx? (·.thread == t) with
  | none => rfl
  | some i =>
    have hi := (Array.findFinIdx?_eq_some_iff.mp hfind).1
    exact absurd hi (List.find?_eq_none.mp hnone _ (h.entry_mem i))

/-- The sleeper of the thread is taken out. -/
theorem Lists.removeThread_some (h : q.Lists l) {e : Sleeper}
    (he : l.find? (·.thread == t) = some e) (hg : table.tag e.thread = .ok .asleep) :
    ∃ i : Fin q.heap.size, q.entry i = e ∧ q.removeThread table t =
      pure (some e.deadline, q.without i, table.touch (some e.thread) Slot.unlinked) := by
  have hel := List.mem_of_find?_eq_some he
  have het : e.thread = t := by simpa using List.find?_some he
  unfold SleepQueue.removeThread
  cases hfind : q.heap.findFinIdx? (·.thread == t) with
  | none =>
    have := Array.findFinIdx?_eq_none_iff.mp hfind e (h.mem_heap_iff.mpr hel)
    simp [het] at this
  | some i =>
    have hi : (q.entry i).thread = t := eq_of_beq (Array.findFinIdx?_eq_some_iff.mp hfind).1
    have hie : q.entry i = e := h.eq_of_thread (h.entry_mem i) hel (hi.trans het.symm)
    refine ⟨i, hie, ?_⟩
    rw [← hie] at hg
    simp [take_of_tag i hg, hie]

end SleepQueue
end PulseKernel
