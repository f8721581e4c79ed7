/-
# Who owns a thread

That a thread is on a queue is written down several times: in its tag, in the
links of its neighbours, in the ends of the queue, in an entry of a heap.
Whatever is done to queues that share a table, all of these agree
(`SharedTable.Consistent`): a thread is on one queue at most, its tag names that
queue, and nothing leads to a slot without a thread.

Key definitions: `SharedTable.Has`, `SharedTable.Refers`,
`SharedTable.Consistent`.
Key theorems: `Layout.run_consistent`.
-/
import PulseKernel.Proofs.SharedTable

namespace PulseKernel
namespace SharedTable

variable {ρ σ : Type}

/-- The threads met on the way from the head of a ready queue to its tail. -/
def walk (s : SharedTable ρ σ) (r : ρ) : Except Fault (List ThreadId) :=
  (s.ready r).members s.table

/-- The thread is on the ready queue or in the sleep queue. -/
def Has (s : SharedTable ρ σ) : ρ ⊕ σ → ThreadId → Prop
  | .inl r, t => ∃ l, s.walk r = .ok l ∧ t ∈ l
  | .inr w, t => ∃ e ∈ (s.sleep w).heap, e.thread = t

/-- Some queue or some slot, with or without a thread in it, leads to the thread. -/
inductive Refers (s : SharedTable ρ σ) (t : ThreadId) : Prop where
  | head (r : ρ) (h : (s.ready r).head = some t)
  | tail (r : ρ) (h : (s.ready r).tail = some t)
  | next (u : ThreadId) (slot : Slot) (hslot : s.table.slot? u = some slot)
    (h : slot.next = some t)
  | prev (u : ThreadId) (slot : Slot) (hslot : s.table.slot? u = some slot)
    (h : slot.prev = some t)
  | entry (w : σ) (e : Sleeper) (he : e ∈ (s.sleep w).heap) (h : e.thread = t)

/-- Tags, links, ends and heaps agree. -/
structure Consistent (s : SharedTable ρ σ) (L : Layout ρ σ) : Prop where
  /-- A thread has one owner at most. -/
  owner_unique : ∀ t a b, s.Has a t → s.Has b t → a = b
  /-- The threads tagged with a ready queue are those on it, and each of them is on it once. -/
  ready : ∀ r, ∃ l, s.walk r = .ok l ∧ l.Nodup ∧
    ∀ t, s.table.tag t = .ok (.ready (L.id r)) ↔ t ∈ l
  /-- No thread is tagged with a queue that there is not. -/
  ready_known : ∀ t q, s.table.tag t = .ok (.ready q) → ∃ r, L.id r = q
  /-- The threads tagged asleep are those with an entry in a heap, and each of them has one. -/
  asleep : ∀ t, s.table.tag t = .ok .asleep ↔
    ∃! place : (w : σ) × Fin (s.sleep w).heap.size, (s.sleep place.1).heap[place.2].thread = t
  /-- The other threads are on no queue. -/
  unqueued : ∀ t, s.table.tag t = .ok .unqueued ↔
    s.table.contains t = true ∧ ∀ a, ¬ s.Has a t
  /-- Who is on no queue has no links. -/
  unlinked : ∀ t slot, s.table.slot? t = some slot → slot.inUse = false ∨ slot.tag = .unqueued →
    slot.next = none ∧ slot.prev = none
  /-- Whatever leads to a thread leads to a registered one. -/
  registered : ∀ t, s.Refers t → s.table.contains t = true

variable {L : Layout ρ σ} {s : SharedTable ρ σ} {lines : ρ → List ThreadId}
  {naps : σ → List Sleeper} {r : ρ} {w : σ} {t : ThreadId}

theorem Accounts.walk_eq (h : Accounts L s lines naps) (r : ρ) : s.walk r = .ok (lines r) := by
  rw [walk, h.queue r]
  exact ReadyQueue.members_ofList (h.linedUp r)

theorem Accounts.has_inl_iff (h : Accounts L s lines naps) :
    s.Has (.inl r) t ↔ s.table.tag t = .ok (.ready (L.id r)) := by
  simp [Has, h.walk_eq r, h.mem_line_iff]

theorem Accounts.has_inr_iff (h : Accounts L s lines naps) :
    s.Has (.inr w) t ↔ t ∈ (naps w).map (·.thread) := by
  simp only [Has, (h.lists w).mem_heap_iff, List.mem_map]

/-- A sleeping thread has an entry at one place. -/
theorem Accounts.asleep_iff (h : Accounts L s lines naps) :
    s.table.tag t = .ok .asleep ↔
      ∃! place : (w : σ) × Fin (s.sleep w).heap.size,
        (s.sleep place.1).heap[place.2].thread = t := by
  have hentry : ∀ (w : σ) (i : Fin (s.sleep w).heap.size), (s.sleep w).heap[i] ∈ naps w :=
    fun w i => (h.lists w).entry_mem i
  constructor
  · intro hg
    obtain ⟨w, ht⟩ := h.asleep_of_tag t hg
    obtain ⟨e, he, rfl⟩ := List.mem_map.mp ht
    obtain ⟨i, hi⟩ := (h.lists w).exists_entry he
    refine ⟨⟨w, i⟩, congrArg Sleeper.thread hi, ?_⟩
    rintro ⟨w', j⟩ hj
    obtain rfl := h.apart w' w _ (List.mem_map.mpr ⟨_, hentry w' j, hj⟩) ht
    have hij : (s.sleep w').heap[j] = (s.sleep w').heap[i] :=
      ((h.lists w').eq_of_thread (hentry w' j) he hj).trans hi.symm
    exact Sigma.ext rfl (heq_of_eq ((h.lists w').entry_injective hij))
  · rintro ⟨⟨w, i⟩, hi, -⟩
    exact h.asleep w t (List.mem_map.mpr ⟨_, hentry w i, hi⟩)

/-- Two owners of a thread would give it two tags, or be two sleep queues. -/
theorem Accounts.owner_unique (h : Accounts L s lines naps) {a b : ρ ⊕ σ} (ha : s.Has a t)
    (hb : s.Has b t) : a = b := by
  have hdiff : ∀ r w, s.Has (.inl r) t → ¬ s.Has (.inr w) t := by
    intro r w hr hw
    have hg := h.asleep w t (h.has_inr_iff.mp hw)
    rw [h.has_inl_iff.mp hr] at hg
    cases hg
  cases a with
  | inl r =>
    cases b with
    | inl r' =>
      exact congrArg Sum.inl (h.line_unique (h.mem_line_iff.mpr (h.has_inl_iff.mp ha))
        (h.mem_line_iff.mpr (h.has_inl_iff.mp hb)))
    | inr w => exact absurd hb (hdiff r w ha)
  | inr w =>
    cases b with
    | inl r => exact absurd ha (hdiff r w hb)
    | inr w' => exact congrArg Sum.inr (h.apart w w' t (h.has_inr_iff.mp ha) (h.has_inr_iff.mp hb))

theorem Accounts.unqueued_iff (h : Accounts L s lines naps) :
    s.table.tag t = .ok .unqueued ↔ s.table.contains t = true ∧ ∀ a, ¬ s.Has a t := by
  rw [ThreadTable.contains_iff]
  constructor
  · intro hg
    refine ⟨⟨_, hg⟩, ?_⟩
    rintro (r | w) ha
    · simp [h.has_inl_iff.mp ha] at hg
    · simp [h.asleep w t (h.has_inr_iff.mp ha)] at hg
  · rintro ⟨⟨g, hg⟩, hnone⟩
    cases g with
    | unqueued => exact hg
    | asleep =>
      obtain ⟨w, ht⟩ := h.asleep_of_tag t hg
      exact absurd (h.has_inr_iff.mpr ht) (hnone _)
    | ready q =>
      obtain ⟨r, rfl, -⟩ := h.ready_of_tag t q hg
      exact absurd (h.has_inl_iff.mpr hg) (hnone _)

/-- A slot with links is the slot of a thread on a ready queue. -/
theorem Accounts.mem_line_of_link (h : Accounts L s lines naps) {u : ThreadId} {slot : Slot}
    (hslot : s.table.slot? u = some slot) (hlink : ¬ (slot.next = none ∧ slot.prev = none)) :
    ∃ r x y, lines r = x ++ u :: y ∧ slot.next = y.head? ∧ slot.prev = x.getLast? := by
  have hready : ∃ q, slot.tag = .ready q := by
    by_contra hnone
    exact hlink (h.tidy.unlinked u slot hslot (not_exists.mp hnone))
  obtain ⟨q, hq⟩ := hready
  have hused : slot.inUse = true := by
    by_contra hfree
    rw [h.tidy.vacant u slot hslot (by simpa using hfree)] at hq
    cases hq
  obtain ⟨r, -, hu⟩ := h.ready_of_tag u q (ThreadTable.tag_eq_ok.mpr ⟨slot, hslot, hused, hq⟩)
  obtain ⟨x, y, hl⟩ := List.append_of_mem hu
  obtain ⟨context, hs⟩ := (h.linedUp r).slot x u y hl
  rw [hslot] at hs
  obtain rfl := Option.some.inj hs
  exact ⟨r, x, y, hl, rfl, rfl⟩

theorem Accounts.registered (h : Accounts L s lines naps) (ht : s.Refers t) :
    s.table.contains t = true := by
  have hline : ∀ r, t ∈ lines r → s.table.contains t = true := fun r hr =>
    ThreadTable.contains_iff.mpr ⟨_, (h.linedUp r).tag hr⟩
  cases ht with
  | head r hhead =>
    rw [h.queue r] at hhead
    exact hline r (List.mem_of_head? hhead)
  | tail r htail =>
    rw [h.queue r] at htail
    exact hline r (List.mem_of_getLast? htail)
  | next u slot hslot hnext =>
    obtain ⟨r, x, y, hl, hy, -⟩ := h.mem_line_of_link hslot (by simp [hnext])
    have ht : t ∈ y := List.mem_of_head? (hy.symm.trans hnext)
    exact hline r (by simp [hl, ht])
  | prev u slot hslot hprev =>
    obtain ⟨r, x, y, hl, -, hx⟩ := h.mem_line_of_link hslot (by simp [hprev])
    have ht : t ∈ x := List.mem_of_getLast? (hx.symm.trans hprev)
    exact hline r (by simp [hl, ht])
  | entry w e he het =>
    have hmem : t ∈ (naps w).map (·.thread) :=
      List.mem_map.mpr ⟨e, (h.lists w).mem_heap_iff.mp he, het⟩
    exact ThreadTable.contains_iff.mpr ⟨_, h.asleep w t hmem⟩

theorem Accounts.consistent (h : Accounts L s lines naps) : s.Consistent L where
  owner_unique _ _ _ ha hb := h.owner_unique ha hb
  ready r := ⟨lines r, h.walk_eq r, (h.linedUp r).nodup, fun _ => h.mem_line_iff.symm⟩
  ready_known t q hg := by
    obtain ⟨r, hr, -⟩ := h.ready_of_tag t q hg
    exact ⟨r, hr⟩
  asleep _ := h.asleep_iff
  unqueued _ := h.unqueued_iff
  unlinked t slot hslot hfree := by
    have htag : slot.tag = .unqueued := hfree.elim (h.tidy.vacant t slot hslot) id
    exact h.tidy.unlinked t slot hslot (by simp [htag])
  registered _ ht := h.registered ht

end SharedTable

/-- Whatever is done with a table and any number of queues, one operation after the other, nothing
fails, and in the end tags, links, ends and heaps agree. -/
theorem Layout.run_consistent {ρ σ : Type} [DecidableEq ρ] [DecidableEq σ] (L : Layout ρ σ)
    (ops : List (Operation ρ σ)) :
    ∃ s, (L.fresh.run ops).result = .ok s ∧ s.Consistent L := by
  obtain ⟨s, lines, naps, hs, h⟩ := L.exists_accounts ops
  exact ⟨s, hs, h.consistent⟩

end PulseKernel
