/-
# A stable priority queue

In every state that queues over one table can come to, a sleep queue is a list
of deadlines and threads in the order in which they were inserted: it answers as
that list does (`SharedTable.ShowsPairs`), a thread that falls asleep is added at
the end, and of several sleepers with the wanted deadline the first one in the
list is woken (`SharedTable.ActsStable`). The heap keeps its order under all of
this, and no two of its entries are equal in it.

Key definitions: `SharedTable.ShowsPairs`, `SharedTable.ActsStable`.
Key theorems: `Layout.run_actsStable`.
-/
import PulseKernel.Proofs.SharedTable

namespace PulseKernel
namespace SharedTable

variable {ρ σ : Type} {L : Layout ρ σ} {s : SharedTable ρ σ} {lines : ρ → List ThreadId}
  {naps : σ → List Sleeper} {l : List (Nat × ThreadId)} {w : σ} {t : ThreadId}

/-- Whatever is asked of the sleep queue, it answers as this list would, and its heap is in
order. -/
structure ShowsPairs (s : SharedTable ρ σ) (w : σ) (l : List (Nat × ThreadId)) : Prop where
  pairs : (s.sleep w).pairs = l
  distinct : (l.map (·.2)).Nodup
  earliest? : (s.sleep w).earliest? = (l.map (·.1)).min?
  deadlineOf? : ∀ t, (s.sleep w).deadlineOf? t = (l.find? (·.2 == t)).map (·.1)
  contains : ∀ t, (s.sleep w).contains t = true ↔ t ∈ l.map (·.2)
  size : (s.sleep w).size = l.length
  isEmpty : (s.sleep w).isEmpty = l.isEmpty
  ordered : Heap.Ordered (s.sleep w).heap
  seq_nodup : ((s.sleep w).heap.toList.map (·.seq)).Nodup
  seq_lt : ∀ e ∈ (s.sleep w).heap, e.seq < (s.sleep w).nextSeq
  /-- No two entries are equal in the order of the heap. -/
  strict : (s.sleep w).heap.toList.Pairwise fun a b => a < b ∨ b < a

theorem Accounts.showsPairs (h : Accounts L s lines naps) (hl : (naps w).map Sleeper.pair = l) :
    s.ShowsPairs w l := by
  subst hl
  have hlists := h.lists w
  have hseq : ((s.sleep w).heap.toList.map (·.seq)).Nodup :=
    (hlists.perm.map _).nodup_iff.mpr hlists.seq_nodup
  constructor
  case pairs => exact hlists.pairs_eq
  case distinct => simpa [Function.comp_def] using hlists.distinct
  case earliest? => simpa [Function.comp_def] using hlists.earliest?_eq
  case deadlineOf? =>
    intro t
    rw [hlists.deadlineOf?_eq, List.find?_map, Option.map_map]
    rfl
  case contains =>
    intro t
    rw [hlists.contains_iff]
    simp [Function.comp_def]
  case size => simpa using hlists.size_eq
  case isEmpty => simpa using hlists.isEmpty_eq
  case ordered => exact hlists.ordered
  case seq_nodup => exact hseq
  case seq_lt => exact fun e he => hlists.fresh e (hlists.mem_heap_iff.mp he)
  case strict =>
    refine (List.pairwise_map.mp hseq).imp fun {a b} hab => ?_
    simp only [Sleeper.lt_iff]
    omega

/-- A pair of the list is the pair of a sleeper. -/
theorem exists_sleeper {naps : List Sleeper} {x y : List (Nat × ThreadId)} {p : Nat × ThreadId}
    (hl : naps.map Sleeper.pair = x ++ p :: y) :
    ∃ x' e y', naps = x' ++ e :: y' ∧ x'.map Sleeper.pair = x ∧ e.pair = p ∧
      y'.map Sleeper.pair = y := by
  obtain ⟨x', z, rfl, hx, hz⟩ := List.map_eq_append_iff.mp hl
  obtain ⟨e, y', rfl, he, hy⟩ := List.map_eq_cons_iff.mp hz
  exact ⟨x', e, y', rfl, hx, he, hy⟩

/-- A sleeper that is taken out leaves the others in their order. -/
theorem Accounts.erase_eq (h : Accounts L s lines naps) {x y : List Sleeper} {e : Sleeper}
    (hl : naps w = x ++ e :: y) : (naps w).erase e = x ++ y := by
  have hnodup : (naps w).Nodup := .of_map _ (h.lists w).distinct
  rw [hl] at hnodup ⊢
  have he : e ∉ x := fun hx => (List.nodup_append.mp hnodup).2.2 e hx e (by simp) rfl
  rw [List.erase_append_right _ he, List.erase_cons_head]

variable [DecidableEq ρ] [DecidableEq σ]

/-- The sleep queue shows this list, and every operation changes it as it should. -/
structure ActsStable (s : SharedTable ρ σ) (L : Layout ρ σ) (w : σ)
    (l : List (Nat × ThreadId)) : Prop extends s.ShowsPairs w l where
  /-- A free thread is added at the end if there is room. -/
  insert : ∀ deadline t, s.table.tag t = .ok .unqueued → l.length < L.room w →
    ∃ s', (s.insert w deadline t).result = .ok (.ok (), s') ∧ s'.ShowsPairs w (l ++ [(deadline, t)])
  insert_refused : ∀ deadline t, ¬ (s.table.tag t = .ok .unqueued ∧ l.length < L.room w) →
    ∃ refusal, (s.insert w deadline t).result = .ok (.error refusal, s)
  /-- Of the pairs with the deadline the first one leaves. -/
  expire : ∀ deadline x t y, l = x ++ (deadline, t) :: y → (∀ p ∈ x, p.1 ≠ deadline) →
    ∃ s', (s.expire w deadline).result = .ok (some t, s') ∧ s'.ShowsPairs w (x ++ y)
  expire_none : ∀ deadline, (∀ p ∈ l, p.1 ≠ deadline) →
    (s.expire w deadline).result = .ok (none, s)
  removeThread : ∀ deadline x t y, l = x ++ (deadline, t) :: y →
    ∃ s', (s.removeThread w t).result = .ok (some deadline, s') ∧ s'.ShowsPairs w (x ++ y)
  removeThread_none : ∀ t, t ∉ l.map (·.2) → (s.removeThread w t).result = .ok (none, s)
  /-- No operation on the table or on another queue changes the list. -/
  other : ∀ op : Operation ρ σ, op.sleep? ≠ some w →
    ∃ s', (s.step op).result = .ok s' ∧ s'.ShowsPairs w l

theorem Accounts.actsStable (h : Accounts L s lines naps) (w : σ) :
    s.ActsStable L w ((naps w).map Sleeper.pair) := by
  constructor
  case toShowsPairs => exact h.showsPairs rfl
  case insert =>
    intro deadline t hg hroom
    obtain ⟨s', hs, h'⟩ := h.insert w deadline hg (by simpa using hroom)
    exact ⟨s', hs, h'.showsPairs (by simp [Sleeper.pair])⟩
  case insert_refused =>
    intro deadline t hbusy
    exact h.insert_refused w deadline (by simpa using hbusy)
  case expire =>
    intro deadline x t y hl hx
    obtain ⟨x', e, y', hl', rfl, he, rfl⟩ := exists_sleeper hl
    obtain ⟨rfl, rfl⟩ := Prod.mk.inj he
    have hfirst : (naps w).find? (·.deadline == e.deadline) = some e := by
      refine List.find?_eq_some_iff_append.mpr ⟨beq_self_eq_true _, x', y', hl', fun a ha => ?_⟩
      simpa using hx a.pair (List.mem_map_of_mem ha)
    obtain ⟨s', hs, h', -⟩ := h.expire_some hfirst
    exact ⟨s', hs, h'.showsPairs (by simp [h.erase_eq hl'])⟩
  case expire_none =>
    intro deadline hnone
    refine h.expire_none (List.find?_eq_none.mpr fun e he => ?_)
    simpa using hnone e.pair (List.mem_map_of_mem he)
  case removeThread =>
    intro deadline x t y hl
    obtain ⟨x', e, y', hl', rfl, he, rfl⟩ := exists_sleeper hl
    obtain ⟨rfl, rfl⟩ := Prod.mk.inj he
    have hfind := (h.lists w).find?_thread (e := e) (by simp [hl'])
    obtain ⟨s', hs, h', -⟩ := h.removeThread_some hfind
    exact ⟨s', hs, h'.showsPairs (by simp [h.erase_eq hl'])⟩
  case removeThread_none =>
    intro t ht
    refine h.removeThread_none (List.find?_eq_none.mpr fun e he het => ht ?_)
    exact List.mem_map.mpr ⟨e.pair, List.mem_map_of_mem he, eq_of_beq het⟩
  case other =>
    intro op hop
    obtain ⟨s', lines', naps', hs, h', -, hnaps⟩ := h.step op
    exact ⟨s', hs, h'.showsPairs (by rw [hnaps w hop])⟩

end SharedTable

/-- The sleep queues are empty at first, and whatever has been done with a table and its queues,
each of them is a list of deadlines and threads in the order of insertion. -/
theorem Layout.run_actsStable {ρ σ : Type} [DecidableEq ρ] [DecidableEq σ] (L : Layout ρ σ)
    (ops : List (Operation ρ σ)) :
    (∀ w, (L.fresh.sleep w).pairs = []) ∧
      ∃ s, (L.fresh.run ops).result = .ok s ∧ ∀ w, s.ActsStable L w (s.sleep w).pairs := by
  obtain ⟨s, lines, naps, hs, h⟩ := L.exists_accounts ops
  refine ⟨((SharedTable.Accounts.fresh L).lists · |>.pairs_eq), s, hs, fun w => ?_⟩
  rw [(h.lists w).pairs_eq]
  exact h.actsStable w

end PulseKernel
