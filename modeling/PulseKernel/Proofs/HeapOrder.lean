/-
# Heap repair keeps the order and the entries

A sift starts from a heap in which one entry may stand in the wrong place. All
pairs of an entry and its parent that do not touch that place are in order,
and the entries below the place are not less than the one above it
(`OrderedAround`). Sifting up mends the pair above the place, sifting down the
pairs below it. A removal does not know which of the two it needs and does
both: if the moved entry sinks, nothing is left for the second sift to do.

Nothing here needs the order to tell all entries apart: entries of one rank
may stand in any order.

Key definitions: `Heap.Ranked`, `Heap.InOrder`, `Heap.OrderedAround`.
Key theorems: `Heap.ordered_insert`, `Heap.perm_insert`, `Heap.ordered_removeAt`,
`Heap.perm_removeAt`, `Heap.Ordered.not_lt_root`.
-/
import Mathlib.Tactic.Set
import PulseKernel.Queue.Heap

namespace PulseKernel
namespace Heap

/-- An order by rank: of two entries at most one is less, and not being less is transitive. -/
class Ranked (α : Type) [LT α] : Prop where
  asymm {a b : α} : a < b → ¬ b < a
  not_lt_trans {a b c : α} : ¬ a < b → ¬ b < c → ¬ a < c

variable {α : Type} [LT α] {n : Nat}

theorem parent_le (j : Nat) : parent j ≤ j := by
  unfold parent
  omega

/-- The entry at `j` is not less than its parent. -/
def InOrder (v : Vector α n) (j : Nat) : Prop :=
  ∀ (_ : j < n) (_ : parent j < n), ¬ v[j] < v[parent j]

/-- The entries below `i` are not less than the one above it. -/
def Spans (v : Vector α n) (i : Nat) : Prop :=
  ∀ (j : Nat) (_ : j < n) (_ : parent i < n), j ≠ 0 → parent j = i → i ≠ 0 → ¬ v[j] < v[parent i]

/-- All entries are in order but those at `i` and below it, which span it. -/
structure OrderedAround (v : Vector α n) (i : Nat) : Prop where
  apart : ∀ j, j ≠ 0 → j ≠ i → parent j ≠ i → InOrder v j
  spans : Spans v i

theorem ordered_iff {v : Vector α n} : Ordered v.toArray ↔ ∀ j, InOrder v j := by
  simp only [Ordered, InOrder, Vector.size_toArray, Vector.getElem_toArray]

section Ranks

variable [Ranked α]

theorem not_lt_self (a : α) : ¬ a < a := fun h => Ranked.asymm h h

/-- What is not less than the greater of two entries is not less than the lesser one. -/
theorem not_lt_of_lt {a b c : α} (hab : a < b) (hcb : ¬ c < b) : ¬ c < a :=
  Ranked.not_lt_trans hcb (Ranked.asymm hab)

theorem inOrder_zero (v : Vector α n) : InOrder v 0 := fun _ _ => not_lt_self _

/-- No entry of an ordered heap is less than the one at the root. -/
theorem Ordered.not_lt_root {heap : Array α} (h : Ordered heap) :
    ∀ (i : Nat) (hi : i < heap.size), ¬ heap[i] < heap[0] := by
  intro i
  induction i using Nat.strongRecOn with
  | ind i ih =>
    intro hi
    by_cases hi0 : i = 0
    · subst hi0; exact not_lt_self _
    · have hpi := parent_lt hi0
      exact Ranked.not_lt_trans (h i hi (by omega)) (ih (parent i) hpi (by omega))

/-! ### One step of a sift -/

/-- Moving the entry up leaves it as the only one that may be less than its parent. -/
theorem siftUp_step {v : Vector α n} {i p : Nat} (hi : i < n) (hp : p < n) (h0 : i ≠ 0)
    (hip : parent i = p) (hoff : ∀ j, j ≠ i → InOrder v j) (hspan : Spans v i)
    (hlt : v[i] < v[p]) :
    (∀ j, j ≠ p → InOrder (v.swap i p) j) ∧ Spans (v.swap i p) p := by
  have hpi : p < i := hip ▸ parent_lt h0
  constructor
  · intro j hjp hj hpj
    by_cases hj0 : j = 0
    · subst hj0; exact not_lt_self _
    by_cases hji : j = i
    · subst hji
      simp only [hip, Vector.getElem_swap_left, Vector.getElem_swap_right]
      exact Ranked.asymm hlt
    by_cases hpji : parent j = i
    · have := hspan j hj (by omega) hj0 hpji h0
      simp only [hip] at this
      simpa only [hpji, Vector.getElem_swap_left, Vector.getElem_swap_of_ne hji hjp] using this
    by_cases hpjp : parent j = p
    · -- the other child of the parent
      have := hoff j hji hj hpj
      simp only [hpjp] at this
      simp only [hpjp, Vector.getElem_swap_right, Vector.getElem_swap_of_ne hji hjp]
      exact not_lt_of_lt hlt this
    · simp only [Vector.getElem_swap_of_ne hji hjp, Vector.getElem_swap_of_ne hpji hpjp]
      exact hoff j hji hj hpj
  · intro j hj hpp hj0 hpj hp0
    have hpplt := parent_lt hp0
    have htop : ¬ v[p] < v[parent p] := hoff p (by omega) hp hpp
    have habove : (v.swap i p)[parent p] = v[parent p] :=
      Vector.getElem_swap_of_ne (by omega) (by omega)
    rw [habove]
    by_cases hji : j = i
    · subst hji
      simpa only [Vector.getElem_swap_left] using htop
    · have hjp : j ≠ p := by have := parent_lt hj0; omega
      have := hoff j hji hj (by omega)
      simp only [hpj] at this
      simp only [Vector.getElem_swap_of_ne hji hjp]
      exact Ranked.not_lt_trans this htop

/-- Moving a child up that is not greater than its parent and the other child mends the parent's
place, and what may be out of order lies below the child's. -/
theorem siftDown_step {v : Vector α n} {i c : Nat} (hi : i < n) (hc : c < n)
    (hv : OrderedAround v i) (hpc : parent c = i) (hic : i < c)
    (hleast : ∀ j (hj : j < n), j = i ∨ j ≠ 0 ∧ parent j = i → ¬ v[j] < v[c]) :
    (∀ j, parent j ≠ c → InOrder (v.swap i c) j) ∧ Spans (v.swap i c) c := by
  constructor
  · intro j hpjc hj hpj
    by_cases hj0 : j = 0
    · subst hj0; exact not_lt_self _
    have hpjlt := parent_lt hj0
    by_cases hji : j = i
    · subst hji
      simp only [Vector.getElem_swap_left,
        Vector.getElem_swap_of_ne (show parent j ≠ j by omega) (show parent j ≠ c by omega)]
      exact hv.spans c hc hpj (by omega) hpc hj0
    by_cases hjc : j = c
    · subst hjc
      simp only [hpc, Vector.getElem_swap_left, Vector.getElem_swap_right]
      exact hleast i hi (Or.inl rfl)
    by_cases hpji : parent j = i
    · -- the other child
      simp only [hpji, Vector.getElem_swap_left, Vector.getElem_swap_of_ne hji hjc]
      exact hleast j hj (Or.inr ⟨hj0, hpji⟩)
    · simp only [Vector.getElem_swap_of_ne hji hjc, Vector.getElem_swap_of_ne hpji hpjc]
      exact hv.apart j hj0 hji hpji hj hpj
  · intro j hj hpc' hj0 hpj hc0
    have hjc := parent_lt hj0
    simp only [hpc, Vector.getElem_swap_left,
      Vector.getElem_swap_of_ne (show j ≠ i by omega) (show j ≠ c by omega)]
    have := hv.apart j hj0 (by omega) (by omega) hj (by omega)
    simpa only [hpj] using this

/-- The heap with the entry at `i` replaced is ordered around it. -/
theorem orderedAround_of_replaced {heap rest : Array α} (h : Ordered heap) {i : Nat}
    (hsize : rest.size ≤ heap.size)
    (hrest : ∀ j (hj : j < rest.size), j ≠ i → rest[j] = heap[j]) :
    OrderedAround rest.toVector i := by
  constructor
  · intro j hj0 hji hpji hj hpj
    simp only [Vector.getElem_mk, hrest j hj hji, hrest (parent j) hpj hpji]
    exact h j (by omega) (by omega)
  · intro j hj hpi hj0 hpj hi0
    have hji := parent_lt hj0
    have hpilt := parent_lt hi0
    simp only [Vector.getElem_mk, hrest j hj (by omega), hrest (parent i) hpi (by omega)]
    have h₁ := h j (by omega) (by omega)
    have h₂ := h i (by omega) (by omega)
    simp only [hpj] at h₁
    exact Ranked.not_lt_trans h₁ h₂

end Ranks

variable [DecidableLT α]

/-! ### The sifts only swap -/

theorem perm_siftUp (v : Vector α n) (i : Fin n) : (siftUp v i).Perm v := by
  induction v, i using siftUp.induct with
  | case1 v i h =>
    rw [siftUp, dif_pos h]
  | case2 v i h above hlt ih =>
    rw [siftUp, dif_neg h, if_pos hlt]
    exact ih.trans (Vector.swap_perm _ _)
  | case3 v i h above hlt =>
    rw [siftUp, dif_neg h, if_neg hlt]

theorem perm_siftDown (v : Vector α n) (i : Fin n) : (siftDown v i).Perm v := by
  induction v, i using siftDown.induct with
  | case1 v i least h =>
    rw [siftDown, dif_pos h]
  | case2 v i least h ih =>
    rw [siftDown, dif_neg h]
    exact ih.trans (Vector.swap_perm _ _)

/-- An ordered heap has nothing to sift up. -/
theorem siftUp_of_ordered {v : Vector α n} (h : Ordered v.toArray) (i : Fin n) :
    siftUp v i = v := by
  rw [siftUp]
  split
  · rfl
  · exact if_neg (ordered_iff.mp h i i.isLt (Nat.lt_of_le_of_lt (parent_le i) i.isLt))

/-- The lesser of two entries: the second one if it is less, and the first one if not. -/
theorem lesser_cases (v : Vector α n) (i : Fin n) (j : Nat) :
    (lesser v i j = i ∧ ∀ hj : j < n, ¬ v[j] < v.get i) ∨
      ∃ hj : j < n, lesser v i j = ⟨j, hj⟩ ∧ v[j] < v.get i := by
  unfold lesser
  by_cases hj : j < n
  · by_cases hlt : v[j] < v[i]
    · exact Or.inr ⟨hj, by rw [dif_pos hj, if_pos hlt], hlt⟩
    · exact Or.inl ⟨by rw [dif_pos hj, if_neg hlt], fun _ => hlt⟩
  · exact Or.inl ⟨dif_neg hj, fun h => absurd h hj⟩

/-- The least of an entry and its children, if it is another one, is a child. -/
theorem parent_leastBelow (v : Vector α n) (i : Fin n) (h : leastBelow v i ≠ i) :
    parent (leastBelow v i) = i := by
  have hlt := lt_leastBelow v i h
  rw [Fin.lt_def] at hlt
  have h₁ : (lesser v i (2 * i + 1)).val = i ∨ (lesser v i (2 * i + 1)).val = 2 * i + 1 :=
    (lesser_eq v i (2 * i + 1)).imp_left (congrArg Fin.val)
  have h₂ : (leastBelow v i).val = (lesser v i (2 * i + 1)).val ∨
      (leastBelow v i).val = 2 * i + 2 :=
    (lesser_eq v (lesser v i (2 * i + 1)) (2 * i + 2)).imp_left (congrArg Fin.val)
  unfold parent
  omega

variable [Ranked α]

/-! ### Sifting up -/

/-- Sifting an entry up mends a heap in which only it may be less than its parent. -/
theorem ordered_siftUp (v : Vector α n) (i : Fin n) (hoff : ∀ j, j ≠ i.val → InOrder v j)
    (hspan : Spans v i) : Ordered (siftUp v i).toArray := by
  induction v, i using siftUp.induct with
  | case1 v i h =>
    rw [siftUp, dif_pos h, ordered_iff]
    intro j
    by_cases hj : j = i
    · rw [hj, h]; exact inOrder_zero v
    · exact hoff j hj
  | case2 v i h above hlt ih =>
    rw [siftUp, dif_neg h, if_pos hlt]
    obtain ⟨h₁, h₂⟩ := siftUp_step i.isLt above.isLt h rfl hoff hspan hlt
    exact ih h₁ h₂
  | case3 v i h above hlt =>
    rw [siftUp, dif_neg h, if_neg hlt, ordered_iff]
    intro j
    by_cases hj : j = i
    · subst hj; exact fun _ _ => hlt
    · exact hoff j hj

/-! ### Sifting down -/

theorem lesser_not_lt (v : Vector α n) (i : Fin n) (j : Nat) :
    ¬ v.get i < v.get (lesser v i j) := by
  rcases lesser_cases v i j with ⟨e, -⟩ | ⟨hj, e, hlt⟩
  · rw [e]
    exact not_lt_self _
  · rw [e]
    exact Ranked.asymm hlt

theorem not_lt_lesser (v : Vector α n) (i : Fin n) {j : Nat} (hj : j < n) :
    ¬ v[j] < v.get (lesser v i j) := by
  rcases lesser_cases v i j with ⟨e, h⟩ | ⟨_, e, -⟩
  · rw [e]
    exact h hj
  · rw [e]
    exact not_lt_self _

/-- Neither the entry at `i` nor one of its children is less than the least of them. -/
theorem not_lt_leastBelow (v : Vector α n) (i : Fin n) {j : Nat} (hj : j < n)
    (h : j = i ∨ j ≠ 0 ∧ parent j = i) : ¬ v[j] < v.get (leastBelow v i) := by
  have hlast := lesser_not_lt v (lesser v i (2 * i + 1)) (2 * i + 2)
  have hcases : j = i ∨ j = 2 * i + 1 ∨ j = 2 * i + 2 := by
    unfold parent at h
    omega
  rcases hcases with rfl | rfl | rfl
  · exact Ranked.not_lt_trans (lesser_not_lt v i _) hlast
  · exact Ranked.not_lt_trans (not_lt_lesser v i hj) hlast
  · exact not_lt_lesser v _ hj

/-- If the entry at `i` is the least, the entries below it are in order. -/
theorem inOrder_of_leastBelow {v : Vector α n} {i : Fin n} (h : leastBelow v i = i) {j : Nat}
    (hj0 : j ≠ 0) (hpj : parent j = i) : InOrder v j := by
  intro hj _
  have hlt := not_lt_leastBelow v i hj (Or.inr ⟨hj0, hpj⟩)
  rw [h] at hlt
  simp only [hpj]
  exact hlt

/-- An entry that is not the least of itself and its children changes places with the least. -/
theorem sinks {v : Vector α n} {i least : Fin n} (hv : OrderedAround v i)
    (hleast : leastBelow v i = least) (h : least ≠ i) :
    (∀ j, parent j ≠ least → InOrder (v.swap i least i.isLt least.isLt) j) ∧
      Spans (v.swap i least i.isLt least.isLt) least := by
  subst hleast
  exact siftDown_step i.isLt (leastBelow v i).isLt hv (parent_leastBelow v i h)
    (lt_leastBelow v i h) fun _ hj hj' => not_lt_leastBelow v i hj hj'

/-- Sifting an entry down mends a heap in which only the entries below it may be less than it. -/
theorem ordered_siftDown (v : Vector α n) (i : Fin n) (hoff : ∀ j, parent j ≠ i → InOrder v j)
    (hspan : Spans v i) : Ordered (siftDown v i).toArray := by
  induction v, i using siftDown.induct with
  | case1 v i least h =>
    rw [siftDown, dif_pos h, ordered_iff]
    intro j
    by_cases hpj : parent j = i
    · by_cases hj0 : j = 0
      · rw [hj0]; exact inOrder_zero v
      · exact inOrder_of_leastBelow h hj0 hpj
    · exact hoff j hpj
  | case2 v i least h ih =>
    rw [siftDown, dif_neg h]
    obtain ⟨h₁, h₂⟩ := sinks ⟨fun j _ _ hpj => hoff j hpj, hspan⟩ rfl h
    exact ih h₁ h₂

/-- Both sifts from one place mend a heap that is ordered around it. -/
theorem ordered_siftUp_siftDown {v : Vector α n} {i : Fin n} (hv : OrderedAround v i) :
    Ordered (siftUp (siftDown v i) i).toArray := by
  by_cases h : leastBelow v i = i
  · -- the entry does not sink, so only the pair above it is left
    rw [siftDown, dif_pos h]
    refine ordered_siftUp v i (fun j hji => ?_) hv.spans
    by_cases hj0 : j = 0
    · rw [hj0]; exact inOrder_zero v
    by_cases hpj : parent j = i
    · exact inOrder_of_leastBelow h hj0 hpj
    · exact hv.apart j hj0 hji hpj
  · obtain ⟨h₁, h₂⟩ := sinks hv rfl h
    have hord : Ordered (siftDown v i).toArray := by
      rw [siftDown, dif_neg h]
      exact ordered_siftDown _ _ h₁ h₂
    rw [siftUp_of_ordered hord]
    exact hord

/-! ### Adding and removing -/

omit [Ranked α] in
/-- An added entry joins the others. -/
theorem perm_insert (heap : Array α) (a : α) :
    (insert heap a).toList.Perm (heap.toList ++ [a]) := by
  simpa [insert] using (perm_siftUp (heap.push a).toVector ⟨heap.size, by simp⟩).toArray.toList

theorem ordered_insert {heap : Array α} (h : Ordered heap) (a : α) : Ordered (insert heap a) := by
  refine ordered_siftUp _ _ (fun j hji hj _ => ?_) (fun j hj _ _ hpj _ => ?_)
  · have hj' : j < heap.size := by
      have : j < heap.size + 1 := by simpa using hj
      exact Nat.lt_of_le_of_ne (Nat.le_of_lt_succ this) hji
    have hpj : parent j < heap.size := Nat.lt_of_le_of_lt (parent_le j) hj'
    simp only [Vector.getElem_mk, Array.getElem_push_lt hj', Array.getElem_push_lt hpj]
    exact h j hj' hpj
  · -- the new entry is the last one and has nothing below it
    have : j < heap.size + 1 := by simpa using hj
    simp only [parent] at hpj
    omega

omit [Ranked α] in
/-- A removal takes out the entry at its place and no other. -/
theorem perm_removeAt (heap : Array α) (i : Fin heap.size) :
    heap.toList.Perm (heap[i] :: (removeAt heap i).toList) := by
  have hi := i.isLt
  set swapped := heap.swap i (heap.size - 1) i.isLt (by omega) with hswapped
  have hlast : swapped.toList = swapped.pop.toList ++ [heap[i]] := by
    have hne : swapped.toList ≠ [] := List.ne_nil_of_length_pos (by simp [hswapped]; omega)
    rw [Array.toList_pop, ← List.dropLast_concat_getLast hne]
    simp [hswapped, List.getLast_eq_getElem]
  have hrest : (removeAt heap i).toList.Perm swapped.pop.toList := by
    simp only [removeAt]
    split
    · exact (((perm_siftUp _ _).trans (perm_siftDown _ _)).toArray).toList
    · exact List.Perm.refl _
  calc heap.toList
      _ |>.Perm swapped.toList := (heap.swap_perm i.isLt (by omega)).toList.symm
      _ |>.Perm (heap[i] :: swapped.pop.toList) := by
        rw [hlast]; exact List.perm_append_singleton _ _
      _ |>.Perm (heap[i] :: (removeAt heap i).toList) := hrest.symm.cons _

theorem ordered_removeAt {heap : Array α} (h : Ordered heap) (i : Fin heap.size) :
    Ordered (removeAt heap i) := by
  have hi := i.isLt
  simp only [removeAt]
  split
  · rename_i hlt
    refine ordered_siftUp_siftDown (orderedAround_of_replaced h (by simp) fun j hj hji => ?_)
    simp only [Array.size_pop, Array.size_swap] at hj
    rw [Array.getElem_pop, Array.getElem_swap_of_ne hji (by omega)]
  · rename_i hge
    simp only [Array.size_pop, Array.size_swap] at hge
    intro j hj hpj
    simp only [Array.size_pop, Array.size_swap] at hj hpj
    simp only [Array.getElem_pop]
    rw [Array.getElem_swap_of_ne (by omega) (by omega),
      Array.getElem_swap_of_ne (by omega) (by omega)]
    exact h j (by omega) (by omega)

end Heap
end PulseKernel
