/-
# Heap repair ends, and stays in the heap

A sift is a loop over the positions of an array. `Heap.siftUp` and `Heap.siftDown` have it built in
that every position is in the heap and that the loop ends. Here the loops stand without either:
each position is looked up where it is used, and the turns of a loop are counted. Such a loop has
an answer only if it looks up no position outside of the heap and ends in time.

One turn up halves the position and one turn down doubles it, so there are no more turns than the
size of the heap has binary digits. In so many turns the loops have an answer, ordered heap or not,
and it is that of the loops that have both built in. So whatever place of an ordered heap an
entry is taken from, and whatever entry is added, what is known of `Heap.removeAt` and `Heap.insert`
is known of what the repair leaves.

Key definitions: `Heap.siftUp?`, `Heap.siftDown?`, `Heap.removeAt?`, `Heap.insert?`.
Key theorems: `Heap.siftUp?_eq`, `Heap.siftDown?_eq`, `Heap.removeAt?_eq`, `Heap.insert?_eq`,
`Heap.sleepers_repaired`.
-/
import Mathlib.Tactic.Ring
import PulseKernel.Proofs.SleepOrder

namespace PulseKernel
namespace Heap

variable {α : Type} [LT α] [DecidableLT α] {n : Nat}

/-! ### Loops that look up every position -/

/-- Exchanges the entries at two positions of the heap. -/
def swap? (heap : Array α) (i j : Nat) : Option (Array α) :=
  if h : i < heap.size ∧ j < heap.size then some (heap.swap i j h.1 h.2) else none

/-- Moves the entry at a position up until its parent is not greater. There is no answer if a
position is not in the heap, and none if more turns are needed. -/
def siftUp? : Nat → Array α → Nat → Option (Array α)
  | 0, _, _ => none
  | turns + 1, heap, i =>
    if i = 0 then some heap
    else do
      let entry ← heap[i]?
      let above ← heap[parent i]?
      if entry < above then
        let heap ← swap? heap i (parent i)
        siftUp? turns heap (parent i)
      else return heap

/-- The position of the lesser of two entries; the second one may lie behind the end. -/
def lesser? (size : Nat) (heap : Array α) (i j : Nat) : Option Nat :=
  if j < size then do
    let second ← heap[j]?
    let first ← heap[i]?
    return if second < first then j else i
  else some i

/-- Moves the entry at a position down until no child is less, where the heap had this size before
the first turn. There is no answer if a position is not in the heap, and none if more turns are
needed. -/
def siftDown? (size : Nat) : Nat → Array α → Nat → Option (Array α)
  | 0, _, _ => none
  | turns + 1, heap, i => do
    let least ← lesser? size heap i (2 * i + 1)
    let least ← lesser? size heap least (2 * i + 2)
    if least = i then return heap
    else
      let heap ← swap? heap i least
      siftDown? size turns heap least

/-- Takes the entry at a position out and puts the last one into its place. -/
def swapRemove? (heap : Array α) (i : Nat) : Option (α × Array α) := do
  let entry ← heap[i]?
  let last ← heap.back?
  return (entry, (heap.setIfInBounds i last).pop)

/-- Takes the entry at a position out and repairs the heap from there, first down and then up, in
so many turns each. -/
def removeAt? (turns : Nat) (heap : Array α) (i : Nat) : Option (α × Array α) := do
  let (entry, rest) ← swapRemove? heap i
  if i < rest.size then
    let rest ← siftDown? rest.size turns rest i
    let rest ← siftUp? turns rest i
    return (entry, rest)
  else return (entry, rest)

/-- Adds an entry at the end and repairs the heap from there, in so many turns. -/
def insert? (turns : Nat) (heap : Array α) (a : α) : Option (Array α) :=
  siftUp? turns (heap.push a) ((heap.push a).size - 1)

/-! ### They have an answer -/

omit [LT α] [DecidableLT α] in
theorem lookup_eq (v : Vector α n) {i : Nat} (hi : i < n) : v.toArray[i]? = some v[i] := by
  rw [Vector.getElem?_toArray, Vector.getElem?_eq_getElem hi]

omit [LT α] [DecidableLT α] in
theorem swap?_eq (v : Vector α n) {i j : Nat} (hi : i < n) (hj : j < n) :
    swap? v.toArray i j = some (v.swap i j hi hj).toArray := by
  have hij : i < v.toArray.size ∧ j < v.toArray.size := by
    rw [Vector.size_toArray]
    exact ⟨hi, hj⟩
  rw [swap?, dif_pos hij, Vector.toArray_swap]

/-- A turn up looks at the entry and at its parent. -/
theorem siftUp?_succ (turns : Nat) (v : Vector α n) {i : Nat} (h0 : i ≠ 0) (hi : i < n)
    (hp : parent i < n) :
    siftUp? (turns + 1) v.toArray i =
      if v[i] < v[parent i] then siftUp? turns (v.swap i (parent i) hi hp).toArray (parent i)
      else some v.toArray := by
  rw [siftUp?, if_neg h0]
  simp only [lookup_eq v hi, lookup_eq v hp, swap?_eq v hi hp, Option.bind_eq_bind,
    Option.bind_some, Option.pure_def]

/-- An entry goes up in so many turns, if its position, halved so often, is the root. -/
theorem siftUp?_eq (turns : Nat) (v : Vector α n) (i : Fin n) (h : i.val + 1 < 2 ^ turns) :
    siftUp? turns v.toArray i = some (siftUp v i).toArray := by
  induction v, i using siftUp.induct generalizing turns with
  | case1 v i h0 =>
    cases turns with
    | zero => simp at h
    | succ turns => rw [siftUp?, if_pos h0, siftUp, dif_pos h0]
  | case2 v i h0 above hlt ih =>
    cases turns with
    | zero => simp at h
    | succ turns =>
      have habove : above.val + 1 < 2 ^ turns := by
        have hval : above.val = (i.val - 1) / 2 := rfl
        rw [Nat.pow_succ] at h
        omega
      rw [siftUp?_succ turns v h0 i.isLt above.isLt, siftUp, dif_neg h0, if_pos hlt]
      exact (if_pos hlt).trans (ih turns habove)
  | case3 v i h0 above hlt =>
    cases turns with
    | zero => simp at h
    | succ turns =>
      rw [siftUp?_succ turns v h0 i.isLt above.isLt, siftUp, dif_neg h0, if_neg hlt]
      exact if_neg hlt

theorem lesser?_eq (v : Vector α n) (i : Fin n) (j : Nat) :
    lesser? n v.toArray i j = some (lesser v i j).val := by
  unfold lesser? lesser
  by_cases hj : j < n
  · have hfirst : v.toArray[i.val]? = some v[i] := lookup_eq v i.isLt
    simp only [if_pos hj, dif_pos hj, lookup_eq v hj, hfirst, Option.bind_eq_bind,
      Option.bind_some, Option.pure_def, apply_ite Fin.val]
  · rw [if_neg hj, dif_neg hj]

/-- A turn down looks at the entry and at its children. -/
theorem siftDown?_succ (turns : Nat) (v : Vector α n) (i : Fin n) :
    siftDown? n (turns + 1) v.toArray i =
      if leastBelow v i = i then some v.toArray
      else siftDown? n turns (v.swap i (leastBelow v i) i.isLt (leastBelow v i).isLt).toArray
        (leastBelow v i) := by
  have hleast : lesser? n v.toArray (lesser v i (2 * i + 1)) (2 * i + 2) =
      some (leastBelow v i).val := lesser?_eq v _ _
  have hswap := swap?_eq v i.isLt (leastBelow v i).isLt
  rw [siftDown?, lesser?_eq]
  simp only [hleast, hswap, Option.bind_eq_bind, Option.bind_some, Option.pure_def, Fin.ext_iff]

/-- An entry goes down in so many turns, if its position, doubled so often, is outside of the
heap. -/
theorem siftDown?_eq (turns : Nat) (v : Vector α n) (i : Fin n)
    (h : n < (i.val + 1) * 2 ^ turns) :
    siftDown? n turns v.toArray i = some (siftDown v i).toArray := by
  induction v, i using siftDown.induct generalizing turns with
  | case1 v i least hi =>
    cases turns with
    | zero => have := i.isLt; omega
    | succ turns => rw [siftDown?_succ, if_pos hi, siftDown, dif_pos hi]
  | case2 v i least hi ih =>
    cases turns with
    | zero => have := i.isLt; omega
    | succ turns =>
      have hbelow : (i.val + 1) * 2 ≤ least.val + 1 := by
        have hlt : i.val < least.val := lt_leastBelow v i hi
        have hparent : (least.val - 1) / 2 = i.val := parent_leastBelow v i hi
        omega
      have hturns : n < (least.val + 1) * 2 ^ turns :=
        calc n < (i.val + 1) * 2 ^ (turns + 1) := h
          _ = (i.val + 1) * 2 * 2 ^ turns := by ring
          _ ≤ (least.val + 1) * 2 ^ turns := Nat.mul_le_mul_right _ hbelow
      rw [siftDown?_succ, if_neg hi, siftDown, dif_neg hi]
      exact ih turns hturns

omit [LT α] [DecidableLT α] in
theorem swapRemove?_eq (heap : Array α) {i : Nat} (hi : i < heap.size)
    (hlast : heap.size - 1 < heap.size) :
    swapRemove? heap i = some (heap[i], (heap.swap i (heap.size - 1) hi hlast).pop) := by
  have hback : heap.back? = some heap[heap.size - 1] := by
    rw [Array.back?_eq_getElem?, Array.getElem?_eq_getElem hlast]
  have hrest : (heap.setIfInBounds i heap[heap.size - 1]).pop =
      (heap.swap i (heap.size - 1) hi hlast).pop := by
    ext j hj hj'
    · simp
    · simp only [Array.size_pop, Array.size_swap] at hj'
      simp only [Array.getElem_pop]
      by_cases hji : j = i
      · subst hji
        rw [Array.getElem_setIfInBounds_self, Array.getElem_swap_left]
      · -- the place that the swap gives to the entry is given up
        rw [Array.getElem_setIfInBounds_ne (by omega) (Ne.symm hji),
          Array.getElem_swap_of_ne hji (by omega)]
  simp only [swapRemove?, Array.getElem?_eq_getElem hi, hback, Option.bind_eq_bind,
    Option.bind_some, hrest, Option.pure_def]

/-- From every place of any heap an entry can be taken: no position outside of the heap is looked
up, and so many turns suffice. -/
theorem removeAt?_eq {turns : Nat} (heap : Array α) {i : Nat} (hi : i < heap.size)
    (h : heap.size < 2 ^ turns) :
    removeAt? turns heap i = some (heap[i], removeAt heap ⟨i, hi⟩) := by
  have hlast : heap.size - 1 < heap.size := by omega
  have hsize : (heap.swap i (heap.size - 1) hi hlast).pop.size < 2 ^ turns := by
    rw [Array.size_pop, Array.size_swap]
    omega
  rw [removeAt?, swapRemove?_eq heap hi hlast, removeAt]
  generalize (heap.swap i (heap.size - 1) hi hlast).pop = rest at hsize
  simp only [Option.bind_eq_bind, Option.bind_some]
  by_cases hir : i < rest.size
  · have hdown : siftDown? rest.size turns rest i =
        some (siftDown rest.toVector ⟨i, hir⟩).toArray :=
      siftDown?_eq turns rest.toVector ⟨i, hir⟩
        (Nat.lt_of_lt_of_le hsize (Nat.le_mul_of_pos_left _ (Nat.succ_pos i)))
    have hup := siftUp?_eq turns (siftDown rest.toVector ⟨i, hir⟩) ⟨i, hir⟩
      (Nat.lt_of_le_of_lt hir hsize)
    simp only [if_pos hir, dif_pos hir, hdown, hup, Option.bind_some, Option.pure_def]
  · simp only [if_neg hir, dif_neg hir, Option.pure_def]

/-- Any entry can be added to any heap in the same way. -/
theorem insert?_eq {turns : Nat} (heap : Array α) (a : α) (h : heap.size + 1 < 2 ^ turns) :
    insert? turns heap a = some (insert heap a) := by
  have hend : (heap.push a).size - 1 = heap.size := by simp
  rw [insert?, hend]
  exact siftUp?_eq turns (heap.push a).toVector ⟨heap.size, by simp⟩ h

/-! ### What they leave -/

/-- From every place of an ordered heap of sleepers one can be taken, and any sleeper can be added.
The repair looks up no position outside of the heap, and it ends, at the latest after as many turns
as the size of the heap has binary digits. It leaves a heap that is ordered and holds the other
sleepers, or the same ones and the added one. -/
theorem sleepers_repaired (heap : Array Sleeper) (h : Ordered heap) :
    (∀ (i : Nat) (hi : i < heap.size), ∃ rest,
      (∀ turns, heap.size < 2 ^ turns → removeAt? turns heap i = some (heap[i], rest)) ∧
        removeAt heap ⟨i, hi⟩ = rest ∧
        Ordered rest ∧ rest.toList.Perm (heap.toList.eraseIdx i)) ∧
      ∀ s : Sleeper, ∃ grown,
        (∀ turns, heap.size + 1 < 2 ^ turns → insert? turns heap s = some grown) ∧
          insert heap s = grown ∧
          Ordered grown ∧ grown.toList.Perm (s :: heap.toList) := by
  constructor
  case left =>
    intro i hi
    refine ⟨_, fun turns => removeAt?_eq heap hi, rfl, ordered_removeAt h ⟨i, hi⟩, ?_⟩
    have hothers : (heap[i] :: heap.toList.eraseIdx i).Perm heap.toList :=
      List.getElem_cons_eraseIdx_perm (by simpa using hi)
    exact ((hothers.trans (perm_removeAt heap ⟨i, hi⟩)).cons_inv).symm
  case right =>
    intro s
    exact ⟨_, fun turns => insert?_eq heap s, rfl, ordered_insert h s,
      (perm_insert heap s).trans (List.perm_append_singleton s heap.toList)⟩

instance (heap : Array α) : Decidable (Ordered heap) :=
  inferInstanceAs (Decidable (∀ (i : Nat) (_ : i < heap.size) (_ : parent i < heap.size), ¬ _ < _))

/-- When the fourth of these seven sleepers is taken out, the last one comes into its place from the
other side of the heap and has to go up: it has the deadline of the one above it and is older. -/
theorem sleepers_repaired_across :
    let heap : Array Sleeper :=
      #[⟨1, ⟨0⟩, 0⟩, ⟨5, ⟨1⟩, 6⟩, ⟨2, ⟨2⟩, 1⟩, ⟨9, ⟨3⟩, 2⟩, ⟨8, ⟨4⟩, 4⟩, ⟨7, ⟨5⟩, 5⟩, ⟨5, ⟨6⟩, 3⟩]
    Ordered heap ∧ 3 < heap.size ∧ heap.size < 2 ^ 3 ∧ ∃ rest,
      removeAt? 3 heap 3 = some (⟨9, ⟨3⟩, 2⟩, rest) ∧ Ordered rest ∧
        rest.toList.Perm (heap.toList.eraseIdx 3) := by
  intro heap
  have hheap : Ordered heap := by decide
  obtain ⟨rest, hanswer, -, hordered, hothers⟩ :=
    (sleepers_repaired heap hheap).1 3 (by decide)
  exact ⟨hheap, by decide, by decide, rest, hanswer 3 (by decide), hordered, hothers⟩

end Heap
end PulseKernel
