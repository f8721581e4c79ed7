/-
# Heap repair

A binary heap lies in an array: the children of position `i` are at `2 i + 1`
and `2 i + 2`, and no entry is less than its parent. When one entry breaks
that order, it is sifted up towards the root or down towards the leaves.

Key definitions: `Heap.siftUp`, `Heap.siftDown`, `Heap.insert`, `Heap.removeAt`,
`Heap.Ordered`.
Key theorems: `Heap.lt_leastBelow`, `Heap.size_insert`, `Heap.size_removeAt`.
-/

namespace PulseKernel
namespace Heap

variable {α : Type} [LT α] [DecidableLT α] {n : Nat}

/-- The position of the parent; the root is its own parent. -/
def parent (i : Nat) : Nat := (i - 1) / 2

theorem parent_lt {i : Nat} (h : i ≠ 0) : parent i < i := by
  unfold parent
  omega

/-- No entry is less than its parent. -/
def Ordered (heap : Array α) : Prop :=
  ∀ (i : Nat) (_ : i < heap.size) (_ : parent i < heap.size), ¬ heap[i] < heap[parent i]

/-- Moves the entry at a position up until its parent is not greater. -/
def siftUp (heap : Vector α n) (i : Fin n) : Vector α n :=
  if h : i.val = 0 then heap
  else
    let above : Fin n := ⟨parent i, Nat.lt_trans (parent_lt h) i.isLt⟩
    if heap[i] < heap[above] then siftUp (heap.swap i above) above else heap
termination_by i.val
decreasing_by exact parent_lt h

/-- The position of the lesser of two entries, the first one if there is no second or neither is
less. -/
def lesser (heap : Vector α n) (i : Fin n) (j : Nat) : Fin n :=
  if h : j < n then if heap[j] < heap[i] then ⟨j, h⟩ else i else i

/-- The position of the least entry among the one at `i` and its children. -/
def leastBelow (heap : Vector α n) (i : Fin n) : Fin n :=
  lesser heap (lesser heap i (2 * i + 1)) (2 * i + 2)

theorem lesser_eq (heap : Vector α n) (i : Fin n) (j : Nat) :
    lesser heap i j = i ∨ (lesser heap i j).val = j := by
  unfold lesser
  split
  · split
    · exact Or.inr rfl
    · exact Or.inl rfl
  · exact Or.inl rfl

/-- The least of an entry and its children is the entry or lies below it. -/
theorem lt_leastBelow (heap : Vector α n) (i : Fin n) (h : leastBelow heap i ≠ i) :
    i < leastBelow heap i := by
  rw [Fin.lt_def]
  have hij : (lesser heap i (2 * i + 1)).val = i ∨ (lesser heap i (2 * i + 1)).val = 2 * i + 1 :=
    (lesser_eq heap i (2 * i + 1)).imp_left (congrArg Fin.val)
  have hne : (leastBelow heap i).val ≠ i := fun e => h (Fin.ext e)
  rcases lesser_eq heap (lesser heap i (2 * i + 1)) (2 * i + 2) with e | e
  · have e₁ : (leastBelow heap i).val = (lesser heap i (2 * i + 1)).val := congrArg Fin.val e
    omega
  · have e₁ : (leastBelow heap i).val = 2 * i + 2 := e
    omega

/-- Moves the entry at a position down until no child is less. -/
def siftDown (heap : Vector α n) (i : Fin n) : Vector α n :=
  let least := leastBelow heap i
  if h : least = i then heap else siftDown (heap.swap i least) least
termination_by n - i.val
decreasing_by
  have := lt_leastBelow heap i h
  rw [Fin.lt_def] at this
  have := i.isLt
  omega

/-- Adds an entry. -/
def insert (heap : Array α) (a : α) : Array α :=
  (siftUp (heap.push a).toVector ⟨heap.size, by simp⟩).toArray

/-- Removes the entry at a position: the last entry takes its place and finds its own from there. -/
def removeAt (heap : Array α) (i : Fin heap.size) : Array α :=
  let rest := (heap.swap i (heap.size - 1) i.isLt (by have := i.isLt; omega)).pop
  if h : i.val < rest.size then
    (siftUp (siftDown rest.toVector ⟨i, h⟩) ⟨i, h⟩).toArray
  else rest

@[simp] theorem size_insert (heap : Array α) (a : α) : (insert heap a).size = heap.size + 1 := by
  simp [insert]

@[simp] theorem size_removeAt (heap : Array α) (i : Fin heap.size) :
    (removeAt heap i).size = heap.size - 1 := by
  simp only [removeAt]
  split <;> simp

end Heap
end PulseKernel
