/-
# The sleepers that are due

At a time `now` the sleepers whose deadline has come are due. They are woken in
one order, whatever the heap looks like: the earliest deadline first, and those
of one deadline as they fell asleep (`SleepQueue.due`). The first of them is what
the root of the heap and the search for its deadline agree on, and when it has
left, the others are due as before.

Key definitions: `SleepQueue.due`.
Key theorems: `SleepQueue.Lists.eq_due`, `SleepQueue.Lists.due_eq_nil`,
`SleepQueue.Lists.due_cons`, `SleepQueue.Lists.due_erase`.
-/
import PulseKernel.Proofs.SleepOrder

namespace PulseKernel
namespace SleepQueue

variable {q : SleepQueue} {l : List Sleeper} {now : Nat}

/-- The sleepers that are due, in the order in which they are woken. -/
def due (q : SleepQueue) (now : Nat) : List Sleeper :=
  (q.heap.toList.filter fun e => e.deadline ≤ now).mergeSort fun a b => !decide (b < a)

theorem Lists.perm_due (h : q.Lists l) (now : Nat) :
    (q.due now).Perm (l.filter fun e => e.deadline ≤ now) :=
  (List.mergeSort_perm _ _).trans (h.perm.filter _)

theorem Lists.mem_due_iff (h : q.Lists l) {e : Sleeper} :
    e ∈ q.due now ↔ e ∈ l ∧ e.deadline ≤ now := by
  rw [(h.perm_due now).mem_iff, List.mem_filter, decide_eq_true_eq]

theorem Lists.nodup_due (h : q.Lists l) (now : Nat) : ((q.due now).map (·.thread)).Nodup :=
  ((h.perm_due now).map (·.thread)).nodup_iff.mpr
    (h.distinct.sublist (List.filter_sublist.map _))

/-- Two sleepers of a queue that are both not less than the other one are the same. -/
theorem Lists.eq_of_not_lt (h : q.Lists l) {a b : Sleeper} (ha : a ∈ l) (hb : b ∈ l)
    (hab : ¬ a < b) (hba : ¬ b < a) : a = b := by
  refine List.inj_on_of_nodup_map h.seq_nodup ha hb ?_
  rw [Sleeper.lt_iff] at hab hba
  omega

theorem pairwise_due (q : SleepQueue) (now : Nat) : (q.due now).Pairwise fun a b => ¬ b < a := by
  have hsorted : (q.due now).Pairwise fun a b => (!decide (b < a)) = true := by
    apply List.pairwise_mergeSort
    · intro a b c hab hbc
      simp only [Bool.not_eq_true', decide_eq_false_iff_not, Sleeper.lt_iff] at *
      omega
    · intro a b
      simp only [Bool.or_eq_true, Bool.not_eq_true', decide_eq_false_iff_not, Sleeper.lt_iff]
      omega
  exact hsorted.imp fun hab => by simpa using hab

/-- There is one order in which the due sleepers can be woken. -/
theorem Lists.eq_due (h : q.Lists l) {d : List Sleeper}
    (hperm : d.Perm (l.filter fun e => e.deadline ≤ now)) (hd : d.Pairwise fun a b => ¬ b < a) :
    q.due now = d := by
  refine ((h.perm_due now).trans hperm.symm).eq_of_pairwise ?_ (q.pairwise_due now) hd
  intro a b ha hb hba hab
  have hb' := List.mem_filter.mp (hperm.mem_iff.mp hb)
  exact h.eq_of_not_lt (h.mem_due_iff.mp ha).1 hb'.1 hab hba

/-- If nobody is due, the earliest deadline, if there is one, is still to come. -/
theorem Lists.due_eq_nil (h : q.Lists l) (hnil : q.due now = []) {deadline : Nat}
    (hfirst : q.earliest? = some deadline) : now < deadline := by
  rw [h.earliest?_eq] at hfirst
  obtain ⟨e, he, rfl⟩ := List.mem_map.mp (List.min?_mem hfirst)
  by_contra hnow
  have hdue : e ∈ q.due now := h.mem_due_iff.mpr ⟨he, Nat.le_of_not_lt hnow⟩
  rw [hnil] at hdue
  cases hdue

/-- No sleeper stands before the first that is due. -/
theorem Lists.not_lt_head_due (h : q.Lists l) {e : Sleeper} {rest : List Sleeper}
    (hdue : q.due now = e :: rest) {a : Sleeper} (ha : a ∈ l) : ¬ a < e := by
  have he : e ∈ l ∧ e.deadline ≤ now := h.mem_due_iff.mp (by simp [hdue])
  by_cases hnow : a.deadline ≤ now
  · have hsorted := q.pairwise_due now
    rw [hdue] at hsorted
    have hmem : a ∈ e :: rest := hdue ▸ h.mem_due_iff.mpr ⟨ha, hnow⟩
    rcases List.mem_cons.mp hmem with rfl | hmem
    · exact Heap.not_lt_self a
    · exact (List.pairwise_cons.mp hsorted).1 a hmem
  · rw [Sleeper.lt_iff]
    omega

/-- The first that is due has the deadline at the root of the heap, and no other sleeper with this
deadline fell asleep before it. -/
theorem Lists.due_cons (h : q.Lists l) {e : Sleeper} {rest : List Sleeper}
    (hdue : q.due now = e :: rest) :
    e ∈ l ∧ e.deadline ≤ now ∧ q.earliest? = some e.deadline ∧
      l.find? (·.deadline == e.deadline) = some e := by
  have he : e ∈ l ∧ e.deadline ≤ now := h.mem_due_iff.mp (by simp [hdue])
  have hleast : ∀ a ∈ l, ¬ a < e := fun a ha => h.not_lt_head_due hdue ha
  refine ⟨he.1, he.2, ?_, ?_⟩
  · rw [h.earliest?_eq, List.min?_eq_some_iff]
    refine ⟨List.mem_map_of_mem he.1, fun d hd => ?_⟩
    obtain ⟨a, ha, rfl⟩ := List.mem_map.mp hd
    have := hleast a ha
    rw [Sleeper.lt_iff] at this
    omega
  · cases hfind : l.find? (·.deadline == e.deadline) with
    | none => exact absurd (beq_self_eq_true _) (List.find?_eq_none.mp hfind e he.1)
    | some a =>
      have ha := List.mem_of_find?_eq_some hfind
      have had : a.deadline = e.deadline := by simpa using List.find?_some hfind
      have hle : a.seq ≤ e.seq := h.seq_le_of_find? hfind he.1 (beq_self_eq_true _)
      have hge := hleast a ha
      rw [Sleeper.lt_iff] at hge
      have hseq : a.seq = e.seq := by omega
      rw [List.inj_on_of_nodup_map h.seq_nodup ha he.1 hseq]

/-- When the first that is due has left, the others are due. -/
theorem Lists.due_erase (h : q.Lists l) {e : Sleeper} {rest : List Sleeper}
    (hdue : q.due now = e :: rest) : (q.erase e).due now = rest := by
  have hlists := h.erase (h.due_cons hdue).1
  refine hlists.eq_due ?_ ?_
  · obtain ⟨hel, hnow, -⟩ := h.due_cons hdue
    have hcons := (List.perm_cons_erase hel).filter fun e => decide (e.deadline ≤ now)
    rw [List.filter_cons_of_pos (by simpa using hnow)] at hcons
    have hperm := h.perm_due now
    rw [hdue] at hperm
    exact (hperm.trans hcons).cons_inv
  · have hsorted := q.pairwise_due now
    rw [hdue] at hsorted
    exact (List.pairwise_cons.mp hsorted).2

/-- A due sleeper and those that are due without it are all that are due. -/
theorem Lists.cons_due_erase_perm (h : q.Lists l) {q' : SleepQueue} {e : Sleeper}
    (h' : q'.Lists (l.erase e)) (he : e ∈ l) (hnow : e.deadline ≤ now) :
    (e :: q'.due now).Perm (q.due now) := by
  have hcons := (List.perm_cons_erase he).filter fun e => decide (e.deadline ≤ now)
  rw [List.filter_cons_of_pos (by simpa using hnow)] at hcons
  exact ((h'.perm_due now).cons e).trans (hcons.symm.trans (h.perm_due now).symm)

/-- A due sleeper is not one of those that stay. -/
theorem Lists.filter_erase_of_due (h : q.Lists l) {e : Sleeper} (he : e.deadline ≤ now) :
    (l.erase e).filter (fun a => now < a.deadline) = l.filter fun a => now < a.deadline := by
  have hnodup : l.Nodup := .of_map _ h.distinct
  rw [hnodup.erase_eq_filter, List.filter_filter]
  refine List.filter_congr fun a _ => ?_
  by_cases hae : a = e
  · subst hae
    simp [he]
  · simp [hae]

/-- If nobody is due, everybody stays. -/
theorem Lists.filter_of_due_eq_nil (h : q.Lists l) (hnil : q.due now = []) :
    (l.filter fun a => now < a.deadline) = l := by
  refine List.filter_eq_self.mpr fun a ha => ?_
  by_contra hnow
  have hdue : a ∈ q.due now := h.mem_due_iff.mpr ⟨ha, by simpa using hnow⟩
  rw [hnil] at hdue
  cases hdue

end SleepQueue
end PulseKernel
