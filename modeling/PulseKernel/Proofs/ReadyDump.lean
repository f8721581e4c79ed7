/-
# What a dump shows of a list

A dump follows the links from the head of a queue and stops after one thread more than
there are slots. It has then met some thread twice, and from there on its way repeats
itself: the links run in a circle (`ThreadTable.Circles`), and the dots at the end of the
dump say so. Short of that the list ends, and on its way to the end it meets no thread
twice, so there is room for all of it. The dots tell the two cases apart whatever the
links are, if they do not leave the table (`ReadyQueue.DumpOf`).

Where the queues of a table are used with it alone, no list runs in a circle, and a dump
shows the members in the order in which they will leave.

Key definitions: `ThreadTable.Circles`, `ReadyQueue.DumpOf`.
Key theorems: `ThreadTable.circles_or_leads`, `ReadyQueue.capacity_lt_length_iff`,
`ReadyQueue.dots_infix_iff`, `ReadyQueue.dump_marks_circles`.
-/
import PulseKernel.Proofs.ReadyFifo
import PulseKernel.Proofs.RemoveOutcome

namespace PulseKernel

namespace ThreadTable

variable {table : ThreadTable} {cursor : Option ThreadId} {limit : Nat} {l : List ThreadId}

/-- The links lead from the place to a thread, and from this thread back to itself. -/
def Circles (table : ThreadTable) (cursor : Option ThreadId) : Prop :=
  ∃ t i n, 0 < n ∧ table.behind^[i] cursor = some t ∧ table.behind^[n] (some t) = some t

/-- A circle has no end. -/
theorem Circles.iterate_ne_none (h : table.Circles cursor) (m : Nat) :
    table.behind^[m] cursor ≠ none := by
  obtain ⟨t, i, n, hn, hi, hback⟩ := h
  intro hend
  -- after `m` rounds the walk is back at `t`, and has passed the end
  have hround : table.behind^[n * m] (some t) = some t := by
    rw [Function.iterate_mul]
    exact Function.iterate_fixed hback m
  have hat : table.behind^[n * m + i] cursor = some t := by
    rw [Function.iterate_add_apply, hi, hround]
  obtain ⟨k, hk⟩ := Nat.exists_eq_add_of_le' (Nat.le_mul_of_pos_left m hn)
  rw [hk, Nat.add_right_comm, Function.iterate_add_apply, hend, iterate_behind_none] at hat
  cases hat

/-- A walk that lists a thread twice goes round in a circle from there on. -/
theorem circles_of_not_nodup (hlength : l.length ≤ limit)
    (hplaces : ∀ i < limit, l[i]? = table.behind^[i] cursor) (h : ¬ l.Nodup) :
    table.Circles cursor := by
  rw [List.nodup_iff_getElem?_ne_getElem?] at h
  push Not at h
  obtain ⟨i, j, hij, hj, heq⟩ := h
  have hjlimit : j < limit := Nat.lt_of_lt_of_le hj hlength
  have hi : table.behind^[i] cursor = some l[j] := by
    rw [← hplaces i (hij.trans hjlimit), heq, List.getElem?_eq_getElem hj]
  refine ⟨l[j], i, j - i, Nat.sub_pos_of_lt hij, hi, ?_⟩
  calc table.behind^[j - i] (some l[j])
      = table.behind^[j - i] (table.behind^[i] cursor) := by rw [hi]
    _ = table.behind^[j] cursor := by
        rw [← Function.iterate_add_apply, Nat.sub_add_cancel (Nat.le_of_lt hij)]
    _ = some l[j] := by rw [← hplaces j hjlimit, List.getElem?_eq_getElem hj]

theorem inRange_iterate_behind (hlinks : table.LinksInRange) (hcursor : table.InRange cursor) :
    ∀ n, table.InRange (table.behind^[n] cursor) := by
  intro n
  induction n with
  | zero => exact hcursor
  | succ n ih =>
    rw [Function.iterate_succ_apply']
    cases hn : table.behind^[n] cursor with
    | none => exact fun t ht => absurd ht (by simp)
    | some t =>
      rw [hn] at ih
      obtain ⟨s, hs⟩ := ih.exists_slot
      rw [behind_of_slot? hs]
      exact hlinks t s hs

/-- The links run in a circle, or they come to an end. -/
theorem circles_or_leads (hlinks : table.LinksInRange) (hcursor : table.InRange cursor) :
    table.Circles cursor ∨ ∃ x, table.Leads none cursor x := by
  rcases leads_or_never hlinks hcursor none with hleads | hnever
  · exact Or.inr hleads
  left
  obtain ⟨l, -, hlength, hplaces⟩ :=
    ReadyQueue.exists_walk hlinks (table.capacity + 1) hcursor
  refine circles_of_not_nodup hlength hplaces fun hnodup => ?_
  have hfits : l.length ≤ table.capacity := by
    refine length_le_of_nodup hnodup fun t ht => ?_
    obtain ⟨i, hi⟩ := List.mem_iff_getElem?.mp ht
    have hbound := (List.getElem?_eq_some_iff.mp hi).1
    rw [hplaces i (Nat.lt_of_lt_of_le hbound hlength)] at hi
    exact inRange_iterate_behind hlinks hcursor i t hi
  have hlast := hplaces table.capacity (Nat.lt_succ_self _)
  rw [List.getElem?_eq_none hfits] at hlast
  exact hnever _ hlast.symm

end ThreadTable

/-! ### The text -/

theorem toString_text (s : String) : toString s = s := rfl

theorem dot_notMem_toDigits (n : Nat) : '.' ∉ Nat.toDigits 10 n := by
  intro hmem
  have hdigit := Nat.isDigit_of_mem_toDigits (by decide) (by decide) hmem
  exact absurd hdigit (by decide)

theorem ThreadId.dot_notMem_text (t : ThreadId) : '.' ∉ t.text.toList := by
  simp [text, toString_text, dot_notMem_toDigits]

theorem QueueId.dot_notMem_text (q : QueueId) : '.' ∉ q.text.toList := by
  simp [text, toString_text, dot_notMem_toDigits]

namespace ReadyQueue

open ThreadTable

variable {q : ReadyQueue} {table : ThreadTable} {l : List ThreadId} {threads : String}

theorem dot_notMem_endText (t : Option ThreadId) : '.' ∉ (endText t).toList := by
  cases t with
  | none => decide
  | some t => exact t.dot_notMem_text

theorem dot_notMem_listText (l : List ThreadId) : '.' ∉ (listText l).toList := by
  induction l with
  | nil => simp [listText]
  | cons t l ih =>
    rw [listText_cons]
    cases l <;> simp [t.dot_notMem_text, ih]

theorem dot_mem_dumpText_iff : '.' ∈ (q.dumpText threads).toList ↔ '.' ∈ threads.toList := by
  unfold dumpText
  simp [dot_notMem_endText, QueueId.dot_notMem_text, toString_text]

theorem infix_dumpText (q : ReadyQueue) (threads : String) :
    threads.toList <:+: (q.dumpText threads).toList := by
  have hsplit : q.dumpText threads = s!"ready queue {q.id.text} [" ++ threads ++
      s!"] head: {endText q.head} tail: {endText q.tail}" := by
    unfold dumpText
    simp only [toString_text, String.append_assoc]
  rw [hsplit, String.toList_append, String.toList_append]
  exact List.infix_append _ _ _

/-- Without the dots no part of a dump looks like them. -/
theorem not_infix_dots (q : ReadyQueue) (l : List ThreadId) :
    ¬ " ...".toList <:+: (q.dumpText (listText l)).toList := by
  intro hdots
  have hdot : '.' ∈ (q.dumpText (listText l)).toList := hdots.subset (by decide)
  exact dot_notMem_listText l (dot_mem_dumpText_iff.mp hdot)

theorem dots_infix_iff {cut : Prop} [Decidable cut] :
    " ...".toList <:+: (q.dumpText (listText l ++ if cut then " ..." else "")).toList ↔ cut := by
  by_cases hcut : cut
  · rw [if_pos hcut]
    refine iff_of_true (List.IsInfix.trans ?_ (infix_dumpText q _)) hcut
    rw [String.toList_append]
    exact (List.suffix_append _ _).isInfix
  · rw [if_neg hcut, String.append_empty]
    exact iff_of_false (not_infix_dots q l) hcut

/-! ### What is shown -/

/-- There are more threads to show than slots exactly if the links run in a circle. -/
theorem capacity_lt_length_iff (hlinks : table.LinksInRange) (hhead : table.InRange q.head)
    (hmembers : q.members table = .ok l) :
    table.capacity < l.length ↔ table.Circles q.head := by
  obtain ⟨l', hl', hlength, hplaces⟩ := exists_walk hlinks (table.capacity + 1) hhead
  obtain rfl : l' = l := Except.ok.inj (hl'.symm.trans hmembers)
  constructor
  · intro hlong
    refine (circles_or_leads hlinks hhead).resolve_right ?_
    rintro ⟨x, hx⟩
    have hwalk := walk_of_leads hx (Nat.le_succ_of_le hx.length_le)
    obtain rfl : x = l' := Except.ok.inj (hwalk.symm.trans hl')
    exact Nat.not_lt.mpr hx.length_le hlong
  · intro hcircles
    by_contra hshort
    have hlast := hplaces table.capacity (Nat.lt_succ_self _)
    rw [List.getElem?_eq_none (Nat.not_lt.mp hshort)] at hlast
    exact hcircles.iterate_ne_none _ hlast.symm

/-- The dump of a queue shows these threads, in this text. -/
structure DumpOf (q : ReadyQueue) (table : ThreadTable) (shown : List ThreadId) (text : String) :
    Prop where
  dump : q.dump table = .ok text
  /-- Each thread is shown behind the one that links to it, and the first is the head. -/
  places : ∀ i ≤ table.capacity, shown[i]? = table.behind^[i] q.head
  length_le : shown.length ≤ table.capacity + 1
  dots_iff : " ...".toList <:+: text.toList ↔ table.Circles q.head
  circling : table.Circles q.head →
    text = q.dumpText (listText shown ++ " ...") ∧ shown.length = table.capacity + 1
  ending : ¬ table.Circles q.head →
    text = q.dumpText (listText shown) ∧ table.Leads none q.head shown ∧ shown.Nodup

theorem exists_dumpOf (hlinks : table.LinksInRange) (hhead : table.InRange q.head) :
    ∃ shown text, q.DumpOf table shown text := by
  obtain ⟨l, hl, hlength, hplaces⟩ := exists_walk hlinks (table.capacity + 1) hhead
  have hcut : table.capacity < l.length ↔ table.Circles q.head :=
    capacity_lt_length_iff hlinks hhead hl
  refine ⟨l, _, dump_of_members hl, fun i hi => hplaces i (Nat.lt_succ_of_le hi), hlength,
    dots_infix_iff.trans hcut, fun hcircles => ?_, fun hends => ?_⟩
  · have hlong := hcut.mpr hcircles
    rw [if_pos hlong]
    exact ⟨rfl, Nat.le_antisymm hlength hlong⟩
  · have hshort := mt hcut.mp hends
    have hleads := leads_of_walk hl (Nat.lt_succ_of_le (Nat.not_lt.mp hshort))
    rw [if_neg hshort, String.append_empty]
    exact ⟨rfl, hleads, hleads.nodup⟩

end ReadyQueue

/-! ### A list of threads -/

/-- A queue that is a list of threads shows this list, and nothing else. -/
theorem SharedTable.ShowsLine.dump_eq {ρ σ : Type} {s : SharedTable ρ σ} {r : ρ}
    {l : List ThreadId} (h : s.ShowsLine r l) :
    (s.ready r).dump s.table = .ok ((s.ready r).dumpText (ReadyQueue.listText l)) := by
  have hfits : l.length ≤ s.table.capacity := by
    refine ThreadTable.length_le_of_nodup h.nodup fun t ht => ?_
    obtain ⟨x, y, hxy⟩ := List.append_of_mem ht
    obtain ⟨slot, hslot, -⟩ := h.links x t y hxy
    exact ThreadTable.index_lt_of_slot? hslot
  rw [ReadyQueue.dump_of_members h.walk, if_neg (Nat.not_lt.mpr hfits), String.append_empty]

/-- A dump of any queue, wherever its links lead in the table, shows the threads that are met from
the head on, one more than there are slots at most, and dots exactly if they run in a circle. If
the queues of a table are used with it alone, each of them shows its members from first to last,
and no dots. -/
theorem ReadyQueue.dump_marks_circles {q : ReadyQueue} {table : ThreadTable}
    (hlinks : table.LinksInRange) (hhead : table.InRange q.head) {ρ σ : Type} [DecidableEq ρ]
    [DecidableEq σ] (L : Layout ρ σ) (ops : List (Operation ρ σ)) :
    (∃ shown text, q.DumpOf table shown text) ∧
    ∃ s, (L.fresh.run ops).result = .ok s ∧ ∀ r, ∃ l text, s.ActsFifo r l ∧
      (s.ready r).dump s.table = .ok text ∧ text = (s.ready r).dumpText (listText l) ∧
      ¬ " ...".toList <:+: text.toList := by
  refine ⟨exists_dumpOf hlinks hhead, ?_⟩
  obtain ⟨s, lines, naps, hs, h⟩ := L.exists_accounts ops
  exact ⟨s, hs, fun r => ⟨lines r, _, h.actsFifo r, (h.showsLine rfl).dump_eq, rfl,
    not_infix_dots _ _⟩⟩

/-- A table with two slots and a ready queue that is used with it alone. -/
def Layout.lone : Layout Unit Empty where
  slots := 2
  id _ := ⟨1⟩
  distinct _ _ _ := rfl
  room := Empty.elim

/-- The queue between two tables goes round at its head, and the other one shows its members. -/
theorem ReadyQueue.dump_marks_circles_crossed :
    let run := (Layout.lone.fresh.run
      [.register {}, .register {}, .enqueue () ⟨1⟩, .enqueue () ⟨0⟩]).result
    (∃ shown text, shared.DumpOf crossed shown text) ∧
    shared.dump crossed = .ok "ready queue QueueId(1) [#0 #0 #0 ...] head: #0 tail: #1" ∧
    (∃ s l, run = .ok s ∧ s.ActsFifo () l) ∧
    (run.bind fun s => (s.ready ()).dump s.table) =
      .ok "ready queue QueueId(1) [#1 #0] head: #1 tail: #0" := by
  have hlinks : crossed.LinksInRange := by decide
  have hhead : crossed.InRange shared.head := by decide
  obtain ⟨hshown, s, hs, hline⟩ := dump_marks_circles hlinks hhead Layout.lone
    [.register {}, .register {}, .enqueue () ⟨1⟩, .enqueue () ⟨0⟩]
  obtain ⟨l, -, hfifo, -⟩ := hline ()
  exact ⟨hshown, rfl, ⟨s, l, hs, hfifo⟩, by decide +kernel⟩

end PulseKernel
