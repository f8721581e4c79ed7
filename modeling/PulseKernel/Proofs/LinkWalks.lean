/-
# Walks along any links

A walk goes from one thread to the one that its slot links behind it. Where the links of a
table lead is up to whoever wrote them last: a slot may be linked from two others, or from
itself, and a walk may go in a circle. So nothing is asked of the table here but that its
links do not leave it.

There is one link behind a thread, and this is all the order that is left: what a walk
meets before it comes to some place for the first time is one list (`Leads.unique`) and
holds no thread twice (`Leads.nodup`), so it is not longer than the table. A walk that has
met as many threads as there are slots will therefore never come there, and the bounds of
the walks below tell the endless walks from the others exactly.

Key definitions: `ThreadTable.LinksInRange`, `ThreadTable.behind`, `ThreadTable.Leads`,
`ThreadTable.unhooked`, `ReadyQueue.listText`.
Key theorems: `ThreadTable.Leads.unique`, `ThreadTable.Leads.nodup`,
`ThreadTable.leads_or_never`, `ReadyQueue.walk_of_leads`, `ReadyQueue.leads_of_walk`,
`ReadyQueue.exists_walk`, `ReadyQueue.locate_of_endless`, `ReadyQueue.remove_of_leads`,
`ReadyQueue.dump_of_members`.
-/
import Mathlib.Data.Finset.Card
import Mathlib.Logic.Function.Iterate
import PulseKernel.Proofs.ThreadSlots
import PulseKernel.Queue.Ready

namespace PulseKernel
namespace ThreadTable

variable {table : ThreadTable} {goal cursor : Option ThreadId} {x y l : List ThreadId}
  {t u : ThreadId} {s : Slot}

/-- The place has a slot in the table, or is the end of a list. -/
def InRange (table : ThreadTable) (cursor : Option ThreadId) : Prop :=
  ∀ t, cursor = some t → t.index < table.capacity

/-- No link to the thread behind leaves the table. -/
def LinksInRange (table : ThreadTable) : Prop :=
  ∀ t s, table.slot? t = some s → table.InRange s.next

instance : Decidable (table.InRange cursor) :=
  inferInstanceAs (Decidable (∀ t ∈ cursor, t.index < table.capacity))

theorem linksInRange_iff : table.LinksInRange ↔ ∀ s ∈ table.slots, table.InRange s.next := by
  constructor
  · intro h s hs
    obtain ⟨i, hi⟩ := Array.mem_iff_getElem?.mp hs
    exact h ⟨i⟩ s hi
  · exact fun h t s hs => h s (Array.mem_of_getElem? hs)

instance : Decidable table.LinksInRange := decidable_of_iff _ linksInRange_iff.symm

/-- The place one link further. -/
def behind (table : ThreadTable) (cursor : Option ThreadId) : Option ThreadId :=
  cursor.bind fun t => (table.slot? t).bind Slot.next

/-- A walk from a place meets these threads, in this order, and then comes to its goal for the
first time. A goal of `none` is the end of the list. -/
inductive Leads (table : ThreadTable) (goal : Option ThreadId) :
    Option ThreadId → List ThreadId → Prop where
  | here : Leads table goal goal []
  | step {t : ThreadId} {s : Slot} {x : List ThreadId} (hgoal : some t ≠ goal)
      (hs : table.slot? t = some s) (h : Leads table goal s.next x) :
      Leads table goal (some t) (t :: x)

theorem InRange.exists_slot (h : table.InRange (some t)) : ∃ s, table.slot? t = some s :=
  ⟨_, Array.getElem?_eq_getElem (h t rfl)⟩

@[simp] theorem behind_none (table : ThreadTable) : table.behind none = none := rfl

theorem behind_of_slot? (hs : table.slot? t = some s) : table.behind (some t) = s.next := by
  rw [behind, Option.bind_some, hs, Option.bind_some]

/-- Threads without repetition that have slots in the table are not more than its slots. -/
theorem length_le_of_nodup (hnodup : l.Nodup) (hslots : ∀ t ∈ l, t.index < table.capacity) :
    l.length ≤ table.capacity := by
  have hinj : Function.Injective ThreadId.index := fun a b e => by cases a; cases b; simpa using e
  have hindexes : (l.map ThreadId.index).Nodup := hnodup.map hinj
  have hsub : (l.map ThreadId.index).toFinset ⊆ Finset.range table.capacity := by
    intro i hi
    obtain ⟨t, ht, rfl⟩ := List.mem_map.mp (List.mem_toFinset.mp hi)
    exact Finset.mem_range.mpr (hslots t ht)
  calc l.length = (l.map ThreadId.index).toFinset.card := by
        rw [List.toFinset_card_of_nodup hindexes, List.length_map]
    _ ≤ (Finset.range table.capacity).card := Finset.card_le_card hsub
    _ = table.capacity := Finset.card_range _

/-! ### What a walk meets on its way -/

namespace Leads

theorem unique (h : table.Leads goal cursor x) (h' : table.Leads goal cursor y) : y = x := by
  induction h generalizing y with
  | here =>
    cases h' with
    | here => rfl
    | step hgoal => exact absurd rfl hgoal
  | step hgoal hs _ ih =>
    cases h' with
    | here => exact absurd rfl hgoal
    | step _ hs' h' =>
      obtain rfl := Option.some.inj (hs'.symm.trans hs)
      rw [ih h']

/-- The walk goes on from every thread that it meets. -/
theorem suffix : ∀ {x : List ThreadId} {cursor : Option ThreadId},
    table.Leads goal cursor (x ++ t :: y) → table.Leads goal (some t) (t :: y)
  | [], _, .step hgoal hs h => .step hgoal hs h
  | _ :: _, _, .step _ _ h => h.suffix

/-- A thread that is met twice would lead back to itself for ever. -/
theorem nodup (h : table.Leads goal cursor x) : x.Nodup := by
  induction h with
  | here => exact List.nodup_nil
  | @step t s x hgoal hs h ih =>
    refine List.nodup_cons.mpr ⟨fun hmem => ?_, ih⟩
    obtain ⟨a, b, rfl⟩ := List.append_of_mem hmem
    have hback : t :: b = t :: (a ++ t :: b) := unique (.step hgoal hs h) h.suffix
    have hlength := congrArg List.length hback
    simp only [List.length_cons, List.length_append] at hlength
    omega

theorem exists_slot (h : table.Leads goal cursor x) : ∀ u ∈ x, ∃ s, table.slot? u = some s := by
  induction h with
  | here => simp
  | step _ hs _ ih => exact List.forall_mem_cons.mpr ⟨⟨_, hs⟩, ih⟩

theorem goal_notMem (h : table.Leads goal cursor x) : ∀ u ∈ x, some u ≠ goal := by
  induction h with
  | here => simp
  | step hgoal _ _ ih => exact List.forall_mem_cons.mpr ⟨hgoal, ih⟩

/-- On its way to the end a walk follows as many links as it meets threads, and these are not more
than there are slots. -/
theorem length_le (h : table.Leads goal cursor x) : x.length ≤ table.capacity := by
  refine length_le_of_nodup h.nodup fun u hu => ?_
  obtain ⟨s, hs⟩ := h.exists_slot u hu
  exact index_lt_of_slot? hs

/-- On its way to a thread it follows less. -/
theorem length_lt (h : table.Leads (some t) cursor x) (ht : table.slot? t = some s) :
    x.length < table.capacity := by
  have hnotMem : t ∉ x := fun hmem => h.goal_notMem t hmem rfl
  refine length_le_of_nodup (l := t :: x) (List.nodup_cons.mpr ⟨hnotMem, h.nodup⟩) ?_
  refine List.forall_mem_cons.mpr ⟨index_lt_of_slot? ht, fun u hu => ?_⟩
  obtain ⟨s, hs⟩ := h.exists_slot u hu
  exact index_lt_of_slot? hs

/-- The goal is as many links away as threads are met. -/
theorem iterate_behind (h : table.Leads goal cursor x) :
    table.behind^[x.length] cursor = goal := by
  induction h with
  | here => rfl
  | step _ hs _ ih => rw [List.length_cons, Function.iterate_succ_apply, behind_of_slot? hs, ih]

/-- A thread that is met on the way is come to. -/
theorem of_mem (h : table.Leads goal cursor x) (ht : t ∈ x) :
    ∃ y, table.Leads (some t) cursor y := by
  induction h with
  | here => simp at ht
  | @step u s x _ hs _ ih =>
    by_cases hut : u = t
    · exact ⟨[], hut ▸ .here⟩
    · obtain ⟨y, hy⟩ := ih ((List.mem_cons.mp ht).resolve_left fun e => hut e.symm)
      exact ⟨u :: y, .step (fun e => hut (Option.some.inj e)) hs hy⟩

end Leads

theorem iterate_behind_none (table : ThreadTable) (n : Nat) : table.behind^[n] none = none :=
  Function.iterate_fixed (behind_none table) n

/-- A walk that is at its goal at some time has come there for the first time. -/
theorem exists_leads (hlinks : table.LinksInRange) : ∀ {n : Nat} {cursor : Option ThreadId},
    table.InRange cursor → table.behind^[n] cursor = goal → ∃ x, table.Leads goal cursor x
  | 0, _, _, h => ⟨[], h ▸ .here⟩
  | n + 1, cursor, hcursor, h => by
    by_cases hgoal : cursor = goal
    · exact ⟨[], hgoal ▸ .here⟩
    cases cursor with
    | none => exact absurd ((table.iterate_behind_none (n + 1)).symm.trans h) hgoal
    | some t =>
      obtain ⟨s, hs⟩ := hcursor.exists_slot
      rw [Function.iterate_succ_apply, behind_of_slot? hs] at h
      obtain ⟨x, hx⟩ := exists_leads hlinks (hlinks t s hs) h
      exact ⟨t :: x, .step hgoal hs hx⟩

/-- A walk comes to a place within as many links as there are slots, or never. -/
theorem leads_or_never (hlinks : table.LinksInRange) (hcursor : table.InRange cursor)
    (goal : Option ThreadId) :
    (∃ x, table.Leads goal cursor x) ∨ ∀ n, table.behind^[n] cursor ≠ goal := by
  by_cases h : ∃ n, table.behind^[n] cursor = goal
  · obtain ⟨n, hn⟩ := h
    exact Or.inl (exists_leads hlinks hcursor hn)
  · exact Or.inr (not_exists.mp h)

/-- The table after a thread has left its place between two others. -/
def unhooked (table : ThreadTable) (before : Option ThreadId) (t : ThreadId)
    (next : Option ThreadId) : ThreadTable :=
  ((table.touch before (Slot.withNext next)).touch next (Slot.withPrev before)).touch (some t)
    Slot.unlinked

/-- The slot of the thread has no owner and no links left, also where it was its own neighbour. -/
theorem slot?_unhooked_self (table : ThreadTable) (before : Option ThreadId) (t : ThreadId)
    (next : Option ThreadId) :
    (table.unhooked before t next).slot? t = (table.slot? t).map Slot.unlinked := by
  simp only [unhooked, slot?_touch, if_true]
  cases table.slot? t with
  | none => split <;> split <;> rfl
  | some s => split <;> split <;> rfl

end ThreadTable

namespace ReadyQueue

open ThreadTable

variable {table : ThreadTable} {goal cursor : Option ThreadId} {x l : List ThreadId}
  {t : ThreadId} {s : Slot}

/-! ### Listing the threads of a walk -/

/-- A walk that comes to its end lists what it meets. -/
theorem walk_of_leads (h : table.Leads none cursor x) : ∀ {limit : Nat}, x.length ≤ limit →
    walk table limit cursor = .ok x := by
  induction h with
  | here => intro limit _; cases limit <;> rfl
  | @step t s x _ hs _ ih =>
    intro limit hlimit
    obtain ⟨limit, rfl⟩ := Nat.exists_eq_succ_of_ne_zero (Nat.ne_zero_of_lt hlimit)
    have hrest := ih (Nat.le_of_succ_le_succ hlimit)
    simp only [walk, link_of_slot? hs, hrest, bind, Except.bind, pure, Except.pure]

/-- A walk that stops before its limit has come to its end. -/
theorem leads_of_walk : ∀ {limit : Nat} {cursor : Option ThreadId} {l : List ThreadId},
    walk table limit cursor = .ok l → l.length < limit → table.Leads none cursor l
  | limit + 1, none, l, h, _ => by
    obtain rfl : [] = l := Except.ok.inj h
    exact .here
  | limit + 1, some t, l, h, hlength => by
    simp only [walk, bind, Except.bind] at h
    cases hs : table.link t with
    | error fault => simp [hs] at h
    | ok s =>
      cases hrest : walk table limit s.next with
      | error fault => simp [hs, hrest] at h
      | ok rest =>
        obtain rfl : t :: rest = l := by simpa [hs, hrest, pure, Except.pure] using h
        exact .step (by simp) (link_eq_ok.mp hs)
          (leads_of_walk hrest (Nat.lt_of_succ_lt_succ hlength))

/-- Wherever the links lead in the table, a walk lists the places that are less links away than its
limit, up to the end if there is one. -/
theorem exists_walk (hlinks : table.LinksInRange) : ∀ (limit : Nat) {cursor : Option ThreadId},
    table.InRange cursor → ∃ l, walk table limit cursor = .ok l ∧ l.length ≤ limit ∧
      ∀ i < limit, l[i]? = table.behind^[i] cursor
  | 0, _, _ => ⟨[], rfl, Nat.le_refl 0, fun i hi => absurd hi (Nat.not_lt_zero i)⟩
  | limit + 1, none, _ =>
    ⟨[], rfl, Nat.zero_le _, fun i _ => (table.iterate_behind_none i).symm⟩
  | limit + 1, some t, hcursor => by
    obtain ⟨s, hs⟩ := hcursor.exists_slot
    obtain ⟨l, hl, hlength, hplaces⟩ := exists_walk hlinks limit (hlinks t s hs)
    refine ⟨t :: l, ?_, Nat.succ_le_succ hlength, fun i hi => ?_⟩
    · simp only [walk, link_of_slot? hs, hl, bind, Except.bind, pure, Except.pure]
    · cases i with
      | zero => rfl
      | succ i =>
        rw [List.getElem?_cons_succ, Function.iterate_succ_apply, behind_of_slot? hs]
        exact hplaces i (Nat.lt_of_succ_lt_succ hi)

/-! ### Looking for a thread -/

/-- The search finds a thread that the walk comes to, and what stands in front of it. -/
theorem locate_of_leads (h : table.Leads (some t) cursor x) :
    ∀ {limit : Nat} (before : Option ThreadId), x.length < limit →
      locate table t limit before cursor = .ok (some (x.getLast?.or before)) := by
  generalize hgoal : some t = goal at h
  induction h with
  | here =>
    intro limit before hlimit
    obtain ⟨limit, rfl⟩ := Nat.exists_eq_succ_of_ne_zero (Nat.ne_zero_of_lt hlimit)
    rw [← hgoal]
    simp [locate]
  | @step u s x hne hs _ ih =>
    intro limit before hlimit
    obtain ⟨limit, rfl⟩ := Nat.exists_eq_succ_of_ne_zero (Nat.ne_zero_of_lt hlimit)
    have hut : u ≠ t := fun e => hne (by rw [e, hgoal])
    have hrest := ih (some u) (Nat.lt_of_succ_lt_succ hlimit)
    have hlast : x.getLast?.or (some u) = (u :: x).getLast?.or before := by
      cases hx : x.getLast? <;> simp [List.getLast?_cons, hx]
    simp only [locate, hut, if_false, link_of_slot? hs, bind, Except.bind, hrest, hlast]

/-- The search comes to the end of a walk that does not meet the thread. -/
theorem locate_of_notMem (h : table.Leads none cursor x) (ht : t ∉ x) :
    ∀ {limit : Nat} (before : Option ThreadId), x.length ≤ limit →
      locate table t limit before cursor = .ok none := by
  induction h with
  | here => intro limit before _; cases limit <;> rfl
  | @step u s x _ hs _ ih =>
    intro limit before hlimit
    obtain ⟨limit, rfl⟩ := Nat.exists_eq_succ_of_ne_zero (Nat.ne_zero_of_lt hlimit)
    obtain ⟨htu, htx⟩ := not_or.mp (mt List.mem_cons.mpr ht)
    have hrest := ih htx (some u) (Nat.le_of_succ_le_succ hlimit)
    simp only [locate, Ne.symm htu, if_false, link_of_slot? hs, bind, Except.bind, hrest]

/-- The search is given up on a walk that comes neither to the thread nor to an end. -/
theorem locate_of_endless (hlinks : table.LinksInRange) :
    ∀ (limit : Nat) {cursor : Option ThreadId} (before : Option ThreadId), table.InRange cursor →
      (∀ n, table.behind^[n] cursor ≠ some t) → (∀ n, table.behind^[n] cursor ≠ none) →
      locate table t limit before cursor = .error .endlessWalk
  | _, none, _, _, _, hend => absurd rfl (hend 0)
  | 0, some _, _, _, _, _ => rfl
  | limit + 1, some u, before, hcursor, ht, hend => by
    obtain ⟨s, hs⟩ := hcursor.exists_slot
    have hut : u ≠ t := fun e => ht 0 (congrArg some e)
    have hstep : ∀ n, table.behind^[n] s.next = table.behind^[n + 1] (some u) := fun n => by
      rw [Function.iterate_succ_apply, behind_of_slot? hs]
    have hrest := locate_of_endless hlinks limit (some u) (hlinks u s hs)
      (fun n => hstep n ▸ ht (n + 1)) (fun n => hstep n ▸ hend (n + 1))
    simp only [locate, hut, if_false, link_of_slot? hs, bind, Except.bind, hrest]

/-! ### Taking a thread out -/

/-- The queue after a thread has left its place between two others, with its new length. -/
def unhooked (q : ReadyQueue) (before next : Option ThreadId) (size : Nat) : ReadyQueue where
  id := q.id
  head := if before.isSome then q.head else next
  tail := if next.isSome then q.tail else before
  size := size

/-- A tagged thread that the walk comes to is taken out, if the queue has a member by its
length. -/
theorem remove_of_leads {q : ReadyQueue} (htag : table.tag t = .ok (.ready q.id))
    (hs : table.slot? t = some s) (hnext : table.InRange s.next)
    (hwalk : table.Leads (some t) q.head x) :
    q.remove table t = Logged.ofExcept (q.shrink.map fun size =>
      (true, q.unhooked x.getLast? s.next size, table.unhooked x.getLast? t s.next)) := by
  have hqueued : q.isQueued table t = true := hasTag_iff.mpr htag
  have ht : t.index < table.capacity := index_lt_of_slot? hs
  have hlocate : locate table t (table.capacity + 1) none q.head = .ok (some x.getLast?) := by
    rw [locate_of_leads hwalk none (Nat.lt_succ_of_lt (hwalk.length_lt hs)), Option.or_none]
  have hbefore : ∀ b, x.getLast? = some b → b.index < table.capacity := fun b hb => by
    obtain ⟨sb, hsb⟩ := hwalk.exists_slot b (List.mem_of_getLast? hb)
    exact index_lt_of_slot? hsb
  rw [remove, hqueued, hlocate]
  -- a thread may stand in front of it, behind it, on both sides or on neither
  cases hx : x.getLast? with
  | none =>
    cases hn : s.next with
    | none => simp [link_of_slot? hs, hn, ht, Logged.map_lift, unhooked, ThreadTable.unhooked]
    | some a =>
      have ha : a.index < table.capacity := hnext a hn
      simp [link_of_slot? hs, hn, ht, ha, Logged.map_lift, unhooked, ThreadTable.unhooked]
  | some b =>
    have hb : b.index < table.capacity := hbefore b hx
    cases hn : s.next with
    | none => simp [link_of_slot? hs, hn, ht, hb, Logged.map_lift, unhooked, ThreadTable.unhooked]
    | some a =>
      have ha : a.index < table.capacity := hnext a hn
      simp [link_of_slot? hs, hn, ht, ha, hb, Logged.map_lift, unhooked, ThreadTable.unhooked]

/-! ### Writing a walk down -/

/-- The text of threads in a list. -/
def listText (l : List ThreadId) : String := " ".intercalate (l.map ThreadId.text)

theorem listText_cons (t : ThreadId) (l : List ThreadId) :
    listText (t :: l) = t.text ++ ((if l.isEmpty then "" else " ") ++ listText l) := by
  cases l with
  | nil => simp [listText]
  | cons u l => simp [listText, String.intercalate_cons_cons, String.append_assoc]

/-- What is written down is what a walk lists that may meet one thread more; the dots stand behind
this one. -/
theorem dumpFrom_of_walk : ∀ {left : Nat} (first : Bool) {cursor : Option ThreadId}
    {l : List ThreadId}, walk table (left + 1) cursor = .ok l →
    dumpFrom table left first cursor =
      .ok ((if first || l.isEmpty then "" else " ") ++
        (listText l ++ if left < l.length then " ..." else ""))
  | left, first, none, l, h => by
    obtain rfl : [] = l := Except.ok.inj h
    cases left <;> simp [dumpFrom, listText]
  | left, first, some t, l, h => by
    cases hs : table.link t with
    | error fault => simp [walk, hs, bind, Except.bind] at h
    | ok s =>
      cases hrest : walk table left s.next with
      | error fault => simp [walk, hs, hrest, bind, Except.bind] at h
      | ok rest =>
        obtain rfl : t :: rest = l := by
          simpa [walk, hs, hrest, bind, Except.bind, pure, Except.pure] using h
        cases left with
        | zero =>
          obtain rfl : [] = rest := Except.ok.inj hrest
          simp [dumpFrom, listText, String.append_assoc]
        | succ left =>
          have hbehind := dumpFrom_of_walk false hrest
          simp [dumpFrom, hs, hbehind, listText_cons, bind, Except.bind, pure, Except.pure,
            String.append_assoc]

/-- A queue shows the threads that are counted as its members. The dots stand behind them if they
are more than there are slots. -/
theorem dump_of_members {q : ReadyQueue} (h : q.members table = .ok l) :
    q.dump table =
      .ok (q.dumpText (listText l ++ if table.capacity < l.length then " ..." else "")) := by
  have hthreads : dumpFrom table table.capacity true q.head =
      .ok ("" ++ (listText l ++ if table.capacity < l.length then " ..." else "")) :=
    dumpFrom_of_walk true h
  rw [dump, hthreads, String.empty_append]
  rfl

/-- A queue can be written down wherever its links lead. -/
theorem exists_dump {q : ReadyQueue} (hlinks : table.LinksInRange) (hhead : table.InRange q.head) :
    ∃ text, q.dump table = .ok text := by
  obtain ⟨l, hl, -⟩ := exists_walk hlinks (table.capacity + 1) hhead
  have hmembers : q.members table = .ok l := hl
  exact ⟨_, dump_of_members hmembers⟩

end ReadyQueue
end PulseKernel
