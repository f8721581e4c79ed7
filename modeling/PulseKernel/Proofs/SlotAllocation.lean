/-
# Slots are granted and returned

A table counts its threads apart from the slots that they are in, so the number and the slots
could drift apart. They do not, because only a registration and a release change either of them,
and each changes both by one. Whatever a queue does leaves them alone
(`ThreadTable.SameThreads`), and this is said of queues in any state: of one that runs in a circle
or belongs to another table as well.

What a table owes to its past (`ThreadTable.Ledger`) is kept by every operation, so it is there
after any history. A slot is granted only while it is free, and it is free only if it has never
been granted or has been returned since: no thread id names two threads at once.

Key definitions: `Handover`, `Handover.Holds`, `Handover.Fair`, `ThreadTable.serve`,
`ThreadTable.history`, `ThreadTable.Ledger`, `ThreadTable.Allocates`.
Key theorems: `ThreadTable.serve_effect`, `ThreadTable.Ledger.history`,
`ThreadTable.history_allocates`, `Layout.run_allocates`.
-/
import Mathlib.Order.Bounds.Basic
import PulseKernel.Proofs.Audit
import PulseKernel.Proofs.SharedTable

namespace PulseKernel

/-! ### Handovers -/

/-- A slot changes hands. -/
inductive Handover where
  | granted (t : ThreadId)
  | returned (t : ThreadId)
deriving DecidableEq, Repr

namespace Handover

variable {past : List Handover} {t u : ThreadId}

/-- The slot was granted and has not been returned since. -/
def Holds (past : List Handover) (t : ThreadId) : Prop :=
  ∃ before since, past = before ++ granted t :: since ∧ returned t ∉ since

/-- Between two grants of a slot it is returned, and only a slot that is held is returned. -/
structure Fair (past : List Handover) : Prop where
  returned_between : ∀ t before since after,
    past = before ++ granted t :: since ++ granted t :: after → returned t ∈ since
  holds_before : ∀ t before after, past = before ++ returned t :: after → Holds before t

theorem not_holds_nil (t : ThreadId) : ¬ Holds [] t := by
  rintro ⟨before, since, h, -⟩
  simp at h

theorem fair_nil : Fair [] where
  returned_between t before since after h := by simp at h
  holds_before t before after h := by simp at h

/-- A split of a history is one at its last handover, or one of what came before. -/
theorem concat_eq_append_cons {x y : Handover} {before after : List Handover} :
    past ++ [x] = before ++ y :: after ↔
      (past = before ∧ x = y ∧ after = []) ∨
        ∃ rest, after = rest ++ [x] ∧ past = before ++ y :: rest := by
  rcases List.eq_nil_or_concat after with rfl | ⟨rest, z, rfl⟩
  · constructor
    · intro h
      obtain ⟨hpast, hx⟩ := List.append_inj' h rfl
      exact .inl ⟨hpast, by simpa using hx, rfl⟩
    · rintro (⟨rfl, rfl, -⟩ | ⟨rest, h, -⟩)
      · rfl
      · simp at h
  · constructor
    · intro h
      rw [List.concat_eq_append, ← List.cons_append, ← List.append_assoc] at h
      obtain ⟨hpast, hx⟩ := List.append_inj' h rfl
      obtain rfl : x = z := by simpa using hx
      exact .inr ⟨rest, by simp, hpast⟩
    · rintro (⟨-, -, h⟩ | ⟨rest', h, rfl⟩)
      · simp at h
      · rw [h]; simp

theorem holds_granted : Holds (past ++ [granted u]) t ↔ t = u ∨ Holds past t := by
  constructor
  · rintro ⟨before, since, h, hsince⟩
    rcases concat_eq_append_cons.mp h with ⟨-, hu, -⟩ | ⟨rest, rfl, rfl⟩
    · exact .inl (by simpa using hu.symm)
    · exact .inr ⟨before, rest, rfl, fun hmem => hsince (List.mem_append_left _ hmem)⟩
  · rintro (rfl | ⟨before, since, rfl, hsince⟩)
    · exact ⟨past, [], rfl, List.not_mem_nil⟩
    · exact ⟨before, since ++ [granted u], by simp, by simpa using hsince⟩

theorem holds_returned : Holds (past ++ [returned u]) t ↔ t ≠ u ∧ Holds past t := by
  constructor
  · rintro ⟨before, since, h, hsince⟩
    rcases concat_eq_append_cons.mp h with ⟨-, hu, -⟩ | ⟨rest, rfl, rfl⟩
    · cases hu
    · rw [List.mem_append, not_or] at hsince
      exact ⟨by simpa using hsince.2, before, rest, rfl, hsince.1⟩
  · rintro ⟨hne, before, since, rfl, hsince⟩
    exact ⟨before, since ++ [returned u], by simp, by simp [hsince, hne]⟩

/-- What is not held can be granted. -/
theorem Fair.granted (h : Fair past) (hu : ¬ Holds past u) : Fair (past ++ [granted u]) where
  returned_between t before since after hsplit := by
    rcases concat_eq_append_cons.mp hsplit with ⟨rfl, hut, -⟩ | ⟨rest, -, hpast⟩
    · obtain rfl : u = t := by simpa using hut
      exact not_not.mp fun hsince => hu ⟨before, since, rfl, hsince⟩
    · exact h.returned_between t before since rest hpast
  holds_before t before after hsplit := by
    rcases concat_eq_append_cons.mp hsplit with ⟨-, hut, -⟩ | ⟨rest, -, hpast⟩
    · cases hut
    · exact h.holds_before t before rest hpast

/-- What is held can be returned. -/
theorem Fair.returned (h : Fair past) (hu : Holds past u) : Fair (past ++ [returned u]) where
  returned_between t before since after hsplit := by
    rcases concat_eq_append_cons.mp hsplit with ⟨-, hut, -⟩ | ⟨rest, -, hpast⟩
    · cases hut
    · exact h.returned_between t before since rest hpast
  holds_before t before after hsplit := by
    rcases concat_eq_append_cons.mp hsplit with ⟨rfl, hut, -⟩ | ⟨rest, -, hpast⟩
    · obtain rfl : u = t := by simpa using hut
      exact hu
    · exact h.holds_before t before rest hpast

end Handover

/-! ### The same threads in the same slots -/

namespace ThreadTable

variable {table table' table'' : ThreadTable} {t u : ThreadId} {s : Slot}

/-- The same slots are in use, and the table counts as many threads. -/
structure SameThreads (table table' : ThreadTable) : Prop where
  live : table'.live = table.live
  inUse : table'.slots.map (·.inUse) = table.slots.map (·.inUse)

namespace SameThreads

theorem refl (table : ThreadTable) : table.SameThreads table := ⟨rfl, rfl⟩

theorem trans (h : table.SameThreads table') (h' : table'.SameThreads table'') :
    table.SameThreads table'' := ⟨h'.live.trans h.live, h'.inUse.trans h.inUse⟩

theorem touch (table : ThreadTable) (who : Option ThreadId) {f : Slot → Slot}
    (hf : ∀ s, (f s).inUse = s.inUse) : table.SameThreads (table.touch who f) := by
  cases who with
  | none => exact refl table
  | some t =>
    refine ⟨rfl, Array.ext_getElem? fun i => ?_⟩
    simp only [ThreadTable.touch, Array.getElem?_map, Array.getElem?_modify]
    split
    · rw [Option.map_map]
      exact congrArg (Option.map · _) (funext hf)
    · rfl

/-- Whatever a queue writes into a link, the threads stay. -/
theorem modifyLink (h : table.SameThreads table') {f : Slot → Slot}
    (hf : ∀ s, (f s).inUse = s.inUse) :
    (liftM (table'.modifyLink t f) : Logged ThreadTable).Only fun table'' =>
      table.SameThreads table'' := by
  intro table'' hmodify
  have hmodify : table'.modifyLink t f = .ok table'' := hmodify
  cases hlink : table'.link t with
  | error fault => simp [ThreadTable.modifyLink, hlink, bind, Except.bind] at hmodify
  | ok slot =>
    rw [modifyLink_of_lt (index_lt_of_slot? (link_eq_ok.mp hlink)) f] at hmodify
    obtain rfl := Except.ok.inj hmodify
    exact h.trans (touch table' (some t) hf)

theorem setTag (h : table.SameThreads table') (tag : Tag) :
    (liftM (table'.setTag t tag) : Logged ThreadTable).Only fun table'' =>
      table.SameThreads table'' := h.modifyLink fun _ => rfl

theorem setNext (h : table.SameThreads table') (next : Option ThreadId) :
    (liftM (table'.setNext t next) : Logged ThreadTable).Only fun table'' =>
      table.SameThreads table'' := h.modifyLink fun _ => rfl

theorem setPrev (h : table.SameThreads table') (prev : Option ThreadId) :
    (liftM (table'.setPrev t prev) : Logged ThreadTable).Only fun table'' =>
      table.SameThreads table'' := h.modifyLink fun _ => rfl

theorem unlink (h : table.SameThreads table') :
    (liftM (table'.unlink t) : Logged ThreadTable).Only fun table'' =>
      table.SameThreads table'' := h.modifyLink fun _ => rfl

theorem capacity (h : table.SameThreads table') : table'.capacity = table.capacity := by
  have hsize := congrArg Array.size h.inUse
  rwa [Array.size_map, Array.size_map] at hsize

theorem countP (h : table.SameThreads table') :
    table'.slots.countP (·.inUse) = table.slots.countP (·.inUse) := by
  have hcount := congrArg (Array.countP id) h.inUse
  rwa [Array.countP_map, Array.countP_map] at hcount

end SameThreads

theorem contains_iff_inUse :
    table.contains t = true ↔ ∃ s, table.slot? t = some s ∧ s.inUse = true := by
  rw [contains_iff]
  constructor
  · rintro ⟨g, hg⟩
    obtain ⟨s, hs, hused, -⟩ := tag_eq_ok.mp hg
    exact ⟨s, hs, hused⟩
  · rintro ⟨s, hs, hused⟩
    exact ⟨s.tag, tag_eq_ok.mpr ⟨s, hs, hused, rfl⟩⟩

theorem SameThreads.contains (h : table.SameThreads table') (t : ThreadId) :
    table'.contains t = table.contains t := by
  have hmap : (table'.slot? t).map (·.inUse) = (table.slot? t).map (·.inUse) := by
    simp only [slot?, ← Array.getElem?_map, h.inUse]
  have hiff : ∀ table : ThreadTable,
      table.contains t = true ↔ (table.slot? t).map (·.inUse) = some true := by
    intro table
    rw [contains_iff_inUse, Option.map_eq_some_iff]
  rw [Bool.eq_iff_iff, hiff, hiff, hmap]

end ThreadTable

/-! ### Queues leave the threads where they are -/

namespace ReadyQueue

variable (q : ReadyQueue) (table : ThreadTable) (t : ThreadId)

theorem enqueue_sameThreads :
    (q.enqueue table t).Only fun r => table.SameThreads r.2.2 := by
  have hsame := ThreadTable.SameThreads.refl table
  unfold enqueue
  split
  · exact .bind (Logged.only_true _) fun _ _ => .pure hsame
  · split
    · exact .bind (Logged.only_true _) fun _ _ => .pure hsame
    · refine .bind (hsame.modifyLink fun _ => rfl) fun table₁ h₁ => ?_
      split
      · exact .bind (h₁.setNext _) fun _ h₂ => .pure h₂
      · exact .pure h₁

/-- A thread leaves a queue: its slot is unlinked, and the queue gets shorter. -/
theorem leave_sameThreads {table' : ThreadTable} (h : table.SameThreads table') {α : Type} (a : α)
    (rest : Nat → ReadyQueue) :
    (do
      let table'' ← table'.unlink t
      let size ← q.shrink
      return (a, rest size, table'') : Logged (α × ReadyQueue × ThreadTable)).Only
      fun r => table.SameThreads r.2.2 :=
  .bind h.unlink fun _ h₁ => .bind (Logged.only_true _) fun _ _ => .pure h₁

theorem dequeue_sameThreads : (q.dequeue table).Only fun r => table.SameThreads r.2.2 := by
  have hsame := ThreadTable.SameThreads.refl table
  unfold dequeue
  split
  · exact .pure hsame
  · refine .bind (Logged.only_true _) fun slot _ => ?_
    split
    · exact Logged.only_violate _ _ _
    · simp only [pure_bind]
      split
      · exact .bind (hsame.setPrev _) fun _ h₁ => leave_sameThreads _ _ _ h₁ _ _
      · exact leave_sameThreads _ _ _ hsame _ _

theorem remove_sameThreads : (q.remove table t).Only fun r => table.SameThreads r.2.2 := by
  have hsame := ThreadTable.SameThreads.refl table
  unfold remove
  split
  · exact .pure hsame
  · refine .bind (Logged.only_true _) fun place _ => ?_
    split
    · exact .bind (Logged.only_true _) fun _ _ => Logged.only_violate _ _ _
    · refine .bind (Logged.only_true _) fun slot _ => ?_
      simp only [pure_bind]
      -- the thread in front of it is there or not, and then the one behind it is or not
      split
      · refine .bind (hsame.setNext _) fun _ h₁ => ?_
        split
        · exact .bind (h₁.setPrev _) fun _ h₂ => leave_sameThreads _ _ _ h₂ _ _
        · exact leave_sameThreads _ _ _ h₁ _ _
      · split
        · exact .bind (hsame.setPrev _) fun _ h₁ => leave_sameThreads _ _ _ h₁ _ _
        · exact leave_sameThreads _ _ _ hsame _ _

end ReadyQueue

namespace SleepQueue

variable (q : SleepQueue) (table : ThreadTable) (deadline : Nat) (t : ThreadId)

theorem insert_sameThreads : (q.insert table deadline t).Only fun r => table.SameThreads r.2.2 := by
  unfold insert
  split
  · exact .pure (.refl table)
  · exact .bind ((ThreadTable.SameThreads.refl table).setTag _) fun _ h₁ => .pure h₁

theorem take_sameThreads (i : Fin q.heap.size) :
    (q.take table i).Only fun r => table.SameThreads r.2.2 := by
  unfold take
  refine .bind (Logged.only_true _) fun slot _ => ?_
  split
  · exact Logged.only_violate _ _ _
  · exact .bind (ThreadTable.SameThreads.refl table).unlink fun _ h₁ => .pure h₁

theorem remove_sameThreads : (q.remove table deadline).Only fun r => table.SameThreads r.2.2 := by
  unfold remove
  split
  · exact .pure (.refl table)
  · exact .bind (q.take_sameThreads table _) fun _ h₁ => .pure h₁

theorem removeThread_sameThreads :
    (q.removeThread table t).Only fun r => table.SameThreads r.2.2 := by
  unfold removeThread
  split
  · exact .pure (.refl table)
  · exact .bind (q.take_sameThreads table _) fun _ h₁ => .pure h₁

end SleepQueue

/-! ### A slot is taken or given back -/

namespace ThreadTable

variable {table table' : ThreadTable} {t u : ThreadId} {s : Slot} {context : SavedContext}

/-- The indexes of the slots without a thread. -/
def free (table : ThreadTable) : Set Nat := {i | ∃ s, table.slots[i]? = some s ∧ s.inUse = false}

/-- The table differs in one slot at most, which reads like this now. -/
structure Puts (table table' : ThreadTable) (t : ThreadId) (s : Slot) : Prop where
  slot : table'.slot? t = some s
  others : ∀ u, u ≠ t → table'.slot? u = table.slot? u

theorem Puts.touch (hs : table.slot? t = some s) (f : Slot → Slot) :
    table.Puts (table.touch (some t) f) t (f s) where
  slot := by rw [slot?_touch, if_pos rfl, hs, Option.map_some]
  others u hu := by rw [slot?_touch, if_neg fun h => hu (Option.some.inj h).symm]

theorem Puts.setLive (h : table.Puts table' t s) (n : Nat) :
    table.Puts { table' with live := n } t s := ⟨h.slot, h.others⟩

/-- The threads afterwards are those from before, but for the slot that was written. -/
theorem Puts.contains (h : table.Puts table' t s) :
    table'.contains u = true ↔ if u = t then s.inUse = true else table.contains u = true := by
  simp only [contains_iff_inUse]
  split
  · rename_i hu
    subst hu
    rw [h.slot]
    simp
  · rename_i hu
    rw [h.others u hu]

/-- Writing over a slot changes the number of threads by that one slot. -/
theorem countP_touch (hs : table.slot? t = some s) (f : Slot → Slot) :
    (table.touch (some t) f).slots.countP (·.inUse) + (if s.inUse then 1 else 0) =
      table.slots.countP (·.inUse) + if (f s).inUse then 1 else 0 := by
  obtain ⟨hlt, rfl⟩ := Array.getElem?_eq_some_iff.mp hs
  rw [← setIfInBounds_eq_touch hs f, Array.setIfInBounds_def, dif_pos hlt, Array.countP_set]
  have hpos : (if table.slots[t.index].inUse then 1 else 0) ≤ table.slots.countP (·.inUse) := by
    split
    · exact Array.one_le_countP_iff.mpr ⟨_, Array.getElem_mem hlt, ‹_›⟩
    · exact Nat.zero_le _
  omega

theorem free_eq_empty_iff : table.free = ∅ ↔ ∀ s ∈ table.slots, s.inUse = true := by
  rw [Set.eq_empty_iff_forall_notMem]
  constructor
  · intro h s hs
    obtain ⟨i, hi⟩ := Array.mem_iff_getElem?.mp hs
    cases hused : s.inUse with
    | true => rfl
    | false => exact absurd ⟨s, hi, hused⟩ (h i)
  · rintro h i ⟨s, hs, hfree⟩
    have hused := h s (Array.mem_of_getElem? hs)
    rw [hfree] at hused
    cases hused

/-- The table is full exactly if it counts as many threads as it has slots. -/
theorem live_eq_capacity_iff (hlive : table.live = table.slots.countP (·.inUse)) :
    table.live = table.capacity ↔ table.free = ∅ := by
  rw [hlive, capacity, Array.countP_eq_size, free_eq_empty_iff]

/-- A registration fails exactly if there is no free slot, and then writes nothing. -/
theorem register_eq_error {r : Refusal} :
    table.register context = (.error r, table') ↔
      r = .threadLimitReached table.capacity ∧ table.free = ∅ ∧ table' = table := by
  have hnone : table.slots.findIdx? (!·.inUse) = none ↔ table.free = ∅ := by
    simp [Array.findIdx?_eq_none_iff, free_eq_empty_iff]
  unfold register
  split
  · rename_i hfind
    simp [hnone.mp hfind, eq_comm (a := r), eq_comm (a := table')]
  · rename_i index hfind
    have hfree : table.free ≠ ∅ := by
      rw [ne_eq, ← hnone, hfind]
      simp
    simp [hfree]

/-- A registration takes the first free slot, and fills it anew. -/
theorem register_puts (h : table.register context = (.ok t, table')) :
    IsLeast table.free t.index ∧ table.Puts table' t { inUse := true, context := context } := by
  obtain ⟨⟨s, hs, hfree⟩, rfl⟩ := register_eq_ok h
  refine ⟨⟨⟨s, hs, hfree⟩, ?_⟩, (Puts.touch hs _).setLive _⟩
  rintro i ⟨s', hs', hfree'⟩
  unfold register at h
  split at h
  · cases h
  · rename_i index hfind
    obtain rfl := Except.ok.inj (Prod.mk.inj h).1
    obtain ⟨_, -, hbelow⟩ := Array.findIdx?_eq_some_iff_getElem.mp hfind
    obtain ⟨hi, rfl⟩ := Array.getElem?_eq_some_iff.mp hs'
    exact Nat.le_of_not_lt fun hlt => hbelow i hlt (by simpa using hfree')

/-- A release empties the slot. -/
theorem release_puts (h : table.release t = (.ok (), table')) : table.Puts table' t .vacant := by
  obtain ⟨htag, rfl⟩ := release_eq_ok.mp h
  obtain ⟨s, hs, -, -⟩ := tag_eq_ok.mp htag
  exact (Puts.touch hs _).setLive _

/-! ### What is done with a table -/

/-- Carries out an operation, with a queue in the place of each queue's name, and tells which slot
changed hands. -/
def serve (table : ThreadTable) :
    Operation ReadyQueue SleepQueue → Logged (Option Handover × ThreadTable)
  | .register context =>
    match table.register context with
    | (.ok t, table) => return (some (.granted t), table)
    | (.error _, table) => return (none, table)
  | .release t =>
    match table.release t with
    | (.ok (), table) => return (some (.returned t), table)
    | (.error _, table) => return (none, table)
  | .setContext t context =>
    match table.setContext t context with
    | .ok table => return (none, table)
    | .error _ => return (none, table)
  | .enqueue q t => do return (none, (← q.enqueue table t).2.2)
  | .dequeue q => do return (none, (← q.dequeue table).2.2)
  | .remove q t => do return (none, (← q.remove table t).2.2)
  | .insert q deadline t => do return (none, (← q.insert table deadline t).2.2)
  | .expire q deadline => do return (none, (← q.remove table deadline).2.2)
  | .removeThread q t => do return (none, (← q.removeThread table t).2.2)

/-- Carries out one operation after the other. The slots that changed hands are told, and the
table at the end. An operation that ends in a fault halts everything. -/
def history (table : ThreadTable) :
    List (Operation ReadyQueue SleepQueue) → List Handover × ThreadTable
  | [] => ([], table)
  | op :: ops =>
    match (table.serve op).result with
    | .error _ => ([], table)
    | .ok (change, table) => (change.toList ++ (table.history ops).1, (table.history ops).2)

/-- What an operation can do to the slots: one is granted, one is returned, or each keeps its
thread. -/
inductive ServeEffect (table : ThreadTable) : Option Handover × ThreadTable → Prop where
  | granted {t : ThreadId} {context : SavedContext} {table' : ThreadTable}
      (h : table.register context = (.ok t, table')) : ServeEffect table (some (.granted t), table')
  | returned {t : ThreadId} {table' : ThreadTable} (h : table.release t = (.ok (), table')) :
      ServeEffect table (some (.returned t), table')
  | same {table' : ThreadTable} (h : table.SameThreads table') : ServeEffect table (none, table')

theorem serve_effect (table : ThreadTable) (op : Operation ReadyQueue SleepQueue) :
    (table.serve op).Only (ServeEffect table) := by
  have hsame := SameThreads.refl table
  cases op with
  | register context =>
    simp only [serve]
    split
    · exact .pure (.granted ‹_›)
    · rename_i hrefused
      exact .pure (.same (register_refused hrefused ▸ hsame))
  | release t =>
    simp only [serve]
    split
    · exact .pure (.returned ‹_›)
    · rename_i hrefused
      exact .pure (.same (release_refused hrefused ▸ hsame))
  | setContext t context =>
    simp only [serve]
    split
    · rename_i table' h
      rw [setContext_eq_ok h]
      exact .pure (.same (.touch table (some t) fun _ => rfl))
    · exact .pure (.same hsame)
  | enqueue q t => exact .bind (q.enqueue_sameThreads table t) fun _ h => .pure (.same h)
  | dequeue q => exact .bind (q.dequeue_sameThreads table) fun _ h => .pure (.same h)
  | remove q t => exact .bind (q.remove_sameThreads table t) fun _ h => .pure (.same h)
  | insert q deadline t =>
    exact .bind (q.insert_sameThreads table deadline t) fun _ h => .pure (.same h)
  | expire q deadline => exact .bind (q.remove_sameThreads table deadline) fun _ h => .pure (.same h)
  | removeThread q t => exact .bind (q.removeThread_sameThreads table t) fun _ h => .pure (.same h)

/-! ### The ledger -/

/-- A table of so many slots, after these handovers: its number of threads is that of the slots in
use, these are the ones that are held, and none changed hands out of turn. -/
structure Ledger (capacity : Nat) (past : List Handover) (table : ThreadTable) : Prop where
  capacity : table.capacity = capacity
  live : table.live = table.slots.countP (·.inUse)
  holds : ∀ t, table.contains t = true ↔ Handover.Holds past t
  fair : Handover.Fair past

variable {capacity : Nat} {past : List Handover}

theorem Ledger.fresh (capacity : Nat) : Ledger capacity [] (ofCapacity capacity) where
  capacity := capacity_ofCapacity capacity
  live := by simp [ofCapacity, Slot.vacant, Array.countP_replicate]
  holds t := by
    refine iff_of_false (fun h => ?_) (Handover.not_holds_nil t)
    obtain ⟨s, hs, hused⟩ := contains_iff_inUse.mp h
    rw [slot?_ofCapacity hs] at hused
    cases hused
  fair := Handover.fair_nil

theorem Ledger.granted (h : Ledger capacity past table)
    (hregister : table.register context = (.ok t, table')) :
    Ledger capacity (past ++ [.granted t]) table' := by
  have hputs := (register_puts hregister).2
  obtain ⟨⟨s, hs, hfree⟩, rfl⟩ := register_eq_ok hregister
  have hcount := countP_touch hs fun _ => { inUse := true, context := context }
  constructor
  case capacity => rw [← h.capacity]; exact capacity_touch table (some t) _
  case live => simpa [hfree, h.live] using hcount.symm
  case holds =>
    intro u
    rw [hputs.contains, Handover.holds_granted, ← h.holds]
    split <;> simp [*]
  case fair =>
    refine h.fair.granted fun hheld => ?_
    obtain ⟨s', hs', hused⟩ := contains_iff_inUse.mp ((h.holds t).mpr hheld)
    rw [hs] at hs'
    obtain rfl := Option.some.inj hs'
    rw [hfree] at hused
    cases hused

theorem Ledger.returned (h : Ledger capacity past table)
    (hrelease : table.release t = (.ok (), table')) :
    Ledger capacity (past ++ [.returned t]) table' := by
  have hputs := release_puts hrelease
  obtain ⟨htag, rfl⟩ := release_eq_ok.mp hrelease
  obtain ⟨s, hs, hused, -⟩ := tag_eq_ok.mp htag
  have hcount := countP_touch hs fun _ => .vacant
  constructor
  case capacity => rw [← h.capacity]; exact capacity_touch table (some t) _
  case live =>
    rw [← h.live, hused] at hcount
    exact Nat.sub_eq_of_eq_add hcount.symm
  case holds =>
    intro u
    rw [hputs.contains, Handover.holds_returned, ← h.holds]
    split <;> simp [*, Slot.vacant]
  case fair => exact h.fair.returned ((h.holds t).mp (contains_iff_inUse.mpr ⟨s, hs, hused⟩))

theorem Ledger.same (h : Ledger capacity past table) (hsame : table.SameThreads table') :
    Ledger capacity past table' where
  capacity := hsame.capacity.trans h.capacity
  live := by rw [hsame.live, hsame.countP, h.live]
  holds t := by rw [hsame.contains, h.holds]
  fair := h.fair

/-- Whatever is done with the table, the ledger goes on. -/
theorem Ledger.serve (h : Ledger capacity past table) (op : Operation ReadyQueue SleepQueue) :
    (table.serve op).Only fun r => Ledger capacity (past ++ r.1.toList) r.2 := by
  intro r hr
  cases table.serve_effect op r hr with
  | granted hregister => exact h.granted hregister
  | returned hrelease => exact h.returned hrelease
  | same hsame => simpa using h.same hsame

theorem Ledger.history (h : Ledger capacity past table)
    (ops : List (Operation ReadyQueue SleepQueue)) :
    Ledger capacity (past ++ (table.history ops).1) (table.history ops).2 := by
  induction ops generalizing past table with
  | nil => simpa [ThreadTable.history] using h
  | cons op ops ih =>
    unfold ThreadTable.history
    split
    · simpa using h
    · rename_i change table' hop
      simpa using ih (h.serve op _ hop)

/-- What a table does with its slots after these handovers, so many slots being there. -/
structure Allocates (table : ThreadTable) (capacity : Nat) (past : List Handover) : Prop where
  slots : table.capacity = capacity
  /-- The number of threads is that of the slots in use. -/
  size : table.size = table.slots.countP (·.inUse)
  size_le : table.size ≤ capacity
  /-- A registration fails exactly if the table is full, and then writes nothing. -/
  register_fails : ∀ context r table', table.register context = (.error r, table') ↔
    r = .threadLimitReached capacity ∧ table.size = capacity ∧ table' = table
  /-- Otherwise it gives the first free slot, filled anew. -/
  register_gives : ∀ context t table', table.register context = (.ok t, table') →
    IsLeast table.free t.index ∧
      table.Puts table' t
        { inUse := true, tag := .unqueued, next := none, prev := none, context := context }
  /-- Who is registered and on no queue can be released. -/
  release_iff : ∀ t, (∃ table', table.release t = (.ok (), table')) ↔
    ∃ s, table.slot? t = some s ∧ s.inUse = true ∧ s.tag = .unqueued
  /-- A release that is refused writes nothing. -/
  release_fails : ∀ t r table', table.release t = (.error r, table') → table' = table
  /-- A release empties the slot. -/
  release_gives : ∀ t table', table.release t = (.ok (), table') → table.Puts table' t .vacant
  /-- The threads that the table lists are those that are held, each of them once. -/
  listed : ∀ t, t ∈ table.threads.map (·.1) ↔ Handover.Holds past t
  nodup : (table.threads.map (·.1)).Nodup
  fair : Handover.Fair past

theorem mem_threads_iff_contains : t ∈ table.threads.map (·.1) ↔ table.contains t = true := by
  rw [contains_iff, List.mem_map]
  constructor
  · rintro ⟨⟨t, g⟩, hmem, rfl⟩
    exact ⟨g, mem_threads_iff.mp hmem⟩
  · rintro ⟨g, hg⟩
    exact ⟨(t, g), mem_threads_iff.mpr hg, rfl⟩

theorem Ledger.allocates (h : Ledger capacity past table) : table.Allocates capacity past where
  slots := h.capacity
  size := h.live
  size_le := by
    rw [← h.capacity, size, h.live]
    exact Array.countP_le_size
  register_fails context r table' := by
    rw [register_eq_error, ← live_eq_capacity_iff h.live, h.capacity, size]
  register_gives context t table' hregister := register_puts hregister
  release_iff t := by
    rw [← tag_eq_ok]
    exact ⟨fun ⟨table', hrelease⟩ => (release_eq_ok.mp hrelease).1,
      fun htag => ⟨_, release_eq_ok.mpr ⟨htag, rfl⟩⟩⟩
  release_fails t r table' hrelease := release_refused hrelease
  release_gives t table' hrelease := release_puts hrelease
  listed t := by rw [mem_threads_iff_contains, h.holds]
  nodup := table.nodup_threads
  fair := h.fair

/-- Whatever is done with a new table and with queues in whatever state, the table gives out its
slots as it should. -/
theorem history_allocates (capacity : Nat) (ops : List (Operation ReadyQueue SleepQueue)) :
    ((ofCapacity capacity).history ops).2.Allocates capacity ((ofCapacity capacity).history ops).1 :=
  ((Ledger.fresh capacity).history ops).allocates

example : ((ofCapacity 1).history [.register {}, .register {}, .release ⟨0⟩, .register {}]).1 =
    [.granted ⟨0⟩, .returned ⟨0⟩, .granted ⟨0⟩] := by decide +kernel

end ThreadTable

/-! ### Queues over one table -/

namespace SharedTable

variable {ρ σ : Type} [DecidableEq ρ] [DecidableEq σ]

/-- The operation with the queues that the names stand for. -/
def resolve (s : SharedTable ρ σ) : Operation ρ σ → Operation ReadyQueue SleepQueue
  | .register context => .register context
  | .release t => .release t
  | .setContext t context => .setContext t context
  | .enqueue r t => .enqueue (s.ready r) t
  | .dequeue r => .dequeue (s.ready r)
  | .remove r t => .remove (s.ready r) t
  | .insert w deadline t => .insert (s.sleep w) deadline t
  | .expire w deadline => .expire (s.sleep w) deadline
  | .removeThread w t => .removeThread (s.sleep w) t

/-- Of a step over one table the table shows what it would show of the queue alone. -/
theorem table_step (s : SharedTable ρ σ) (op : Operation ρ σ) :
    (·.table) <$> s.step op = (·.2) <$> s.table.serve (s.resolve op) := by
  cases op with
  | register context =>
    simp only [step, register, resolve, ThreadTable.serve]
    obtain ⟨_ | t, table⟩ := s.table.register context <;> rfl
  | release t =>
    simp only [step, release, resolve, ThreadTable.serve]
    obtain ⟨_ | _, table⟩ := s.table.release t <;> rfl
  | setContext t context =>
    simp only [step, setContext, resolve, ThreadTable.serve, bind, Except.bind]
    cases s.table.setContext t context <;> rfl
  | enqueue r t => simp [step, enqueue, resolve, ThreadTable.serve, putReady]
  | dequeue r => simp [step, dequeue, resolve, ThreadTable.serve, putReady]
  | remove r t => simp [step, remove, resolve, ThreadTable.serve, putReady]
  | insert w deadline t => simp [step, insert, resolve, ThreadTable.serve, putSleep]
  | expire w deadline => simp [step, expire, resolve, ThreadTable.serve, putSleep]
  | removeThread w t => simp [step, removeThread, resolve, ThreadTable.serve, putSleep]

/-- What a run makes of the table is one of the histories of the table. -/
theorem exists_history (ops : List (Operation ρ σ)) {s s' : SharedTable ρ σ}
    (h : (s.run ops).result = .ok s') : ∃ acts, (s.table.history acts).2 = s'.table := by
  induction ops generalizing s with
  | nil =>
    obtain rfl := Except.ok.inj h
    exact ⟨[], rfl⟩
  | cons op ops ih =>
    obtain ⟨s₁, hstep, hrun⟩ := Logged.result_bind_eq_ok.mp h
    obtain ⟨acts, hacts⟩ := ih hrun
    have htable : ((·.table) <$> s.step op).result = .ok s₁.table := by
      rw [map_eq_pure_bind]
      exact Logged.result_bind_eq_ok.mpr ⟨s₁, hstep, rfl⟩
    rw [table_step, map_eq_pure_bind] at htable
    obtain ⟨⟨change, table⟩, hserve, htable⟩ := Logged.result_bind_eq_ok.mp htable
    obtain rfl : table = s₁.table := Except.ok.inj htable
    refine ⟨s.resolve op :: acts, ?_⟩
    rw [ThreadTable.history, hserve]
    exact hacts

end SharedTable

/-- Queues that share a new table never stop it, and it gives out its slots as it should. -/
theorem Layout.run_allocates {ρ σ : Type} [DecidableEq ρ] [DecidableEq σ] (L : Layout ρ σ)
    (ops : List (Operation ρ σ)) :
    ∃ s past, (L.fresh.run ops).result = .ok s ∧ s.table.Allocates L.slots past := by
  obtain ⟨s, -, -, hrun, -⟩ := L.exists_accounts ops
  obtain ⟨acts, hacts⟩ := SharedTable.exists_history ops hrun
  refine ⟨s, (L.fresh.table.history acts).1, hrun, ?_⟩
  rw [← hacts]
  exact ((ThreadTable.Ledger.fresh L.slots).history acts).allocates

end PulseKernel
