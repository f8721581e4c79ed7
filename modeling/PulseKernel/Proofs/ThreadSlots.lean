/-
# Slots, looked up and changed

What the table answers about a thread it answers from one slot, and whatever
changes a table changes it slot by slot. So a table is described by `slot?`, and a
queue operation by the slots it touches: `touch` changes the slot of a thread,
if there is one to change, and `slot?_touch` says how every slot reads
afterwards.

A slot that no ready queue owns has no links (`Tidy`).

Key definitions: `ThreadTable.slot?`, `ThreadTable.touch`, `ThreadTable.Tidy`.
Key theorems: `ThreadTable.slot?_touch`, `ThreadTable.tag_eq_ok`,
`ThreadTable.tag_touch`, `ThreadTable.register_eq_ok`, `ThreadTable.release_eq_ok`,
`ThreadTable.register_refused`, `ThreadTable.release_refused`.
-/
import Mathlib.Tactic.Common
import PulseKernel.Thread.Table

namespace PulseKernel

namespace Slot

/-- The slot with another thread behind it. -/
def withNext (next : Option ThreadId) (s : Slot) : Slot := { s with next := next }

/-- The slot with another thread in front of it. -/
def withPrev (prev : Option ThreadId) (s : Slot) : Slot := { s with prev := prev }

/-- The slot of a thread that is the last one on a ready queue. -/
def lastOn (id : QueueId) (prev : Option ThreadId) (s : Slot) : Slot :=
  { s with tag := .ready id, next := none, prev := prev }

/-- The slot of a thread that goes on from another context. -/
def withContext (context : SavedContext) (s : Slot) : Slot := { s with context := context }

/-- The slot of a thread that sleeps. -/
def dormant (s : Slot) : Slot := { s with tag := .asleep }

end Slot

namespace ThreadTable

variable {table : ThreadTable} {t u : ThreadId} {s : Slot}

/-- The slot at a thread's index, with or without a thread. -/
def slot? (table : ThreadTable) (t : ThreadId) : Option Slot := table.slots[t.index]?

/-- The table with the slot of a thread changed; the same table if no thread is given. -/
def touch (table : ThreadTable) (who : Option ThreadId) (f : Slot → Slot) : ThreadTable :=
  match who with
  | some t => { table with slots := table.slots.modify t.index f }
  | none => table

@[simp] theorem touch_none (table : ThreadTable) (f : Slot → Slot) : table.touch none f = table :=
  rfl

/-- Every slot after a change. -/
theorem slot?_touch (table : ThreadTable) (who : Option ThreadId) (f : Slot → Slot)
    (u : ThreadId) :
    (table.touch who f).slot? u = if who = some u then (table.slot? u).map f else table.slot? u := by
  cases who with
  | none => simp [touch]
  | some t =>
    have hindex : t.index = u.index ↔ t = u := by cases t; cases u; simp
    simp [touch, slot?, Array.getElem?_modify, hindex]

@[simp] theorem capacity_touch (table : ThreadTable) (who : Option ThreadId) (f : Slot → Slot) :
    (table.touch who f).capacity = table.capacity := by
  cases who <;> simp [touch, capacity]

theorem index_lt_of_slot? (h : table.slot? t = some s) : t.index < table.capacity := by
  unfold slot? at h
  exact (Array.getElem?_eq_some_iff.mp h).1

/-- Writing over a slot is changing it. -/
theorem setIfInBounds_eq_modify (h : table.slot? t = some s) (f : Slot → Slot) :
    table.slots.setIfInBounds t.index (f s) = table.slots.modify t.index f := by
  have hlt : t.index < table.slots.size := index_lt_of_slot? h
  have hs : table.slots[t.index]? = some s := h
  apply Array.ext_getElem?
  intro i
  rw [Array.getElem?_setIfInBounds, Array.getElem?_modify]
  by_cases hi : t.index = i
  · simp only [← hi, hlt, hs, if_true, Option.map_some]
  · simp only [hi, if_false]

theorem setIfInBounds_eq_touch (h : table.slot? t = some s) (f : Slot → Slot) :
    { table with slots := table.slots.setIfInBounds t.index (f s) } = table.touch (some t) f := by
  simp only [touch, setIfInBounds_eq_modify h]

@[simp] theorem slot?_setLive (table : ThreadTable) (n : Nat) (u : ThreadId) :
    ({ table with live := n } : ThreadTable).slot? u = table.slot? u := rfl

/-! ### What the table answers -/

theorem slot_eq_ok : table.slot t = .ok s ↔ table.slot? t = some s ∧ s.inUse = true := by
  unfold slot slot?
  cases table.slots[t.index]? with
  | none => simp
  | some found =>
    by_cases h : found.inUse = true
    · simp only [h, if_true, Except.ok.injEq, Option.some.injEq]
      exact ⟨fun e => ⟨e, e ▸ h⟩, And.left⟩
    · simp only [h, if_false, reduceCtorEq, Option.some.injEq, false_iff, not_and]
      exact fun e => e ▸ h

theorem slot_eq_error {r : Refusal} :
    table.slot t = .error r ↔
      r = .notRegistered t ∧ ∀ s, table.slot? t = some s → s.inUse = false := by
  unfold slot slot?
  cases table.slots[t.index]? with
  | none => simp [eq_comm (b := r)]
  | some found => cases h : found.inUse <;> simp [h, eq_comm (b := r)]

theorem tag_eq_ok {g : Tag} :
    table.tag t = .ok g ↔ ∃ s, table.slot? t = some s ∧ s.inUse = true ∧ s.tag = g := by
  unfold tag
  cases h : table.slot t with
  | error r =>
    obtain ⟨-, hfree⟩ := slot_eq_error.mp h
    simp only [Except.map, reduceCtorEq, false_iff, not_exists, not_and]
    intro s hs hused
    rw [hfree s hs] at hused
    cases hused
  | ok s =>
    obtain ⟨hs, hused⟩ := slot_eq_ok.mp h
    simp [Except.map, hs, hused]

theorem tag_eq_error {r : Refusal} :
    table.tag t = .error r ↔
      r = .notRegistered t ∧ ∀ s, table.slot? t = some s → s.inUse = false := by
  rw [← slot_eq_error]
  unfold tag
  cases table.slot t <;> simp [Except.map]

/-- A thread whose slot is the same in two tables has the same tag in both. -/
theorem tag_congr {table' : ThreadTable} (h : table'.slot? t = table.slot? t) :
    table'.tag t = table.tag t := by
  unfold slot? at h
  simp only [tag, slot, h]

theorem hasTag_iff {g : Tag} : table.hasTag t g = true ↔ table.tag t = .ok g := by
  unfold hasTag
  cases table.tag t <;> simp

theorem contains_iff : table.contains t = true ↔ ∃ g, table.tag t = .ok g := by
  unfold contains tag
  cases table.slot t <;> simp [Except.map, Except.isOk, Except.toBool]

theorem contains_congr {table' : ThreadTable} (h : table'.tag t = table.tag t) :
    table'.contains t = table.contains t := by
  rw [Bool.eq_iff_iff, contains_iff, contains_iff, h]

theorem link_eq_ok : table.link t = .ok s ↔ table.slot? t = some s := by
  unfold link slot?
  cases table.slots[t.index]? <;> simp

theorem link_of_slot? (h : table.slot? t = some s) : table.link t = .ok s := link_eq_ok.mpr h

/-- A slot of the table can be changed. -/
theorem modifyLink_of_lt (h : t.index < table.capacity) (f : Slot → Slot) :
    table.modifyLink t f = .ok (table.touch (some t) f) := by
  have hs : table.slot? t = some table.slots[t.index] := Array.getElem?_eq_getElem h
  rw [modifyLink_of_link f (link_of_slot? hs), setIfInBounds_eq_touch hs]

@[simp] theorem setNext_of_lt (h : t.index < table.capacity) (next : Option ThreadId) :
    table.setNext t next = .ok (table.touch (some t) (Slot.withNext next)) :=
  modifyLink_of_lt h _

@[simp] theorem setPrev_of_lt (h : t.index < table.capacity) (prev : Option ThreadId) :
    table.setPrev t prev = .ok (table.touch (some t) (Slot.withPrev prev)) :=
  modifyLink_of_lt h _

@[simp] theorem unlink_of_lt (h : t.index < table.capacity) :
    table.unlink t = .ok (table.touch (some t) Slot.unlinked) :=
  modifyLink_of_lt h _

@[simp] theorem setTag_asleep_of_lt (h : t.index < table.capacity) :
    table.setTag t .asleep = .ok (table.touch (some t) Slot.dormant) :=
  modifyLink_of_lt h _

theorem index_lt_of_tag {g : Tag} (h : table.tag t = .ok g) : t.index < table.capacity := by
  obtain ⟨s, hs, -⟩ := tag_eq_ok.mp h
  exact index_lt_of_slot? hs

/-- How the tags read after a change that takes no slot in or out of use. -/
theorem tag_touch (table : ThreadTable) (who : Option ThreadId) {f : Slot → Slot}
    (hf : ∀ s, (f s).inUse = s.inUse) (u : ThreadId) :
    (table.touch who f).tag u =
      if who = some u then (table.slot u).map fun s => (f s).tag else table.tag u := by
  split
  · rename_i h
    have hslot : (table.touch who f).slot? u = (table.slot? u).map f := by
      rw [slot?_touch, if_pos h]
    cases hu : table.slot u with
    | error r =>
      obtain ⟨rfl, hfree⟩ := slot_eq_error.mp hu
      refine tag_eq_error.mpr ⟨rfl, fun s hs => ?_⟩
      rw [hslot, Option.map_eq_some_iff] at hs
      obtain ⟨s₀, hs₀, rfl⟩ := hs
      rw [hf]; exact hfree s₀ hs₀
    | ok s =>
      obtain ⟨hs, hused⟩ := slot_eq_ok.mp hu
      exact tag_eq_ok.mpr ⟨f s, by rw [hslot, hs]; rfl, by rw [hf]; exact hused, rfl⟩
  · rename_i h
    exact tag_congr (by rw [slot?_touch, if_neg h])

@[simp] theorem tag_touch_withNext (table : ThreadTable) (who next : Option ThreadId)
    (u : ThreadId) : (table.touch who (Slot.withNext next)).tag u = table.tag u := by
  rw [tag_touch table who (f := Slot.withNext next) fun _ => rfl]
  split <;> rfl

@[simp] theorem tag_touch_withPrev (table : ThreadTable) (who prev : Option ThreadId)
    (u : ThreadId) : (table.touch who (Slot.withPrev prev)).tag u = table.tag u := by
  rw [tag_touch table who (f := Slot.withPrev prev) fun _ => rfl]
  split <;> rfl

@[simp] theorem tag_touch_withContext (table : ThreadTable) (who : Option ThreadId)
    (context : SavedContext) (u : ThreadId) :
    (table.touch who (Slot.withContext context)).tag u = table.tag u := by
  rw [tag_touch table who (f := Slot.withContext context) fun _ => rfl]
  split <;> rfl

/-- A registered thread has the tag that a change gives its slot, and the others keep theirs. -/
theorem tag_touch_of_tag {g g' : Tag} (h : table.tag t = .ok g) {f : Slot → Slot}
    (hf : ∀ s, (f s).inUse = s.inUse) (hg : ∀ s, (f s).tag = g') (u : ThreadId) :
    (table.touch (some t) f).tag u = if t = u then .ok g' else table.tag u := by
  rw [tag_touch table _ hf]
  by_cases htu : t = u
  · subst htu
    obtain ⟨s, hs, hused, -⟩ := tag_eq_ok.mp h
    simp [slot_eq_ok.mpr ⟨hs, hused⟩, Except.map, hg]
  · simp [htu]

theorem tag_touch_unlinked {g : Tag} (h : table.tag t = .ok g) (u : ThreadId) :
    (table.touch (some t) Slot.unlinked).tag u = if t = u then .ok .unqueued else table.tag u :=
  tag_touch_of_tag h (f := Slot.unlinked) (fun _ => rfl) (fun _ => rfl) u

theorem tag_touch_dormant {g : Tag} (h : table.tag t = .ok g) (u : ThreadId) :
    (table.touch (some t) Slot.dormant).tag u = if t = u then .ok .asleep else table.tag u :=
  tag_touch_of_tag h (f := Slot.dormant) (fun _ => rfl) (fun _ => rfl) u

/-! ### Slots without links -/

/-- Only the threads on ready queues have links, and a slot without a thread has no owner. -/
structure Tidy (table : ThreadTable) : Prop where
  unlinked : ∀ t s, table.slot? t = some s → (∀ q, s.tag ≠ .ready q) → s.next = none ∧ s.prev = none
  vacant : ∀ t s, table.slot? t = some s → s.inUse = false → s.tag = .unqueued

/-- A change keeps the table tidy if what it makes of every slot is tidy. -/
theorem Tidy.touch (h : table.Tidy) (who : Option ThreadId) {f : Slot → Slot}
    (hf : ∀ t s, who = some t → table.slot? t = some s →
      ((∀ q, (f s).tag ≠ .ready q) → (f s).next = none ∧ (f s).prev = none) ∧
        ((f s).inUse = false → (f s).tag = .unqueued)) : (table.touch who f).Tidy := by
  have hslot : ∀ t s, (table.touch who f).slot? t = some s →
      (∃ s₀, who = some t ∧ table.slot? t = some s₀ ∧ s = f s₀) ∨ table.slot? t = some s := by
    intro t s hs
    rw [slot?_touch] at hs
    split at hs
    · rename_i hwho
      obtain ⟨s₀, hs₀, rfl⟩ := Option.map_eq_some_iff.mp hs
      exact Or.inl ⟨s₀, hwho, hs₀, rfl⟩
    · exact Or.inr hs
  constructor
  · intro t s hs
    rcases hslot t s hs with ⟨s₀, hwho, hs₀, rfl⟩ | hs
    · exact (hf t s₀ hwho hs₀).1
    · exact h.unlinked t s hs
  · intro t s hs
    rcases hslot t s hs with ⟨s₀, hwho, hs₀, rfl⟩ | hs
    · exact (hf t s₀ hwho hs₀).2
    · exact h.vacant t s hs

theorem Tidy.setLive (h : table.Tidy) (n : Nat) : ({ table with live := n } : ThreadTable).Tidy :=
  ⟨h.unlinked, h.vacant⟩

theorem slot?_ofCapacity {n : Nat} (h : (ofCapacity n).slot? t = some s) : s = .vacant := by
  simp only [slot?, ofCapacity, Array.getElem?_replicate] at h
  split at h
  · exact (Option.some.inj h).symm
  · cases h

theorem tidy_ofCapacity (n : Nat) : (ofCapacity n).Tidy where
  unlinked t s h _ := by rw [slot?_ofCapacity h]; exact ⟨rfl, rfl⟩
  vacant t s h _ := by rw [slot?_ofCapacity h]; rfl

/-! ### Registering and releasing -/

theorem setContext_eq_ok {context : SavedContext} {table' : ThreadTable}
    (h : table.setContext t context = .ok table') :
    table' = table.touch (some t) (Slot.withContext context) := by
  unfold setContext at h
  cases hslot : table.slot t with
  | error r => simp [hslot, bind, Except.bind] at h
  | ok s =>
    rw [← setIfInBounds_eq_touch (slot_eq_ok.mp hslot).1 (Slot.withContext context)]
    simpa [hslot, Slot.withContext, bind, Except.bind, pure, Except.pure, eq_comm] using h

/-- A registration takes a slot without a thread. -/
theorem register_eq_ok {context : SavedContext} {table' : ThreadTable}
    (h : table.register context = (.ok t, table')) :
    (∃ s, table.slot? t = some s ∧ s.inUse = false) ∧
      table' = { table.touch (some t) fun _ => { inUse := true, context := context } with
        live := table.live + 1 } := by
  unfold register at h
  split at h
  · cases h
  · rename_i index hfind
    obtain ⟨hlt, hfree, -⟩ := Array.findIdx?_eq_some_iff_getElem.mp hfind
    obtain ⟨ht, rfl⟩ := Prod.mk.inj h
    obtain rfl := Except.ok.inj ht
    have hs : table.slot? ⟨index⟩ = some table.slots[index] := Array.getElem?_eq_getElem hlt
    refine ⟨⟨_, hs, by simpa using hfree⟩, ?_⟩
    simp only [touch]
    rw [← setIfInBounds_eq_modify hs fun _ => { inUse := true, context := context }]

/-- A registration that is refused has written nothing. -/
theorem register_refused {context : SavedContext} {r : Refusal} {table' : ThreadTable}
    (h : table.register context = (.error r, table')) : table' = table := by
  unfold register at h
  split at h
  · exact (Prod.mk.inj h).2.symm
  · cases (Prod.mk.inj h).1

/-- A release gives back the slot of a thread that no structure owns. -/
theorem release_eq_ok {table' : ThreadTable} :
    table.release t = (.ok (), table') ↔
      table.tag t = .ok .unqueued ∧
        table' = { table.touch (some t) fun _ => .vacant with live := table.live - 1 } := by
  unfold release
  cases hslot : table.slot t with
  | error r =>
    have htag : table.tag t = .error r := tag_eq_error.mpr (slot_eq_error.mp hslot)
    simp [htag]
  | ok s =>
    obtain ⟨hs, hused⟩ := slot_eq_ok.mp hslot
    have htag : table.tag t = .ok s.tag := tag_eq_ok.mpr ⟨s, hs, hused, rfl⟩
    have hset := setIfInBounds_eq_modify hs fun _ => Slot.vacant
    cases hg : s.tag <;> simp [htag, hg, hset, touch, Tag.isQueued, eq_comm (b := table')]

/-- A release that is refused has written nothing. -/
theorem release_refused {r : Refusal} {table' : ThreadTable}
    (h : table.release t = (.error r, table')) : table' = table := by
  unfold release at h
  split at h
  · exact (Prod.mk.inj h).2.symm
  · split at h
    · exact (Prod.mk.inj h).2.symm
    · cases (Prod.mk.inj h).1

end ThreadTable
end PulseKernel
