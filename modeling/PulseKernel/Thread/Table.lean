/-
# The thread table

The table has a fixed number of slots, made at boot. A slot holds what the
kernel keeps of one thread: the structure that owns it, its place in a ready
queue, and its saved context. Slots are given out from the lowest free one.

Key definitions: `Slot`, `ThreadTable`, `ThreadTable.register`,
`ThreadTable.release`, `ThreadTable.tag`, `ThreadTable.link`.
-/
import PulseKernel.Report.Fault
import PulseKernel.Report.Refusal

namespace PulseKernel

/-- What the kernel keeps of one thread. -/
structure Slot where
  /-- Whether a thread is registered here. -/
  inUse : Bool := false
  /-- The structure that owns the thread. -/
  tag : Tag := .unqueued
  /-- The thread behind it in its ready queue. -/
  next : Option ThreadId := none
  /-- The thread in front of it in its ready queue. -/
  prev : Option ThreadId := none
  /-- The context to resume the thread with. -/
  context : SavedContext := {}
deriving DecidableEq, Repr

namespace Slot

/-- A slot without a thread. -/
def vacant : Slot := {}

/-- The slot of a thread that no structure owns any more. -/
def unlinked (s : Slot) : Slot := { s with tag := .unqueued, next := none, prev := none }

end Slot

/-- A fixed number of slots. -/
structure ThreadTable where
  slots : Array Slot
  /-- The number of registered threads. -/
  live : Nat
deriving DecidableEq, Repr

namespace ThreadTable

/-- A table without threads. -/
def ofCapacity (capacity : Nat) : ThreadTable := ⟨Array.replicate capacity .vacant, 0⟩

/-- The number of slots. -/
def capacity (t : ThreadTable) : Nat := t.slots.size

/-- The number of registered threads. -/
def size (t : ThreadTable) : Nat := t.live

/-- Whether no thread is registered. -/
def isEmpty (t : ThreadTable) : Bool := t.live == 0

/-- The slot of a registered thread. -/
def slot (t : ThreadTable) (id : ThreadId) : Except Refusal Slot :=
  match t.slots[id.index]? with
  | some slot => if slot.inUse then .ok slot else .error (.notRegistered id)
  | none => .error (.notRegistered id)

/-- Whether the thread is registered. -/
def contains (t : ThreadTable) (id : ThreadId) : Bool := (t.slot id).isOk

/-- The structure that owns a registered thread. -/
def tag (t : ThreadTable) (id : ThreadId) : Except Refusal Tag := (t.slot id).map (·.tag)

/-- Whether the thread is registered and has this tag. -/
def hasTag (t : ThreadTable) (id : ThreadId) (tag : Tag) : Bool :=
  match t.tag id with
  | .ok found => found == tag
  | .error _ => false

/-- The saved context of a registered thread. -/
def context (t : ThreadTable) (id : ThreadId) : Except Refusal SavedContext :=
  (t.slot id).map (·.context)

/-- The registered threads and their tags, in the order of the slots. -/
def threads (t : ThreadTable) : List (ThreadId × Tag) :=
  t.slots.toList.zipIdx.filterMap fun (slot, index) =>
    if slot.inUse then some (⟨index⟩, slot.tag) else none

/-! ### Registering and releasing -/

/-- Takes the first free slot for a thread that starts from the given context. -/
def register (t : ThreadTable) (context : SavedContext) : Except Refusal ThreadId × ThreadTable :=
  match t.slots.findIdx? (!·.inUse) with
  | none => (.error (.threadLimitReached t.capacity), t)
  | some index =>
    let slot : Slot := { inUse := true, context := context }
    (.ok ⟨index⟩, { slots := t.slots.setIfInBounds index slot, live := t.live + 1 })

/-- Gives a slot back. Its thread must not be on a queue. -/
def release (t : ThreadTable) (id : ThreadId) : Except Refusal Unit × ThreadTable :=
  match t.slot id with
  | .error refusal => (.error refusal, t)
  | .ok slot =>
    if slot.tag.isQueued then (.error (.stillQueued id), t)
    else (.ok (), { slots := t.slots.setIfInBounds id.index .vacant, live := t.live - 1 })

/-- Replaces the saved context of a registered thread. -/
def setContext (t : ThreadTable) (id : ThreadId) (context : SavedContext) :
    Except Refusal ThreadTable := do
  let slot ← t.slot id
  return { t with slots := t.slots.setIfInBounds id.index { slot with context := context } }

/-! ### Links

A queue reaches the slots of its members without asking whether a thread is registered there: the
members of a queue are. What is left to fail is an index beyond the table. -/

/-- The slot of a thread. -/
def link (t : ThreadTable) (id : ThreadId) : Except Fault Slot :=
  match t.slots[id.index]? with
  | some slot => .ok slot
  | none => .error (.slotOutOfRange t.capacity id.index)

/-- The table with one slot changed. -/
def modifyLink (t : ThreadTable) (id : ThreadId) (f : Slot → Slot) : Except Fault ThreadTable := do
  let slot ← t.link id
  return { t with slots := t.slots.setIfInBounds id.index (f slot) }

/-- Sets which structure owns the thread. -/
def setTag (t : ThreadTable) (id : ThreadId) (tag : Tag) : Except Fault ThreadTable :=
  t.modifyLink id fun s => { s with tag := tag }

/-- Sets which thread comes behind the thread. -/
def setNext (t : ThreadTable) (id : ThreadId) (next : Option ThreadId) :
    Except Fault ThreadTable :=
  t.modifyLink id fun s => { s with next := next }

/-- Sets which thread comes before the thread. -/
def setPrev (t : ThreadTable) (id : ThreadId) (prev : Option ThreadId) :
    Except Fault ThreadTable :=
  t.modifyLink id fun s => { s with prev := prev }

/-- Takes the thread's slot out of whatever structure owns it. -/
def unlink (t : ThreadTable) (id : ThreadId) : Except Fault ThreadTable :=
  t.modifyLink id Slot.unlinked

@[simp] theorem capacity_ofCapacity (n : Nat) : (ofCapacity n).capacity = n := by
  simp [ofCapacity, capacity]

theorem modifyLink_of_link {t : ThreadTable} {id : ThreadId} {s : Slot} (f : Slot → Slot)
    (h : t.link id = .ok s) :
    t.modifyLink id f = .ok { t with slots := t.slots.setIfInBounds id.index (f s) } := by
  simp [modifyLink, h, bind, Except.bind, pure, Except.pure]

end ThreadTable

end PulseKernel
