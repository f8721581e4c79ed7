/-
# Threads and queues by name

A thread is named by the index of its slot in the thread table, and a ready
queue by a number of 16 bits that is given out when the queue is made. The tag
of a thread says which structure owns it; a thread is owned by one at most.

Key definitions: `ThreadId`, `QueueId`, `QueueIds`, `Tag`, `SavedContext`.
Key theorems: `Tag.isQueued_eq_false_iff`.
-/

namespace PulseKernel

/-- The index of a slot in the thread table. -/
structure ThreadId where
  index : Nat
deriving DecidableEq, Repr

/-- The thread as messages show it. -/
def ThreadId.text (t : ThreadId) : String := s!"#{t.index}"

/-- The number of a ready queue. -/
structure QueueId where
  number : UInt16
deriving DecidableEq, Repr

/-- The queue as messages show it. -/
def QueueId.text (q : QueueId) : String := s!"QueueId({q.number.toNat})"

/-- Where queue ids come from: a counter that starts again at zero after its last value. -/
structure QueueIds where
  next : UInt16 := 1
deriving DecidableEq, Repr

/-- A queue id, and the source for the ids after it. -/
def QueueIds.fresh (s : QueueIds) : QueueId × QueueIds := (⟨s.next⟩, ⟨s.next + 1⟩)

/-- Which structure owns a thread. -/
inductive Tag where
  /-- No structure does. -/
  | unqueued
  /-- A sleep queue. -/
  | asleep
  /-- A ready queue. -/
  | ready (queue : QueueId)
deriving DecidableEq, Repr

namespace Tag

/-- Whether some structure owns the thread. -/
def isQueued : Tag → Bool
  | unqueued => false
  | asleep | ready _ => true

/-- The tag as messages show it. -/
def text : Tag → String
  | unqueued => "Unqueued"
  | asleep => "InSleepQueue"
  | ready q => s!"InReadyQueue({q.text})"

theorem isQueued_eq_false_iff {t : Tag} : t.isQueued = false ↔ t = unqueued := by
  cases t <;> simp [isQueued]

end Tag

/-- What is kept of a thread that does not run. Its registers lie on its own stack, so the stack
pointer is all. -/
structure SavedContext where
  stackPointer : UInt64 := 0
deriving DecidableEq, Repr

end PulseKernel
