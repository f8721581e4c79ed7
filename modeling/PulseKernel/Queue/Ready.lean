/-
# Ready queues

A ready queue is a first-in first-out list of threads. Its links lie in the
slots of the threads, so that putting a thread on it allocates nothing; the
queue itself keeps its two ends and its length. A thread says by its tag which
queue it is on, and a queue touches no thread that another structure owns.

The walks here stop when they have met more threads than the table has slots:
such a list runs in a circle.

Key definitions: `ReadyQueue`, `ReadyQueue.enqueue`, `ReadyQueue.dequeue`,
`ReadyQueue.remove`, `ReadyQueue.members`, `ReadyQueue.dump`.
Key theorems: `ReadyQueue.enqueue_of_refused`, `ReadyQueue.enqueue_of_queued`,
`ReadyQueue.dequeue_of_empty`, `ReadyQueue.remove_of_not_isQueued`.
-/
import PulseKernel.Report.Logged
import PulseKernel.Thread.Table

namespace PulseKernel

/-- The ends and the length of a list of threads. -/
structure ReadyQueue where
  id : QueueId
  head : Option ThreadId := none
  tail : Option ThreadId := none
  size : Nat := 0
deriving DecidableEq, Repr

namespace ReadyQueue

/-- Whether the queue has no first thread. -/
def isEmpty (q : ReadyQueue) : Bool := q.head.isNone

/-- Whether the thread's tag names this queue. -/
def isQueued (q : ReadyQueue) (table : ThreadTable) (t : ThreadId) : Bool :=
  table.hasTag t (.ready q.id)

/-! ### Walks -/

/-- The threads met from `cursor` on, following the links, at most `limit` of them. -/
def walk (table : ThreadTable) : Nat → Option ThreadId → Except Fault (List ThreadId)
  | 0, _ => .ok []
  | _ + 1, none => .ok []
  | limit + 1, some t => do
    let slot ← table.link t
    let rest ← walk table limit slot.next
    return t :: rest

/-- The threads of the queue from first to last, one more than there are slots at most. -/
def members (q : ReadyQueue) (table : ThreadTable) : Except Fault (List ThreadId) :=
  walk table (table.capacity + 1) q.head

/-- The text of a walk on which `shown` threads have been written. -/
def dumpFrom (table : ThreadTable) : Nat → Bool → Option ThreadId → Except Fault String
  | _, _, none => .ok ""
  | 0, first, some t => .ok ((if first then "" else " ") ++ t.text ++ " ...")
  | left + 1, first, some t => do
    let slot ← table.link t
    let rest ← dumpFrom table left false slot.next
    return (if first then "" else " ") ++ t.text ++ rest

/-- The text of an end of the queue. -/
def endText : Option ThreadId → String
  | some t => t.text
  | none => "null"

/-- The text of the queue around that of its threads. -/
def dumpText (q : ReadyQueue) (threads : String) : String :=
  s!"ready queue {q.id.text} [{threads}] head: {endText q.head} tail: {endText q.tail}"

/-- The queue as messages show it: its threads, and its two ends. After as many threads as there
are slots, one more and dots stand for a list that runs in a circle. -/
def dump (q : ReadyQueue) (table : ThreadTable) : Except Fault String := do
  let threads ← dumpFrom table table.capacity true q.head
  return q.dumpText threads

/-! ### Operations -/

/-- The length after a thread has left. -/
def shrink (q : ReadyQueue) : Except Fault Nat :=
  match q.size with
  | 0 => .error .lengthUnderflow
  | n + 1 => .ok n

/-- Puts a thread behind the last one, and answers whether it did. A thread that is owned by a
queue already, be it this one, is left where it is. -/
def enqueue (q : ReadyQueue) (table : ThreadTable) (t : ThreadId) :
    Logged (Bool × ReadyQueue × ThreadTable) :=
  match table.tag t with
  | .error refusal => do
    Logged.note (.enqueueRefused refusal)
    return (false, q, table)
  | .ok tag =>
    if tag.isQueued then do
      Logged.note (.enqueueSkipped t tag)
      return (false, q, table)
    else do
      let table ← table.modifyLink t fun s =>
        { s with tag := .ready q.id, next := none, prev := q.tail }
      match q.tail with
      | some last => do
        let table ← table.setNext last (some t)
        return (true, { q with tail := some t, size := q.size + 1 }, table)
      | none => return (true, { q with head := some t, tail := some t, size := q.size + 1 }, table)

/-- Takes the first thread off the queue. -/
def dequeue (q : ReadyQueue) (table : ThreadTable) :
    Logged (Option ThreadId × ReadyQueue × ThreadTable) :=
  match q.head with
  | none => return (none, q, table)
  | some first => do
    let slot ← table.link first
    if slot.tag ≠ .ready q.id then
      Logged.violate "ready queue" "head not owned by queue" (q.dump table)
    else
      let (tail, table) ← match slot.next with
        | some second => do pure (q.tail, ← table.setPrev second none)
        | none => pure (none, table)
      let table ← table.unlink first
      let size ← q.shrink
      return (some first, { q with head := slot.next, tail := tail, size := size }, table)

/-- Where a thread stands on a walk from `cursor`, `before` being the thread met last: the thread
in front of it if it is met, nothing if the walk ends without it. -/
def locate (table : ThreadTable) (t : ThreadId) :
    Nat → Option ThreadId → Option ThreadId → Except Fault (Option (Option ThreadId))
  | _, _, none => .ok none
  | 0, _, some _ => .error .endlessWalk
  | left + 1, before, some cursor =>
    if cursor = t then .ok (some before)
    else do
      let slot ← table.link cursor
      locate table t left (some cursor) slot.next

/-- Takes a thread off the queue wherever it stands, and answers whether it was on it. -/
def remove (q : ReadyQueue) (table : ThreadTable) (t : ThreadId) :
    Logged (Bool × ReadyQueue × ThreadTable) :=
  if !q.isQueued table t then return (false, q, table)
  else do
    match ← Logged.ofExcept (locate table t (table.capacity + 1) none q.head) with
    | none => do
      Logged.note (.removeFailed t q.id)
      Logged.violate "ready queue" "tagged thread missing from list" (q.dump table)
    | some before => do
      let slot ← table.link t
      let (head, table) ← match before with
        | some b => do pure (q.head, ← table.setNext b slot.next)
        | none => pure (slot.next, table)
      let (tail, table) ← match slot.next with
        | some a => do pure (q.tail, ← table.setPrev a before)
        | none => pure (before, table)
      let table ← table.unlink t
      let size ← q.shrink
      return (true, { q with head := head, tail := tail, size := size }, table)

/-! ### Requests that change nothing -/

theorem enqueue_of_refused {table : ThreadTable} {t : ThreadId} {refusal : Refusal}
    (q : ReadyQueue) (h : table.tag t = .error refusal) :
    q.enqueue table t = ⟨[.enqueueRefused refusal], .ok (false, q, table)⟩ := by
  simp [enqueue, h, Logged.note, bind, Logged.bind, pure, Logged.pure]

theorem enqueue_of_queued {table : ThreadTable} {t : ThreadId} {tag : Tag} (q : ReadyQueue)
    (h : table.tag t = .ok tag) (hq : tag.isQueued = true) :
    q.enqueue table t = ⟨[.enqueueSkipped t tag], .ok (false, q, table)⟩ := by
  simp [enqueue, h, hq, Logged.note, bind, Logged.bind, pure, Logged.pure]

theorem dequeue_of_empty {q : ReadyQueue} (table : ThreadTable) (h : q.head = none) :
    q.dequeue table = pure (none, q, table) := by
  simp [dequeue, h]

theorem remove_of_not_isQueued {q : ReadyQueue} {table : ThreadTable} {t : ThreadId}
    (h : q.isQueued table t = false) : q.remove table t = pure (false, q, table) := by
  simp [remove, h]

end ReadyQueue

end PulseKernel
