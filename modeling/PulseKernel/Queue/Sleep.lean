/-
# Sleep queues

A sleep queue holds the sleeping threads in a heap, ordered by deadline and,
for equal deadlines, by the order of insertion. Its size is fixed at boot, so
that the timer interrupt never allocates.

Key definitions: `Sleeper`, `SleepQueue`, `SleepQueue.insert`,
`SleepQueue.remove`, `SleepQueue.removeThread`, `SleepQueue.dump`.
Key theorems: `Sleeper.lt_iff`, `SleepQueue.insert_of_refused`.
-/
import PulseKernel.Queue.Heap
import PulseKernel.Report.Logged
import PulseKernel.Thread.Table

namespace PulseKernel

/-- A sleeping thread. -/
structure Sleeper where
  /-- When it is to be woken, in nanoseconds of the monotonic clock. -/
  deadline : Nat
  thread : ThreadId
  /-- How many sleepers were inserted before it. -/
  seq : Nat
deriving DecidableEq, Repr

namespace Sleeper

/-- The earlier deadline comes first, and of equal deadlines the one inserted first. -/
instance : LT Sleeper where
  lt a b := a.deadline < b.deadline ∨ a.deadline = b.deadline ∧ a.seq < b.seq

theorem lt_iff {a b : Sleeper} :
    a < b ↔ a.deadline < b.deadline ∨ a.deadline = b.deadline ∧ a.seq < b.seq := Iff.rfl

instance : DecidableLT Sleeper := fun a b =>
  inferInstanceAs (Decidable (a.deadline < b.deadline ∨ a.deadline = b.deadline ∧ a.seq < b.seq))

/-- The sleeper as messages show it. -/
def text (s : Sleeper) : String := s!"{s.deadline}:{s.thread.text}"

end Sleeper

/-- A heap of sleepers and the room there is for them. -/
structure SleepQueue where
  heap : Array Sleeper := #[]
  capacity : Nat
  /-- How many sleepers were ever inserted. The number has 64 bits; that it wraps around at 2^64 is
  left out here. -/
  nextSeq : Nat := 0
deriving DecidableEq, Repr

namespace SleepQueue

/-- The number of sleepers. -/
def size (q : SleepQueue) : Nat := q.heap.size

/-- Whether nobody sleeps. -/
def isEmpty (q : SleepQueue) : Bool := q.heap.isEmpty

/-- The deadline at the root of the heap, which is the earliest. -/
def earliest? (q : SleepQueue) : Option Nat := q.heap[0]?.map (·.deadline)

/-- The deadline that a thread sleeps until. -/
def deadlineOf? (q : SleepQueue) (t : ThreadId) : Option Nat :=
  (q.heap.find? (·.thread == t)).map (·.deadline)

/-- Whether the thread is one of the sleepers. -/
def contains (q : SleepQueue) (t : ThreadId) : Bool := (q.deadlineOf? t).isSome

/-- The queue as messages show it, in the order of the heap. -/
def dump (q : SleepQueue) : String :=
  let sleepers := " ".intercalate (q.heap.toList.map Sleeper.text)
  s!"sleep queue ({q.size}/{q.capacity}) [{sleepers}]"

/-- Why a thread cannot be put to sleep, if it cannot. -/
def refusal? (q : SleepQueue) (table : ThreadTable) (t : ThreadId) : Option Refusal :=
  match table.tag t with
  | .error refusal => some refusal
  | .ok tag =>
    if tag.isQueued then some (.alreadyQueued t)
    else if q.capacity ≤ q.size then some (.sleepQueueFull q.capacity)
    else none

/-- Puts a thread to sleep until a deadline. The thread has to be registered and on no queue. -/
def insert (q : SleepQueue) (table : ThreadTable) (deadline : Nat) (t : ThreadId) :
    Logged (Except Refusal Unit × SleepQueue × ThreadTable) :=
  match q.refusal? table t with
  | some refusal => return (.error refusal, q, table)
  | none => do
    let sleeper : Sleeper := { deadline := deadline, thread := t, seq := q.nextSeq }
    let q := { q with heap := Heap.insert q.heap sleeper, nextSeq := q.nextSeq + 1 }
    let table ← table.setTag t .asleep
    return (.ok (), q, table)

/-- Takes the entry at a position out of the heap and frees its thread. -/
def take (q : SleepQueue) (table : ThreadTable) (i : Fin q.heap.size) :
    Logged (Sleeper × SleepQueue × ThreadTable) := do
  let sleeper := q.heap[i]
  let rest := { q with heap := Heap.removeAt q.heap i }
  let slot ← table.link sleeper.thread
  if slot.tag ≠ .asleep then
    Logged.violate "sleep queue" "entry thread not tagged as sleeping" (.ok rest.dump)
  else
    let table ← table.unlink sleeper.thread
    return (sleeper, rest, table)

/-- The position of the sleeper that was inserted first among those with the deadline. -/
def oldestAt? (q : SleepQueue) (deadline : Nat) : Option (Fin q.heap.size) :=
  (List.finRange q.heap.size).foldl (fun best i =>
    if q.heap[i].deadline = deadline then
      match best with
      | none => some i
      | some b => if q.heap[i].seq < q.heap[b].seq then some i else best
    else best) none

/-- Takes out the oldest sleeper with exactly this deadline, if there is one. -/
def remove (q : SleepQueue) (table : ThreadTable) (deadline : Nat) :
    Logged (Option ThreadId × SleepQueue × ThreadTable) :=
  match q.oldestAt? deadline with
  | none => return (none, q, table)
  | some i => do
    let (sleeper, q, table) ← q.take table i
    return (some sleeper.thread, q, table)

/-- Takes a thread out, and answers the deadline it was sleeping until. -/
def removeThread (q : SleepQueue) (table : ThreadTable) (t : ThreadId) :
    Logged (Option Nat × SleepQueue × ThreadTable) :=
  match q.heap.findFinIdx? (·.thread == t) with
  | none => return (none, q, table)
  | some i => do
    let (sleeper, q, table) ← q.take table i
    return (some sleeper.deadline, q, table)

theorem insert_of_refused {q : SleepQueue} {table : ThreadTable} {t : ThreadId} {r : Refusal}
    (deadline : Nat) (h : q.refusal? table t = some r) :
    q.insert table deadline t = pure (.error r, q, table) := by
  simp [insert, h]

end SleepQueue

end PulseKernel
