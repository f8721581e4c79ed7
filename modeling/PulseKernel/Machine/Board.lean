/-
# The board

What the kernel runs on: a monotonic clock, an interrupt flag, a timer with
its interrupt controller, and a processor that can be switched to another
thread or halted until the next interrupt. The board keeps a trace of what is
done with it, and of when the scheduler is entered and threads come and go.

A wait lets interrupts in, and what they do is nested in it. Every entry of
the trace tells how deep it is nested and whether interrupts were let in, so
that what a step does itself can be told from what happens to it.

Key definitions: `Event`, `Entry`, `Board`, `Board.trace`, `Board.record`,
`Board.apply`.
Key theorems: `Board.trace_record`.
-/
import PulseKernel.Thread.Switch
import PulseKernel.Time.Span

namespace PulseKernel

/-- Something done with the board, or on it. -/
inductive Event where
  /-- The monotonic clock was read. -/
  | clockRead
  /-- The interrupt flag was cleared. -/
  | masked
  /-- The interrupt flag was set. -/
  | unmasked
  /-- A byte was written to an I/O address. -/
  | output (address : UInt16) (value : UInt8)
  /-- The interrupt controller was told that the interrupt has been handled. -/
  | endOfInterrupt
  /-- The processor was switched; the saved contexts are those before the switch. -/
  | switched (plan : SwitchPlan) (source target : SavedContext)
  /-- The processor was halted until the next interrupt. -/
  | waiting
  /-- The scheduler was entered. -/
  | schedulerEntered
  /-- A thread was given a slot, with the context it starts from. -/
  | registered (thread : ThreadId) (context : SavedContext)
  /-- A thread's slot was taken back. -/
  | released (thread : ThreadId)
deriving DecidableEq, Repr

/-- An event and its circumstances. -/
structure Entry where
  event : Event
  /-- Whether the interrupt flag was set. -/
  interrupts : Bool
  /-- The number of waits that the event is nested in. -/
  nesting : Nat
deriving DecidableEq, Repr

/-- The state of the board. -/
structure Board where
  /-- The monotonic clock, in nanoseconds. -/
  now : Nat := 0
  /-- Whether the system has booted. -/
  booted : Bool := true
  /-- The interrupt flag. -/
  interrupts : Bool := true
  /-- The number of waits in progress. -/
  nesting : Nat := 0
  /-- What was done with the board, the last event first. -/
  history : List Entry := []
deriving DecidableEq, Repr

namespace Board

/-- What was done with the board, in order. -/
def trace (b : Board) : List Entry := b.history.reverse

/-- Adds an event to the trace. -/
def record (b : Board) (event : Event) : Board :=
  { b with history := ⟨event, b.interrupts, b.nesting⟩ :: b.history }

/-- Clears the interrupt flag. -/
def mask (b : Board) : Board := { b with interrupts := false }.record .masked

/-- Sets the interrupt flag. -/
def unmask (b : Board) : Board := { b with interrupts := true }.record .unmasked

/-- Writes bytes to their I/O addresses. -/
def write (b : Board) (bytes : List (UInt16 × UInt8)) : Board :=
  bytes.foldl (fun b (address, value) => b.record (.output address value)) b

/-- A change to the board that comes from outside the kernel and leaves no trace. -/
inductive Change where
  /-- The monotonic clock shows this instant. -/
  | clock (now : Nat)
  /-- The monotonic clock goes on; after its last instant it starts again at zero. -/
  | elapse (nanos : Nat)
  | booted (answer : Bool)
  | interrupts (flag : Bool)
deriving DecidableEq, Repr

/-- The board after a change from outside. -/
def apply (b : Board) : Change → Board
  | .clock now => { b with now := now }
  | .elapse nanos => { b with now := (b.now + nanos) % (lastInstant + 1) }
  | .booted answer => { b with booted := answer }
  | .interrupts flag => { b with interrupts := flag }

@[simp] theorem trace_record (b : Board) (event : Event) :
    (b.record event).trace = b.trace ++ [⟨event, b.interrupts, b.nesting⟩] := by
  simp [trace, record]

@[simp] theorem interrupts_record (b : Board) (event : Event) :
    (b.record event).interrupts = b.interrupts := rfl

@[simp] theorem interrupts_mask (b : Board) : b.mask.interrupts = false := rfl

@[simp] theorem interrupts_unmask (b : Board) : b.unmask.interrupts = true := rfl

end Board

end PulseKernel
