/-
# Faults

A fault ends the run: a structure has been found corrupted, or a step that
must not fail has failed. From inside an interrupt there is nothing safe to go
back to.

Key definitions: `Violation`, `Fault`.
-/

namespace PulseKernel

/-- A corrupted structure. -/
structure Violation where
  /-- The kind of structure. -/
  component : String
  /-- What is wrong with it. -/
  reason : String
  /-- The structure as it was found. -/
  dump : String
deriving DecidableEq, Repr

/-- The text with which the run ends. -/
def Violation.message (v : Violation) : String :=
  s!"[SCHED CRITICAL] Invariant violated in {v.component}: {v.reason}\n{v.dump}"

/-- Why a run ends. -/
inductive Fault where
  /-- A structure is corrupted. -/
  | violation (v : Violation)
  /-- A link leads to a slot that the table does not have. -/
  | slotOutOfRange (capacity index : Nat)
  /-- A walk along links has met more threads than there are slots, so it would go on for ever. -/
  | endlessWalk
  /-- A thread was taken from a queue whose length is zero. -/
  | lengthUnderflow
  /-- The pending nanoseconds of the tick clock left their 32 bits. -/
  | clockOverflow
  /-- A rotation was due at every multiple of zero ticks. -/
  | zeroQuantum
deriving DecidableEq, Repr

/-- The text with which the run ends. -/
def Fault.message : Fault → String
  | violation v => v.message
  | slotOutOfRange capacity index =>
    s!"index out of bounds: the len is {capacity} but the index is {index}"
  | endlessWalk => "the walk does not end"
  | lengthUnderflow => "attempt to subtract with overflow"
  | clockOverflow => "attempt to add with overflow"
  | zeroQuantum => "attempt to calculate the remainder with a divisor of zero"

end PulseKernel
