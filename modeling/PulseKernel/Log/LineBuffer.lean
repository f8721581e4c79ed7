/-
# Line buffers

A buffer of fixed size that takes bytes until it is full and drops the rest,
so that a record can be written where no memory may be allocated.

Key definitions: `LineBuffer`, `LineBuffer.write`, `LineBuffer.written`.
Key theorems: `LineBuffer.capacity_write`, `LineBuffer.pos_write`.
-/

namespace PulseKernel
namespace Log

/-- The bytes of a text in UTF-8. -/
def utf8 (s : String) : List UInt8 :=
  s.toUTF8.data.toList

/-- A buffer and the place where writing goes on. -/
structure LineBuffer where
  /-- All bytes of the buffer, those not yet written to among them. -/
  cells : List UInt8
  /-- The number of bytes written. -/
  pos : Nat
  /-- Writing never leaves the buffer. -/
  pos_le : pos ≤ cells.length

namespace LineBuffer

/-- The buffer over these bytes, with nothing written yet. -/
def ofCells (cells : List UInt8) : LineBuffer where
  cells := cells
  pos := 0
  pos_le := Nat.zero_le _

/-- The size of the buffer. -/
def capacity (b : LineBuffer) : Nat := b.cells.length

/-- The bytes written so far. -/
def written (b : LineBuffer) : List UInt8 := b.cells.take b.pos

/-- Writes as many of the bytes as there is room for. -/
def write (b : LineBuffer) (bytes : List UInt8) : LineBuffer where
  cells := b.cells.take b.pos ++ bytes.take (b.cells.length - b.pos) ++
    b.cells.drop (b.pos + (bytes.take (b.cells.length - b.pos)).length)
  pos := b.pos + (bytes.take (b.cells.length - b.pos)).length
  pos_le := by
    have := b.pos_le
    simp only [List.length_append, List.length_take, List.length_drop]
    omega

@[simp] theorem capacity_write (b : LineBuffer) (bytes : List UInt8) :
    (b.write bytes).capacity = b.capacity := by
  have := b.pos_le
  simp only [capacity, write, List.length_append, List.length_take, List.length_drop]
  omega

/-- What is written grows by the bytes there is room for. -/
theorem pos_write (b : LineBuffer) (bytes : List UInt8) :
    (b.write bytes).pos = b.pos + min bytes.length (b.capacity - b.pos) := by
  simp only [write, capacity, List.length_take]
  omega

end LineBuffer

end Log
end PulseKernel
