/-
# Records

A record is one line of the log, `[LEVEL] message`. It is formatted into a
buffer of fixed size: a message that does not fit is cut, the newline never
is.

Key definitions: `Record`, `Record.formatInto`, `Record.line`.
-/
import PulseKernel.Log.Level
import PulseKernel.Log.LineBuffer

namespace PulseKernel
namespace Log

/-- A message and its level. -/
structure Record where
  level : Level
  message : String
deriving DecidableEq, Repr

namespace Record

/-- The text of the record, before it is cut. -/
def text (r : Record) : String :=
  s!"[{r.level.label}] {r.message}"

/-- The byte that ends a line. -/
def newline : UInt8 := 10

/-- Formats the record into a buffer: the buffer afterwards, and the length of the line in it.
The last byte is kept free for the newline, so only an empty buffer stays without one. -/
def formatInto (r : Record) (buffer : List UInt8) : List UInt8 × Nat :=
  match buffer.getLast? with
  | none => ([], 0)
  | some last =>
    let body := (LineBuffer.ofCells buffer.dropLast).write (utf8 r.text)
    ((body.cells ++ [last]).set body.pos newline, body.pos + 1)

/-- The longest line, its newline included. -/
def lineCapacity : Nat := 256

/-- The line that the record leaves on the console. -/
def line (r : Record) : List UInt8 :=
  let (buffer, length) := r.formatInto (List.replicate lineCapacity 0)
  buffer.take length

end Record

end Log
end PulseKernel
