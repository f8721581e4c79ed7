/-
# The console

Log lines and early messages go to a sink that the board provides, such as a
serial line. The sink that is connected first stays; what is printed before
there is one is lost.

Key definitions: `Console`, `Console.start`, `Console.log`, `Console.print`.
Key theorems: `Console.sink_start`.
-/
import PulseKernel.Log.Record

namespace PulseKernel
namespace Log

/-- The console of a board whose sinks are named by `σ`. -/
structure Console (σ : Type) where
  /-- The sink that receives everything, once there is one. -/
  sink : Option σ := none
  /-- Whether the logger has been set up. -/
  started : Bool := false
  /-- Which records are let through. -/
  filter : Filter := .off
  /-- What was sent, in order, and where to. -/
  sent : List (σ × List UInt8) := []

namespace Console

variable {σ : Type}

/-- Sends bytes to the sink, if there is one. -/
def send (c : Console σ) (bytes : List UInt8) : Console σ :=
  match c.sink with
  | none => c
  | some sink => { c with sent := c.sent ++ [(sink, bytes)] }

/-- Sends a text as it is, whatever the filter. -/
def print (c : Console σ) (s : String) : Console σ :=
  c.send (utf8 s)

/-- The size of the buffer for the message about a second start. -/
def noticeCapacity : Nat := 128

/-- What a second start says. -/
def alreadyStarted : List UInt8 :=
  ((LineBuffer.ofCells (List.replicate noticeCapacity 0)).write (utf8
    ("[LOGGER] ERROR: attempted to set a logger after the logging system was already " ++
      "initialized\n"))).written

/-- Connects a sink and sets up the logger. A later start changes neither the sink nor the filter
and only says so. -/
def start (c : Console σ) (sink : σ) (filter : Filter) : Console σ :=
  let connected := { c with sink := some (c.sink.getD sink) }
  if connected.started then connected.send alreadyStarted
  else
    ({ connected with started := true, filter := filter } : Console σ).print
      "[LOGGER] Logger initialized\n"

/-- Whether a record of this level would be written. -/
def enabled (c : Console σ) (level : Level) : Bool :=
  c.filter.allows level

/-- Writes a record, if its level is let through. -/
def log (c : Console σ) (r : Record) : Console σ :=
  if c.enabled r.level then c.send r.line else c

theorem sink_send (c : Console σ) (bytes : List UInt8) : (c.send bytes).sink = c.sink := by
  unfold send; split <;> simp_all

/-- The first sink stays connected. -/
theorem sink_start (c : Console σ) (sink : σ) (filter : Filter) :
    (c.start sink filter).sink = some (c.sink.getD sink) := by
  simp only [start]
  split
  · rw [sink_send]
  · rw [print, sink_send]

end Console

end Log
end PulseKernel
