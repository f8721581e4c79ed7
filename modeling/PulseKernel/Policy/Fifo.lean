/-
# First come, first served

The plain policy: the threads that can run stand in line, and the first of
them is next. When nobody stands in line, the current thread goes on.

Key definitions: `Fifo`.
-/
import PulseKernel.Policy.Basic

namespace PulseKernel

/-- A line of threads, and the thread that holds the processor. -/
structure Fifo where
  ready : List ThreadId := []
  running : ThreadId
deriving DecidableEq, Repr

namespace Fifo

/-- Puts a thread at the end of the line. -/
def push (p : Fifo) (t : ThreadId) : Fifo := { p with ready := p.ready ++ [t] }

/-- Gives the processor to the first in line. -/
def advance (p : Fifo) : Fifo :=
  match p.ready with
  | [] => p
  | t :: rest => { ready := rest, running := t }

instance : Policy Fifo where
  addReady p t := p.push t
  pickNext p := (p.advance.running, p.advance)
  hasOtherRunnable p := (!p.ready.isEmpty, p)
  current p := (p.running, p)

instance : SteadyPolicy Fifo where
  hasOtherRunnable_snd _ := rfl
  current_snd _ := rfl

end Fifo

end PulseKernel
