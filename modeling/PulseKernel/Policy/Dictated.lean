/-
# Dictated policies

A first-come policy whose choices can be dictated from outside, for trying out
what the scheduler does when a policy answers as no sensible one would.

Key definitions: `Dictated`.
-/
import PulseKernel.Policy.Fifo

namespace PulseKernel

/-- A line of threads, and the answers that were dictated. -/
structure Dictated where
  fifo : Fifo
  /-- The choices to make before the line is asked. -/
  picks : List ThreadId := []
  /-- The answer to whether another thread can run, if it is not for the line to say. -/
  otherRunnable : Option Bool := none
deriving DecidableEq, Repr

namespace Dictated

/-- Makes the next dictated choice, or that of the line. -/
def advance (p : Dictated) : Dictated :=
  match p.picks with
  | [] => { p with fifo := p.fifo.advance }
  | t :: rest => { p with fifo := { p.fifo with running := t }, picks := rest }

instance : Policy Dictated where
  addReady p t := { p with fifo := p.fifo.push t }
  pickNext p := (p.advance.fifo.running, p.advance)
  hasOtherRunnable p := (p.otherRunnable.getD (!p.fifo.ready.isEmpty), p)
  current p := (p.fifo.running, p)

instance : SteadyPolicy Dictated where
  hasOtherRunnable_snd _ := rfl
  current_snd _ := rfl

end Dictated

end PulseKernel
