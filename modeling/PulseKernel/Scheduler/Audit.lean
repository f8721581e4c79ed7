/-
# Audit

The tags of the threads and the structures that own them say the same thing
twice. An audit compares the two and ends the run if they disagree.

Key definitions: `Scheduler.audit`.
-/
import PulseKernel.Scheduler.Basic

namespace PulseKernel
namespace Scheduler

variable {π : Type}

/-- The registered threads with a tag. -/
def tagged (s : Scheduler π) (tag : Tag) : List ThreadId :=
  (s.threads.threads.filter fun p => p.2 == tag).map (·.1)

/-- Ends the run unless the threads tagged asleep are those in the sleep queue, and the threads
tagged with the hand-off queue are as many as it says and as its links lead to. -/
def audit (s : Scheduler π) : Logged Unit := do
  let asleep := s.tagged .asleep
  Logged.ensure (asleep.all s.sleepers.contains) "sleep queue" "sleeping tag without entry"
    (.ok s.sleepers.dump)
  Logged.ensure (asleep.length == s.sleepers.size) "sleep queue" "entry without sleeping tag"
    (.ok s.sleepers.dump)
  let staged := (s.tagged (.ready s.handoff.id)).length
  let linked ← Logged.ofExcept (s.handoff.members s.threads)
  Logged.ensure (staged == s.handoff.size && linked.length == staged) "ready queue"
    "hand-off length disagrees with tags" (s.handoff.dump s.threads)

end Scheduler
end PulseKernel
