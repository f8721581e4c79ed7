/-
# Notices

What the timer and the scheduler tell the log. A notice says what happened;
its level and its text are functions of that.

Key definitions: `Notice`, `Notice.level`, `Notice.message`, `Notice.record`,
`Notice.lines`.
-/
import PulseKernel.Log.Record
import PulseKernel.Report.Refusal

namespace PulseKernel

/-- Something worth a line in the log. -/
inductive Notice where
  /-- The timer has been set to its rate. -/
  | rateSet (divisor period : Nat) (drift : Int) (quantum : Nat)
  /-- The remainder of the tick clock is not the drift of the rate. -/
  | remainderOffRate (remainder : Nat) (drift : Int)
  | registered (thread : ThreadId)
  | released (thread : ThreadId)
  /-- A thread was not put on a ready queue. -/
  | enqueueRefused (refusal : Refusal)
  /-- A thread was left on the queue it is on. -/
  | enqueueSkipped (thread : ThreadId) (tag : Tag)
  /-- A thread tagged with a ready queue was not found on it. -/
  | removeFailed (thread : ThreadId) (queue : QueueId)
  | fellAsleep (thread : ThreadId) (deadline : Nat)
  /-- A cancel found no sleeper. -/
  | nothingToCancel (deadline : Nat)
  | expired (thread : ThreadId) (deadline now : Nat)
  /-- A woken thread is the one that still holds the processor. -/
  | resumesInPlace (thread : ThreadId)
  /-- A sleeping thread keeps the processor, as nothing else can run. -/
  | idles (thread : ThreadId)
  /-- The policy named a thread that cannot be switched to or from. -/
  | dispatchFailed (source target : ThreadId) (refusal : Refusal)
  /-- A structure is corrupted. -/
  | corrupted (component reason : String)
  /-- The text of a corrupted structure. -/
  | dumped (dump : String)
deriving DecidableEq, Repr

namespace Notice

/-- How much the notice matters. -/
def level : Notice → Log.Level
  | rateSet .. => .info
  | remainderOffRate .. => .warn
  | registered _ | released _ => .debug
  | enqueueRefused _ => .warn
  | enqueueSkipped .. => .debug
  | removeFailed .. => .error
  | fellAsleep .. => .trace
  | nothingToCancel _ => .debug
  | expired .. | resumesInPlace _ | idles _ => .trace
  | dispatchFailed .. => .error
  | corrupted .. | dumped _ => .error

/-- The text of the notice. -/
def message : Notice → String
  | rateSet divisor period drift quantum =>
    s!"[TIMER] PIT divisor {divisor} ({period} ns/pulse, drift {drift} ns), quantum {quantum} ticks"
  | remainderOffRate remainder drift =>
    s!"[TIMER] pulse remainder {remainder} ns does not match PIT drift {drift} ns: " ++
      "ticks will not follow real time"
  | registered t => s!"[SCHED] thread {t.text} registered"
  | released t => s!"[SCHED] thread {t.text} released"
  | enqueueRefused r => s!"[READYQ] enqueue refused: {r.message}"
  | enqueueSkipped t tag => s!"[READYQ] thread {t.text} already queued ({tag.text}), skipped"
  | removeFailed t q => s!"[READYQ] could not remove thread {t.text} from queue {q.text}"
  | fellAsleep t deadline => s!"[SLEEP] thread {t.text} until {deadline} ns"
  | nothingToCancel deadline => s!"[SLEEP] cancel {deadline} ns: no sleeper (already expired?)"
  | expired t deadline now => s!"[TIMER] thread {t.text} expired ({deadline} ns, now {now})"
  | resumesInPlace t => s!"[TIMER] thread {t.text} resumes in place"
  | idles t => s!"[SLEEP] thread {t.text} idles"
  | dispatchFailed source target r =>
    s!"[SCHED] policy dispatched {source.text} -> {target.text}: {r.message}"
  | corrupted component reason => s!"[SCHED] {component} corrupted: {reason}"
  | dumped dump => s!"[SCHED] {dump}"

/-- The notice as a record of the log. -/
def record (n : Notice) : Log.Record := ⟨n.level, n.message⟩

/-- The lines that the log writes for notices under a filter. -/
def lines (filter : Log.Filter) (notices : List Notice) : List (List UInt8) :=
  ((notices.map record).filter fun r => filter.allows r.level).map (·.line)

end Notice

end PulseKernel
