/-
# What is refused leaves no trace

A request can be refused at several depths: by the table, by the sleep queue, or
because there is nobody to wake. At each of them the state comes back with the
refusal, and the scheduler goes on with what came back. It is the one that was asked,
with every slot, the heap, the counts and the policy with its record
(`Scheduler.serve_of_refuses`), because all of them look before they write: nothing
has been written where the table refuses (`ThreadTable.register_refused`,
`ThreadTable.release_refused`) or where the sleep queue has nobody to give
(`SleepQueue.remove_eq_none`, `SleepQueue.removeThread_eq_none`). Only a thread that
wants to sleep has asked a question before, who holds the processor, so a policy that
changes at questions is left as this one leaves it
(`Scheduler.beginSleep_eq_error_iff`).

On the machine a refused request is a visit to the scheduler under a guard, and the
trace of the board shows no more than that (`Board.visit`): the interrupt flag
cleared and set again if it was set, and for a sleep of some length the clock read
before.

Key definitions: `Response.refuses`, `Scheduler.sleepRefusal?`,
`Scheduler.Untouched`, `Board.visit`, `Machine.Visited`.
Key theorems: `SleepQueue.remove_eq_none`, `SleepQueue.removeThread_eq_none`,
`Scheduler.beginSleep_eq_error_iff`, `Scheduler.serve_of_refuses`,
`MachineM.sleepUntil_refused`, `MachineM.request_refused`,
`Scheduler.Reached.refused_untouched`.
-/
import PulseKernel.Machine.Timer
import PulseKernel.Proofs.CallEffect

namespace PulseKernel

/-- Whether the answer says that nothing was done for the one who asked. -/
def Response.refuses : Response → Bool
  | registered (.error _) | released (.error _) | woken none | removed none => true
  | _ => false

namespace SleepQueue

variable {q : SleepQueue} {l : List Sleeper} {table : ThreadTable} {t : ThreadId}

/-- A sleeper that was taken out is answered for. -/
theorem result_take_ne_none {α : Type} (i : Fin q.heap.size) (answer : Sleeper → α)
    {q' : SleepQueue} {table' : ThreadTable} :
    (do let (sleeper, q, table) ← q.take table i
        return (some (answer sleeper), q, table) :
      Logged (Option α × SleepQueue × ThreadTable)).result ≠ .ok (none, q', table') := by
  intro h
  obtain ⟨taken, -, hrest⟩ := Logged.result_bind_eq_ok.mp h
  cases (Prod.mk.inj (Except.ok.inj hrest)).1

/-- Where no sleeper has the deadline, nothing has been written. -/
theorem remove_eq_none {deadline : Nat} {q' : SleepQueue} {table' : ThreadTable}
    (h : (q.remove table deadline).result = .ok (none, q', table')) : q' = q ∧ table' = table := by
  unfold remove at h
  split at h
  · obtain ⟨rfl, rfl⟩ := Prod.mk.inj (Prod.mk.inj (Except.ok.inj h)).2
    exact ⟨rfl, rfl⟩
  · exact absurd h (result_take_ne_none _ _)

/-- Where the thread does not sleep, nothing has been written. -/
theorem removeThread_eq_none {q' : SleepQueue} {table' : ThreadTable}
    (h : (q.removeThread table t).result = .ok (none, q', table')) : q' = q ∧ table' = table := by
  unfold removeThread at h
  split at h
  · obtain ⟨rfl, rfl⟩ := Prod.mk.inj (Prod.mk.inj (Except.ok.inj h)).2
    exact ⟨rfl, rfl⟩
  · exact absurd h (result_take_ne_none _ _)

/-- The reasons in the order in which they count: the thread is not registered, a structure owns it,
there is no room. -/
theorem Lists.refusal?_eq (h : q.Lists l) :
    q.refusal? table t =
      if table.contains t = false then some (.notRegistered t)
      else if table.tag t ≠ .ok .unqueued then some (.alreadyQueued t)
      else if q.size = q.capacity then some (.sleepQueueFull q.capacity)
      else none := by
  have hfull : q.capacity ≤ q.size ↔ q.size = q.capacity := by
    have := h.fits
    rw [h.size_eq]
    omega
  unfold refusal?
  cases htag : table.tag t with
  | error r =>
    obtain ⟨rfl, -⟩ := ThreadTable.tag_eq_error.mp htag
    have hcontains : table.contains t = false := by
      rw [← Bool.not_eq_true, ThreadTable.contains_iff, htag]
      simp
    rw [if_pos hcontains]
  | ok g =>
    have hcontains : table.contains t = true := ThreadTable.contains_iff.mpr ⟨g, htag⟩
    cases g <;> simp only [hcontains, Tag.isQueued, hfull] <;> simp

end SleepQueue

namespace Scheduler

variable {π : Type} [Policy π] {s s' : Scheduler π}

/-- Why the running thread cannot fall asleep, if it cannot. -/
def sleepRefusal? (s : Scheduler π) : Option Refusal :=
  let running := s.current.1
  if s.threads.contains running = false then some (.notRegistered running)
  else if s.threads.tag running ≠ .ok .unqueued then some (.alreadyQueued running)
  else if s.sleepers.size = s.sleepers.capacity then some (.sleepQueueFull s.sleepers.capacity)
  else none

/-- The thread that runs is refused for the reasons of the sleep queue, and only the policy knows
that it was asked. -/
theorem beginSleep_eq_error_iff {deadline : Nat} {refusal : Refusal} :
    (s.beginSleep deadline).result = .ok (.error refusal, s') ↔
      s.sleepers.refusal? s.threads s.current.1 = some refusal ∧ s' = s.current.2 := by
  have hq : s.current.2.sleepers.insert s.current.2.threads deadline s.current.1 =
      s.sleepers.insert s.threads deadline s.current.1 := rfl
  unfold Scheduler.beginSleep
  cases hrefusal : s.sleepers.refusal? s.threads s.current.1 with
  | some r =>
    simp only [hq, SleepQueue.insert_of_refused deadline hrefusal, pure_bind, Logged.result_pure,
      Except.ok.injEq, Prod.mk.injEq, Except.error.injEq, Option.some.injEq, eq_comm]
    rfl
  | none =>
    simp only [hq, SleepQueue.insert_of_not_refused deadline hrefusal, pure_bind, reduceCtorEq,
      false_and, iff_false]
    rw [Logged.result_bind_of_ok _ rfl, Logged.result_bind_of_ok _ (planSwitch_eq _ _ _)]
    simp

theorem current_of_steady [SteadyPolicy π] (s : Scheduler π) : s.current.2 = s := by
  have hpolicy : (Policy.current s.policy).2 = s.policy := SteadyPolicy.current_snd s.policy
  show { s with policy := (Policy.current s.policy).2 } = s
  rw [hpolicy]

omit [Policy π] in
/-- Where the table has no slot to give, the scheduler is the one that was asked. -/
theorem register_refused {context : SavedContext} {refusal : Refusal}
    (h : (s.register context).result = .ok (.error refusal, s')) : s' = s := by
  unfold Scheduler.register at h
  cases hq : s.threads.register context with
  | mk outcome threads =>
    rw [hq] at h
    cases outcome with
    | error r =>
      obtain rfl := ThreadTable.register_refused hq
      exact (Prod.mk.inj (Except.ok.inj h)).2.symm
    | ok t => cases (Prod.mk.inj (Except.ok.inj h)).1

omit [Policy π] in
/-- Where the table does not take the slot back, the scheduler is the one that was asked. -/
theorem release_refused {t : ThreadId} {refusal : Refusal}
    (h : (s.release t).result = .ok (.error refusal, s')) : s' = s := by
  unfold Scheduler.release at h
  cases hq : s.threads.release t with
  | mk outcome threads =>
    rw [hq] at h
    cases outcome with
    | error r =>
      obtain rfl := ThreadTable.release_refused hq
      exact (Prod.mk.inj (Except.ok.inj h)).2.symm
    | ok => cases (Prod.mk.inj (Except.ok.inj h)).1

/-- Where there is nobody to wake, the scheduler is the one that was asked. -/
theorem cancelSleep_eq_none {deadline : Nat}
    (h : (s.cancelSleep deadline).result = .ok (none, s')) : s' = s := by
  obtain ⟨⟨woken, sleepers, threads⟩, hq, hrest⟩ := Logged.result_bind_eq_ok.mp h
  cases woken with
  | none =>
    obtain ⟨rfl, rfl⟩ := SleepQueue.remove_eq_none hq
    exact (Prod.mk.inj (Except.ok.inj hrest)).2.symm
  | some t =>
    obtain ⟨s₂, -, hrest⟩ := Logged.result_bind_eq_ok.mp hrest
    obtain ⟨s₃, -, hrest⟩ := Logged.result_bind_eq_ok.mp hrest
    cases (Prod.mk.inj (Except.ok.inj hrest)).1

omit [Policy π] in
/-- Where the thread does not sleep, the scheduler is the one that was asked. -/
theorem cancelThreadSleep_eq_none {t : ThreadId}
    (h : (s.cancelThreadSleep t).result = .ok (none, s')) : s' = s := by
  obtain ⟨⟨deadline, sleepers, threads⟩, hq, hrest⟩ := Logged.result_bind_eq_ok.mp h
  cases deadline with
  | none =>
    obtain ⟨rfl, rfl⟩ := SleepQueue.removeThread_eq_none hq
    exact (Prod.mk.inj (Except.ok.inj hrest)).2.symm
  | some deadline => cases (Prod.mk.inj (Except.ok.inj hrest)).1

omit [Policy π] in
/-- What an operation leaves is left when its outcome is made the answer. -/
theorem answered_eq_ok {α β : Type} {x : Logged (α × Scheduler π)} {f : α → β} {b : β}
    (h : (x >>= fun r => pure (f r.1, r.2)).result = .ok (b, s')) :
    ∃ a, x.result = .ok (a, s') ∧ f a = b := by
  obtain ⟨⟨a, s₁⟩, hx, hend⟩ := Logged.result_bind_eq_ok.mp h
  obtain ⟨rfl, rfl⟩ := Prod.mk.inj (Except.ok.inj hend)
  exact ⟨a, hx, rfl⟩

/-- A request that is refused leaves the scheduler that it was made to. -/
theorem serve_of_refuses {request : Request} {response : Response}
    (h : (s.serve request).result = .ok (response, s')) (hrefuses : response.refuses = true) :
    s' = s := by
  cases request with
  | register context =>
    obtain ⟨outcome, h₁, rfl⟩ := answered_eq_ok (f := Response.registered) h
    cases outcome with
    | ok t => cases hrefuses
    | error refusal => exact register_refused h₁
  | release t =>
    obtain ⟨outcome, h₁, rfl⟩ := answered_eq_ok (f := Response.released) h
    cases outcome with
    | ok => cases hrefuses
    | error refusal => exact release_refused h₁
  | cancelSleep deadline =>
    obtain ⟨outcome, h₁, rfl⟩ := answered_eq_ok (f := Response.woken) h
    cases outcome with
    | some t => cases hrefuses
    | none => exact cancelSleep_eq_none h₁
  | cancelThreadSleep t =>
    obtain ⟨outcome, h₁, rfl⟩ := answered_eq_ok (f := Response.removed) h
    cases outcome with
    | some deadline => cases hrefuses
    | none => exact cancelThreadSleep_eq_none h₁
  | audit =>
    obtain ⟨-, -, hend⟩ := Logged.result_bind_eq_ok.mp h
    obtain ⟨rfl, -⟩ := Prod.mk.inj (Except.ok.inj hend)
    cases hrefuses
  | ticks | uptime | stats | isSleeping =>
    obtain ⟨rfl, -⟩ := Prod.mk.inj (Except.ok.inj h)
    cases hrefuses

/-- Nothing has happened to a scheduler but that its policy was asked who holds the processor: the
policy was called for nothing else, and if questions do not change it, nothing has changed at
all. -/
structure Untouched {π : Type} [Policy π] (s s' : Scheduler (Recorded π)) : Prop where
  asked : s' = s.current.2
  calls : s'.policy.calls = s.policy.calls
  same : SteadyPolicy π → s' = s

theorem untouched_current {π : Type} [Policy π] (s : Scheduler (Recorded π)) :
    s.Untouched s.current.2 :=
  ⟨rfl, rfl, fun _ => s.current_of_steady⟩

end Scheduler

/-! ### Visits to the scheduler -/

/-- What a visit to the scheduler under a guard leaves on the trace: that it was entered, and around
this the interrupt flag cleared and set again, if it was set. -/
def Board.visit (b : Board) : List Entry :=
  if b.interrupts then
    [⟨.masked, false, b.nesting⟩, ⟨.schedulerEntered, false, b.nesting⟩,
      ⟨.unmasked, true, b.nesting⟩]
  else [⟨.schedulerEntered, false, b.nesting⟩]

/-- The board after such entries, and with nothing else changed. -/
def Board.after (b : Board) (entries : List Entry) : Board :=
  { b with history := entries.reverse ++ b.history }

/-- The board has seen these entries, and neither it nor the machine has changed in anything else
but the scheduler and the log. -/
structure Machine.Visited {π : Type} (m m' : Machine π) (entries : List Entry) : Prop where
  trace : m'.board.trace = m.board.trace ++ entries
  interrupts : m'.board.interrupts = m.board.interrupts
  board : m'.board = m.board.after entries
  rate : m'.rate = m.rate
  waits : m'.waits = m.waits

namespace MachineM

variable {π α : Type} {m m' : Machine π}

theorem release_visit (b : Board) :
    (InterruptGuard.acquire b).1.release ((InterruptGuard.acquire b).2.record .schedulerEntered) =
      b.after b.visit := by
  cases hflag : b.interrupts <;>
    simp [InterruptGuard.acquire, InterruptGuard.release, Board.after, Board.visit, Board.mask,
      Board.unmask, Board.record, hflag]

/-- Under a guard a computation starts from the board without interrupts and gives the flag back. -/
theorem masked_eq_ok {x : MachineM π α} {a : α} (h : masked x m = (.ok a, m')) :
    ∃ between, x { m with board := (InterruptGuard.acquire m.board).2 } = (.ok a, between) ∧
      m' = { between with board := (InterruptGuard.acquire m.board).1.release between.board } := by
  obtain ⟨ha, rfl⟩ := Prod.mk.inj h
  exact ⟨_, Prod.ext ha rfl, rfl⟩

theorem enter_eq_ok {step : Scheduler π → Logged (α × Scheduler π)} {a : α}
    (h : enter step m = (.ok a, m')) :
    ∃ s, (step m.scheduler).result = .ok (a, s) ∧ m' = { m with
      board := m.board.record .schedulerEntered
      told := (step m.scheduler).notices.reverse ++ m.told
      scheduler := s } := by
  unfold enter at h
  dsimp only at h
  split at h
  · rename_i a' s hresult
    obtain ⟨ha, rfl⟩ := Prod.mk.inj h
    obtain rfl := Except.ok.inj ha
    exact ⟨s, hresult, rfl⟩
  · cases (Prod.mk.inj h).1

/-- Whoever enters the scheduler under a guard and then leaves has paid it a visit. -/
theorem visited_of_enter {step : Scheduler π → Logged (α × Scheduler π)} {a : α}
    {between : Machine π}
    (h : enter step { m with board := (InterruptGuard.acquire m.board).2 } = (.ok a, between)) :
    (step m.scheduler).result = .ok (a, between.scheduler) ∧
      m.Visited { between with
        board := (InterruptGuard.acquire m.board).1.release between.board } m.board.visit := by
  obtain ⟨s, hs, rfl⟩ := enter_eq_ok h
  have hboard := release_visit m.board
  refine ⟨hs, ?_, ?_, hboard, rfl, rfl⟩
  · dsimp only
    rw [hboard]
    simp [Board.trace, Board.after]
  · dsimp only
    rw [hboard]
    rfl

variable [Policy π]

/-- A sleep that is refused is a visit, whatever would have happened while the thread waited. -/
theorem sleepUntil_refused {deadline : Nat} {interludes : List (MachineM π (List Reply))}
    {refusal : Refusal} (h : sleepUntil deadline interludes m = (.ok (.error refusal), m')) :
    (m.scheduler.beginSleep deadline).result = .ok (.error refusal, m'.scheduler) ∧
      m.Visited m' m.board.visit := by
  obtain ⟨between, hx, rfl⟩ := masked_eq_ok h
  obtain ⟨outcome, entered, henter, hrest⟩ := bind_apply_eq_ok.mp hx
  cases outcome with
  | error r =>
    obtain ⟨hr, rfl⟩ := Prod.mk.inj hrest
    obtain rfl := Except.error.inj (Except.ok.inj hr)
    exact visited_of_enter henter
  | ok ticket =>
    -- from here on the answer is that the sleep is over
    dsimp only at hrest
    cases hplan : ticket.plan with
    | some plan =>
      rw [hplan] at hrest
      obtain ⟨-, after, -, hend⟩ := bind_apply_eq_ok.mp hrest
      cases (Prod.mk.inj hend).1
    | none =>
      rw [hplan] at hrest
      obtain ⟨-, noted, -, hidle⟩ := bind_apply_eq_ok.mp hrest
      obtain ⟨-, after, -, hend⟩ := bind_apply_eq_ok.mp hidle
      cases (Prod.mk.inj hend).1

omit [Policy π] in
theorem recordServed_of_refuses {request : Request} {response : Response}
    (h : response.refuses = true) :
    (recordServed request response : MachineM π Unit) = pure () := by
  unfold recordServed
  split
  · cases h
  · cases h
  · rfl

/-- A request that is refused is a visit. -/
theorem request_refused {r : Request} {response : Response}
    (h : request r m = (.ok response, m')) (hrefuses : response.refuses = true) :
    (m.scheduler.serve r).result = .ok (response, m'.scheduler) ∧
      m.Visited m' m.board.visit := by
  obtain ⟨between, hx, rfl⟩ := masked_eq_ok h
  obtain ⟨answer, entered, henter, hrest⟩ := bind_apply_eq_ok.mp hx
  obtain ⟨u, after, hrecord, hend⟩ := bind_apply_eq_ok.mp hrest
  obtain ⟨ha, rfl⟩ := Prod.mk.inj hend
  obtain rfl := Except.ok.inj ha
  rw [recordServed_of_refuses hrefuses] at hrecord
  obtain ⟨-, rfl⟩ := Prod.mk.inj hrecord
  exact visited_of_enter henter

/-- Before a sleep of some length the clock is read. -/
theorem sleepFor_refused {delay : Span} {interludes : List (MachineM π (List Reply))}
    {refusal : Refusal} (h : sleepFor delay interludes m = (.ok (.error refusal), m')) :
    (m.scheduler.beginSleep (deadlineAfter m.board.now delay)).result =
        .ok (.error refusal, m'.scheduler) ∧
      m.Visited m' (⟨.clockRead, m.board.interrupts, m.board.nesting⟩ :: m.board.visit) := by
  obtain ⟨now, read, hread, hsleep⟩ := bind_apply_eq_ok.mp h
  obtain ⟨hnow, rfl⟩ := Prod.mk.inj hread
  obtain rfl := Except.ok.inj hnow
  obtain ⟨hs, hvisit⟩ := sleepUntil_refused hsleep
  have hsame : (m.board.record .clockRead).visit = m.board.visit := rfl
  refine ⟨hs, ?_, hvisit.interrupts, ?_, hvisit.rate, hvisit.waits⟩
  · refine hvisit.trace.trans ?_
    show (m.board.record .clockRead).trace ++ (m.board.record .clockRead).visit = _
    rw [Board.trace_record, hsame, List.append_assoc]
    rfl
  · refine hvisit.board.trans ?_
    show (m.board.record .clockRead).after (m.board.record .clockRead).visit = _
    rw [hsame]
    simp [Board.after, Board.record]

end MachineM

namespace Scheduler

variable {π : Type} [Policy π]

theorem Reached.refusal?_eq {s : Scheduler π} (h : s.Reached) :
    s.sleepers.refusal? s.threads s.current.1 = s.sleepRefusal? := by
  obtain ⟨L, naps, hsound⟩ := h.sound
  exact hsound.lists.refusal?_eq

/-- Whatever a reached scheduler refuses, it is afterwards as it was before; and on a machine that
it runs on, the board has only been visited. -/
theorem Reached.refused_untouched {s : Scheduler (Recorded π)} (h : s.Reached) :
    (∀ deadline refusal s', (s.beginSleep deadline).result = .ok (.error refusal, s') →
      s.Untouched s') ∧
    (∀ deadline refusal, (∃ s', (s.beginSleep deadline).result = .ok (.error refusal, s')) ↔
      s.sleepRefusal? = some refusal) ∧
    (∀ request response s', (s.serve request).result = .ok (response, s') →
      response.refuses = true → s' = s) ∧
    ∀ m : Machine (Recorded π), m.scheduler = s →
      (∀ deadline interludes refusal m',
        MachineM.sleepUntil deadline interludes m = (.ok (.error refusal), m') →
        s.Untouched m'.scheduler ∧ m.Visited m' m.board.visit) ∧
      (∀ delay interludes refusal m',
        MachineM.sleepFor delay interludes m = (.ok (.error refusal), m') →
        s.Untouched m'.scheduler ∧
          m.Visited m' (⟨.clockRead, m.board.interrupts, m.board.nesting⟩ :: m.board.visit)) ∧
      ∀ request response m', MachineM.request request m = (.ok response, m') →
        response.refuses = true → m'.scheduler = s ∧ m.Visited m' m.board.visit := by
  have hsleep : ∀ deadline refusal s',
      (s.beginSleep deadline).result = .ok (.error refusal, s') → s.Untouched s' := by
    intro deadline refusal s' hs
    obtain ⟨-, rfl⟩ := beginSleep_eq_error_iff.mp hs
    exact s.untouched_current
  refine ⟨hsleep, fun deadline refusal => ?_, fun request response s' => serve_of_refuses, ?_⟩
  · rw [← h.refusal?_eq]
    constructor
    · rintro ⟨s', hs⟩
      exact (beginSleep_eq_error_iff.mp hs).1
    · exact fun hrefusal => ⟨s.current.2, beginSleep_eq_error_iff.mpr ⟨hrefusal, rfl⟩⟩
  · rintro m rfl
    refine ⟨fun deadline interludes refusal m' hm => ?_,
      fun delay interludes refusal m' hm => ?_, fun request response m' hm hrefuses => ?_⟩
    · obtain ⟨hs, hvisit⟩ := MachineM.sleepUntil_refused hm
      exact ⟨hsleep _ _ _ hs, hvisit⟩
    · obtain ⟨hs, hvisit⟩ := MachineM.sleepFor_refused hm
      exact ⟨hsleep _ _ _ hs, hvisit⟩
    · obtain ⟨hs, hvisit⟩ := MachineM.request_refused hm hrefuses
      exact ⟨serve_of_refuses hs hrefuses, hvisit⟩

/-- The only thread that there is room for sleeps with nobody to run beside it: it cannot fall
asleep a second time, and nobody can be registered. -/
theorem Reached.refused_untouched_full :
    ∃ s : Scheduler (Recorded Fifo), s.Reached ∧
      (∃ s', (s.beginSleep 9).result = .ok (.error (.alreadyQueued ⟨0⟩), s') ∧ s.Untouched s') ∧
      (∃ response s', (s.serve (.register {})).result = .ok (response, s') ∧
        response.refuses = true ∧ s' = s) ∧
      ∃ m m' : Machine (Recorded Fifo), m.scheduler = s ∧ m.board.interrupts = true ∧
        MachineM.sleepUntil 9 [] m = (.ok (.error (.alreadyQueued ⟨0⟩)), m') ∧
        s.Untouched m'.scheduler ∧ m.Visited m'
          [⟨.masked, false, 0⟩, ⟨.schedulerEntered, false, 0⟩, ⟨.unmasked, true, 0⟩] := by
  have hcheck : ({ maxThreads := 1 } : Settings).check = .ok () := by decide
  obtain ⟨s, hs, h⟩ := Reached.exists_callAll hcheck (⟨⟨[], ⟨0⟩⟩, []⟩ : Recorded Fifo) ⟨1⟩
    [.serve (.register {}), .beginSleep 5]
  obtain ⟨huntouched, hrefusal, hserve, hmachine⟩ := h.refused_untouched
  have hasleep := Logged.eq_of_map_result (f := fun s => s.sleepRefusal?)
    (b := some (.alreadyQueued ⟨0⟩)) hs (by decide +kernel)
  obtain ⟨s₁, hs₁⟩ := (hrefusal 9 _).mpr hasleep
  have hfull := Logged.eq_of_map_result
    (f := fun s => (s.serve (.register {})).result.map (·.1.refuses)) (b := .ok true) hs
    (by decide +kernel)
  cases hs₂ : (s.serve (.register {})).result with
  | error fault =>
    rw [hs₂] at hfull
    cases hfull
  | ok answer =>
    rw [hs₂] at hfull
    have hrefuses : answer.1.refuses = true := Except.ok.inj hfull
    have hsleep := Logged.eq_of_map_result
      (f := fun s => (MachineM.sleepUntil 9 [] (⟨{}, ⟨1193180, 1193⟩, s, [], []⟩ : Machine _)).1)
      (b := .ok (.error (.alreadyQueued ⟨0⟩))) hs (by decide +kernel)
    obtain ⟨hsame, hvisit⟩ := (hmachine ⟨{}, ⟨1193180, 1193⟩, s, [], []⟩ rfl).1 9 [] _ _
      (Prod.ext hsleep rfl)
    exact ⟨s, h, ⟨s₁, hs₁, huntouched _ _ _ hs₁⟩,
      ⟨answer.1, answer.2, hs₂, hrefuses, hserve _ _ _ hs₂ hrefuses⟩,
      _, _, rfl, rfl, Prod.ext hsleep rfl, hsame, hvisit⟩

end Scheduler
end PulseKernel
