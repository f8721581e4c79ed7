/-
# What a step does

A scheduler takes steps: it is called, or a sleeper that waits on the processor
looks at what it is to do (`SchedulerStep`). Of every step it is said here, once and
in full, which answers it can give, what the scheduler is afterwards and who sleeps
then (`Scheduler.Effect`). A statement about steps is proved by going through these
effects, and none of them asks for the code again.

Key definitions: `SchedulerStep`, `StepAnswer`, `Scheduler.take`, `Moment`,
`Moment.Ends`, `Scheduler.Effect`.
Key theorems: `Scheduler.Effect.mem_iff`, `Scheduler.Sound.take_effect`.
-/
import PulseKernel.Proofs.CallEffect

namespace PulseKernel

/-- Something done with the scheduler. -/
inductive SchedulerStep where
  | call (c : SchedulerCall)
  /-- The sleeper `me`, which waits on the processor, looks at what it is to do. -/
  | reconsider (me : ThreadId)

/-- The answer to a step. -/
inductive StepAnswer where
  | served (response : Response)
  | slept (outcome : Except Refusal SleepTicket)
  | pulsed (outcome : PulseOutcome)
  | decided (verdict : IdleVerdict)

/-- The switch that an answer asks for. -/
def StepAnswer.plan? : StepAnswer → Option SwitchPlan
  | .served _ => none
  | .slept outcome => outcome.toOption.bind (·.plan)
  | .pulsed outcome => outcome.plan
  | .decided (.giveWay plan) => some plan
  | .decided _ => none

@[simp] theorem StepAnswer.plan?_decided (plan : Option SwitchPlan) :
    (StepAnswer.decided (plan.elim .wait .giveWay)).plan? = plan := by
  cases plan <;> rfl

/-- Whether the request has changed something: a thread was registered, released, woken or taken out
of the sleep queue. -/
def Response.acts : Response → Bool
  | .registered (.ok _) => true
  | .released (.ok _) => true
  | .woken (some _) => true
  | .removed (some _) => true
  | _ => false

namespace Scheduler

variable {π : Type}

/-- The scheduler takes a step. -/
def take [Policy π] (s : Scheduler π) : SchedulerStep → Logged (StepAnswer × Scheduler π)
  | .call (.serve request) => do
    let (response, s) ← s.serve request
    return (.served response, s)
  | .call (.beginSleep deadline) => do
    let (outcome, s) ← s.beginSleep deadline
    return (.slept outcome, s)
  | .call (.tick now booted) => do
    let (outcome, s) ← s.tick now booted
    return (.pulsed outcome, s)
  | .reconsider me => do
    let (verdict, s) ← s.reconsider me
    return (.decided verdict, s)

end Scheduler

/-- A step that was taken. -/
structure Moment (π : Type) where
  before : Scheduler π
  step : SchedulerStep
  answer : StepAnswer
  after : Scheduler π

namespace Moment

variable {π : Type}

/-- The switch that was planned. -/
def plan? (m : Moment π) : Option SwitchPlan := m.answer.plan?

/-- The step ends the sleep of a thread until a deadline: by a pulse that finds it due, or by a
request that wakes the thread or takes it out. -/
def Ends (m : Moment π) (deadline : Nat) (t : ThreadId) : Prop :=
  match m.step, m.answer with
  | .call (.tick now true), .pulsed _ => deadline ≤ now
  | .call (.serve (.cancelSleep deadline')), .served (.woken (some u)) =>
    deadline' = deadline ∧ u = t
  | .call (.serve (.cancelThreadSleep u)), .served (.removed (some deadline')) =>
    deadline' = deadline ∧ u = t
  | _, _ => False

end Moment

namespace Scheduler

/-- The scheduler takes one step after the other. -/
def takeAll {π : Type} [Policy π] (s : Scheduler π) :
    List SchedulerStep → Logged (List (Moment π) × Scheduler π)
  | [] => return ([], s)
  | step :: steps => do
    let (answer, s') ← s.take step
    let (moments, last) ← s'.takeAll steps
    return (⟨s, step, answer, s'⟩ :: moments, last)

variable {π : Type} [Policy π] {L : Layout Unit Unit} {s : Scheduler π} {naps : List Sleeper}

/-- The scheduler after the waiting sleeper `me` has asked for another thread. -/
def handedOver (s : Scheduler π) (me : ThreadId) : Scheduler π :=
  let (next, policy) := Policy.pickNext s.hasOtherRunnable.2.policy
  { s with
    policy := policy
    stats := { s.stats with
      contextSwitches :=
        s.stats.contextSwitches + (SwitchPlan.plan? s.threads me next).isSome.toNat } }

/-- What a step can do to a scheduler with these sleepers: the answer, the scheduler afterwards, and
the sleepers that are left. -/
inductive Effect (s : Scheduler π) (naps : List Sleeper) :
    SchedulerStep → StepAnswer → Scheduler π → List Sleeper → Prop where
  /-- A question, an audit, or a request that is refused. -/
  | unchanged {request : Request} {response : Response} (hidle : response.acts = false) :
      Effect s naps (.call (.serve request)) (.served response) s naps
  | registered {context : SavedContext} {t : ThreadId} {threads : ThreadTable}
      (hroom : s.threads.register context = (.ok t, threads)) :
      Effect s naps (.call (.serve (.register context))) (.served (.registered (.ok t)))
        { s with threads := threads } naps
  | released {t : ThreadId} {threads : ThreadTable}
      (hfree : s.threads.release t = (.ok (), threads)) :
      Effect s naps (.call (.serve (.release t))) (.served (.released (.ok ())))
        { s with threads := threads } naps
  | woken {deadline : Nat} {e : Sleeper} {heap : Array Sleeper}
      (he : naps.find? (·.deadline == deadline) = some e) :
      Effect s naps (.call (.serve (.cancelSleep deadline))) (.served (.woken (some e.thread)))
        { s.relieved heap e.thread with
          policy := Policy.addAll (Policy.others s.policy [e.thread]).2
            (Policy.others s.policy [e.thread]).1 } (naps.erase e)
  | removed {t : ThreadId} {e : Sleeper} {heap : Array Sleeper}
      (he : naps.find? (·.thread == t) = some e) :
      Effect s naps (.call (.serve (.cancelThreadSleep t))) (.served (.removed (some e.deadline)))
        (s.relieved heap e.thread) (naps.erase e)
  | refused {deadline : Nat} {refusal : Refusal} :
      Effect s naps (.call (.beginSleep deadline)) (.slept (.error refusal)) s.current.2 naps
  | dozed {deadline : Nat} (hg : s.threads.tag s.current.1 = .ok .unqueued) :
      Effect s naps (.call (.beginSleep deadline))
        (.slept (.ok ⟨s.current.1, SwitchPlan.plan? (s.dozing deadline).threads s.current.1
          (Policy.pickNext s.current.2.policy).1⟩))
        (s.dozing deadline) (naps ++ [⟨deadline, s.current.1, s.sleepers.nextSeq⟩])
  /-- A pulse before the system has booted. -/
  | early {now : Nat} {clock : TickClock} (hclock : s.clock.advance? = some clock) :
      Effect s naps (.call (.tick now false)) (.pulsed {})
        { s with
          clock := clock
          stats := { s.stats with
            pulses := s.stats.pulses + 1
            earlyPulses := s.stats.earlyPulses + 1 } } naps
  | pulse {now : Nat} {clock : TickClock} {heap : Array Sleeper}
      (hclock : s.clock.advance? = some clock) :
      Effect s naps (.call (.tick now true))
        (.pulsed
          ⟨(s.heard now clock.ticks).rotation.bind (·.plan? (s.afterPulse now clock heap).threads),
            if s.sleepers.isEmpty then 0 else 1⟩)
        (s.afterPulse now clock heap) (naps.filter fun e => now < e.deadline)
  /-- The sleeper that waited has been woken. -/
  | resumes {me : ThreadId} (hawake : s.isSleeping me = false) :
      Effect s naps (.reconsider me) (.decided .goOn) s naps
  /-- Nobody else can run. -/
  | alone {me : ThreadId} (hasleep : s.isSleeping me = true)
      (hidle : s.hasOtherRunnable.1 = false) :
      Effect s naps (.reconsider me) (.decided .wait) s.hasOtherRunnable.2 naps
  | handed {me : ThreadId} (hasleep : s.isSleeping me = true)
      (hbusy : s.hasOtherRunnable.1 = true) :
      Effect s naps (.reconsider me)
        (.decided ((SwitchPlan.plan? s.threads me
          (Policy.pickNext s.hasOtherRunnable.2.policy).1).elim .wait .giveWay))
        (s.handedOver me) naps

namespace Effect

variable {step : SchedulerStep} {answer : StepAnswer} {s' : Scheduler π} {naps' : List Sleeper}

/-- The step that had the effect. -/
abbrev moment (_ : s.Effect naps step answer s' naps') : Moment π := ⟨s, step, answer, s'⟩

/-- Who slept before a step sleeps after it, unless the step has ended the sleep. -/
theorem mem_iff (h : s.Effect naps step answer s' naps') (hlists : s.sleepers.Lists naps)
    {e : Sleeper} (he : e ∈ naps) :
    e ∈ naps' ↔ ¬ h.moment.Ends e.deadline e.thread := by
  have hnodup : naps.Nodup := .of_map _ hlists.distinct
  cases h with
  | woken hfind =>
    rename_i deadline a heap
    have hd : a.deadline = deadline := by simpa using List.find?_some hfind
    have hae : a = e ↔ deadline = e.deadline ∧ a.thread = e.thread :=
      ⟨by rintro rfl; exact ⟨hd.symm, rfl⟩,
        fun heq => hlists.eq_of_thread (List.mem_of_find?_eq_some hfind) he heq.2⟩
    rw [hnodup.mem_erase_iff, and_iff_left he]
    exact not_congr (eq_comm.trans hae)
  | removed hfind =>
    rename_i t a heap
    have ht : a.thread = t := by simpa using List.find?_some hfind
    have hae : a = e ↔ a.deadline = e.deadline ∧ t = e.thread :=
      ⟨by rintro rfl; exact ⟨rfl, ht.symm⟩, fun heq =>
        hlists.eq_of_thread (List.mem_of_find?_eq_some hfind) he (ht.trans heq.2)⟩
    rw [hnodup.mem_erase_iff, and_iff_left he]
    exact not_congr (eq_comm.trans hae)
  | pulse =>
    rename_i now clock heap hclock
    rw [List.mem_filter, and_iff_right he, decide_eq_true_eq]
    exact Nat.not_le.symm
  | unchanged hidle =>
    refine iff_of_true he fun hends => ?_
    unfold Moment.Ends at hends
    split at hends
    · rename_i heq _
      cases heq
    · rename_i heq
      cases heq
      cases hidle
    · rename_i heq
      cases heq
      cases hidle
    · exact hends
  | registered | released | refused | dozed | early | resumes | alone | handed =>
    simp [he, Moment.Ends]

end Effect

namespace Sound

theorem serve_effect (h : s.Sound L [] naps) (request : Request) :
    (s.serve request).Gives fun a => ∃ naps',
      s.Effect naps (.call (.serve request)) (.served a.1) a.2 naps' ∧ a.2.Sound L [] naps' := by
  cases request with
  | register context =>
    refine .bind (h.register_result context) fun a ha => .pure ?_
    rcases ha with ⟨refusal, rfl⟩ | ⟨t, threads, hroom, rfl, h'⟩
    · exact ⟨naps, .unchanged rfl, h⟩
    · exact ⟨naps, .registered hroom, h'⟩
  | release t =>
    refine .bind (h.release_result t) fun a ha => .pure ?_
    rcases ha with ⟨refusal, -, rfl⟩ | ⟨threads, hfree, rfl, h'⟩
    · exact ⟨naps, .unchanged rfl, h⟩
    · exact ⟨naps, .released hfree, h'⟩
  | cancelSleep deadline =>
    refine .bind (h.cancelSleep_result deadline) fun a ha => .pure ?_
    rcases ha with ⟨rfl, -⟩ | ⟨e, heap, he, rfl, h'⟩
    · exact ⟨naps, .unchanged rfl, h⟩
    · exact ⟨_, .woken he, h'⟩
  | cancelThreadSleep t =>
    refine .bind (h.cancelThreadSleep_result t) fun a ha => .pure ?_
    rcases ha with ⟨rfl, -⟩ | ⟨e, heap, he, rfl, h'⟩
    · exact ⟨naps, .unchanged rfl, h⟩
    · exact ⟨_, .removed he, h'⟩
  | audit => exact .bind h.audit fun _ _ => .pure ⟨naps, .unchanged rfl, h⟩
  | ticks | uptime | stats | isSleeping => exact .pure ⟨naps, .unchanged rfl, h⟩

theorem tick_effect (h : s.Sound L [] naps) (now : Nat) (booted : Bool) :
    (s.tick now booted).Gives fun a => ∃ naps',
      s.Effect naps (.call (.tick now booted)) (.pulsed a.1) a.2 naps' ∧ a.2.Sound L [] naps' := by
  cases booted with
  | false =>
    obtain ⟨clock, hclock, hs⟩ := h.tick_early_eq now
    obtain ⟨clock', hclock', -, hcounted⟩ := h.countPulse_eq
    obtain rfl := Option.some.inj (hclock.symm.trans hclock')
    exact ⟨_, hs, naps, .early hclock, hcounted.withStats _⟩
  | true =>
    obtain ⟨clock, heap, hclock, hperm, hs⟩ := h.tick_booted_eq now
    exact ⟨_, hs, _, .pulse hclock, h.afterPulse hs hperm⟩

/-- A sleeper that is not alone has the policy choose, and gives way if it can. -/
theorem reconsider_of_busy {me : ThreadId} (hasleep : s.isSleeping me = true)
    (hbusy : s.hasOtherRunnable.1 = true) :
    (s.reconsider me).result = .ok
      ((SwitchPlan.plan? s.threads me (Policy.pickNext s.hasOtherRunnable.2.policy).1).elim .wait
        .giveWay, s.handedOver me) := by
  unfold Scheduler.reconsider
  simp only [hasleep, hbusy, Bool.not_true, Bool.false_eq_true, if_false]
  rw [Logged.result_bind_of_ok _ (planSwitch_eq _ _ _)]
  have hthreads : s.hasOtherRunnable.2.pickNext.2.threads = s.threads := rfl
  have hnext : s.hasOtherRunnable.2.pickNext.1 =
    (Policy.pickNext s.hasOtherRunnable.2.policy).1 := rfl
  rw [hthreads, hnext]
  dsimp only [handedOver]
  cases SwitchPlan.plan? s.threads me (Policy.pickNext s.hasOtherRunnable.2.policy).1 <;> rfl

theorem reconsider_effect (h : s.Sound L [] naps) (me : ThreadId) :
    (s.reconsider me).Gives fun a =>
      s.Effect naps (.reconsider me) (.decided a.1) a.2 naps ∧ a.2.Sound L [] naps := by
  obtain ⟨a, ha, h'⟩ := h.reconsider me
  refine ⟨a, ha, ?_, h'⟩
  cases hasleep : s.isSleeping me with
  | false =>
    simp only [Scheduler.reconsider, hasleep, Bool.not_false, if_true] at ha
    obtain rfl := Except.ok.inj ha
    exact .resumes hasleep
  | true =>
    cases hbusy : s.hasOtherRunnable.1 with
    | false =>
      simp only [Scheduler.reconsider, hasleep, hbusy, Bool.not_true, Bool.not_false,
        Bool.false_eq_true, if_true, if_false] at ha
      obtain rfl := Except.ok.inj ha
      exact .alone hasleep hbusy
    | true =>
      obtain rfl := Except.ok.inj ((reconsider_of_busy hasleep hbusy).symm.trans ha)
      exact .handed hasleep hbusy

/-- Every step comes to an end, with one of the effects, and the accounts are in order again. -/
theorem take_effect (h : s.Sound L [] naps) (step : SchedulerStep) :
    (s.take step).Gives fun a => ∃ naps', s.Effect naps step a.1 a.2 naps' ∧
      a.2.Sound L [] naps' := by
  cases step with
  | call c =>
    cases c with
    | serve request => exact .bind (h.serve_effect request) fun a ha => .pure ha
    | beginSleep deadline =>
      refine .bind (h.beginSleep_result deadline) fun a ha => .pure ?_
      rcases ha with ⟨refusal, -, rfl⟩ | ⟨hg, rfl, h'⟩
      · exact ⟨naps, .refused, h.current⟩
      · exact ⟨_, .dozed hg, h'⟩
    | tick now booted => exact .bind (h.tick_effect now booted) fun a ha => .pure ha
  | reconsider me => exact .bind (h.reconsider_effect me) fun a ha => .pure ⟨naps, ha⟩

end Sound
end Scheduler
end PulseKernel
