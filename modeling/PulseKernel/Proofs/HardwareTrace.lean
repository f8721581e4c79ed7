/-
# What a run does with the board

A pulse enters the scheduler, reads the clock if the system has booted and somebody
sleeps, tells the interrupt controller that the interrupt has been handled, and makes
the switch that it was asked for. It does nothing else with the board
(`Machine.Sound.pulses`).

Plans come from pulses, from threads that fall asleep and from sleepers that wait, and
the switch is made when the scheduler has been left. None is forgotten and none is made
twice: the switches on the trace are the plans of the stages, in their order, and they
are as many as the scheduler has counted (`Journey.hardware`). This is so stage by
stage, since a stage with a plan ends with its switch (`Machine.Goes.switches`).

Key definitions: `Event.plan?`, `Deed.plans`, `Machine.Pulses`.
Key theorems: `Scheduler.Effect.remarks_tick`, `Machine.Sound.pulses`,
`Machine.Goes.switches`, `Machine.Goes.contextSwitches`, `Journey.hardware`.
-/
import PulseKernel.Proofs.Journeys

namespace PulseKernel

/-- The plan of a switch. -/
def Event.plan? : Event → Option SwitchPlan
  | .switched plan _ _ => some plan
  | _ => none

/-- The switch that was planned in a stage and made, if one was. -/
def Deed.plans : Deed → List SwitchPlan
  | .acted _ answer => answer.plan?.toList
  | _ => []

theorem filterMap_plan?_remarks (step : SchedulerStep) (answer : StepAnswer) :
    (step.remarks answer).filterMap Event.plan? = [] := by
  unfold SchedulerStep.remarks
  split
  · rename_i outcome
    by_cases h : 0 < outcome.clockReads <;> simp [h, Event.plan?]
  · rfl
  · rfl
  · rfl

theorem filterMap_plan?_handover (table : ThreadTable) (plan? : Option SwitchPlan) :
    (table.handover plan?).filterMap Event.plan? = plan?.toList := by
  cases plan? <;> rfl

section

variable {π : Type} [Policy π]

/-- What there is to say about a pulse: that it has read the clock, if the system had booted and
somebody slept, and that it has been handled. -/
theorem Scheduler.Effect.remarks_tick {s s' : Scheduler π} {naps naps' : List Sleeper} {now : Nat}
    {booted : Bool} {answer : StepAnswer}
    (h : s.Effect naps (.call (.tick now booted)) answer s' naps') :
    SchedulerStep.remarks (.call (.tick now booted)) answer =
      (if booted && !s.sleepers.isEmpty then [.clockRead] else []) ++ [.endOfInterrupt] := by
  cases h with
  | early => rfl
  | pulse => cases hempty : s.sleepers.isEmpty <;> simp [SchedulerStep.remarks]

variable {m m' start : Machine π} {deed : Deed} {answer : StepAnswer} {now : Nat} {booted : Bool}

/-- What a pulse does with the board before it switches. -/
def Machine.pulseEvents {π : Type} (m : Machine π) : List Event :=
  .schedulerEntered ::
    ((if m.board.booted && !m.scheduler.sleepers.isEmpty then [.clockRead] else []) ++
      [.endOfInterrupt])

/-- A pulse on the machine: what the scheduler has asked for, and all that was done with the
board. -/
structure Machine.Pulses (m : Machine π) (outcome : PulseOutcome) (m' : Machine π) : Prop where
  pulse : MachineM.pulse m = (.ok (), m')
  tick : ∃ s', (m.scheduler.tick m.board.now m.board.booted).result = .ok (outcome, s')
  trace : ∃ switches, m'.entriesSince m = (m.pulseEvents ++ switches).map m.board.entry ∧
    match outcome.plan with
    | some plan => ∃ source target, switches = [.switched plan source target]
    | none => switches = []

/-- The entries of a stage with a step: the scheduler is entered, what there is to say about the
step is said, and the switch is made. -/
theorem Machine.entriesSince_acted (m : Machine π) (step : SchedulerStep) (answer : StepAnswer)
    (s' : Scheduler π) :
    (m.acted step answer s').entriesSince m =
      (.schedulerEntered :: (step.remarks answer ++ s'.threads.handover answer.plan?)).map
        m.board.entry :=
  entriesSince_of_trace (Board.trace_noted _ _)

namespace Machine.Goes

theorem pulses (h : m.Goes (.acted (.call (.tick now booted)) answer) m') (hsound : m.Sound) :
    ∃ outcome, answer = .pulsed outcome ∧ m.Pulses outcome m' := by
  obtain ⟨hact, rfl, rfl⟩ := h
  obtain ⟨s', L, naps, naps', htakes, rfl⟩ := hsound.of_act hact
  obtain ⟨outcome, htick, rfl⟩ := Scheduler.answered_eq_ok (f := StepAnswer.pulsed) htakes.result
  refine ⟨outcome, rfl, ?_, ⟨s', htick⟩, s'.threads.handover outcome.plan, ?_, ?_⟩
  · rw [MachineM.pulse_apply, MachineM.bind_of_ok _ hact]
    rfl
  · rw [entriesSince_acted, htakes.effect.remarks_tick]
    rfl
  · cases outcome.plan with
    | none => rfl
    | some plan => exact ⟨_, _, rfl⟩

/-- A stage ends with the switch that was planned in it, and makes no other. -/
theorem switches (h : m.Goes deed m') (hsound : m.Sound) (hservice : deed.isService = true) :
    (m'.entriesSince m).filterMap (·.event.plan?) = deed.plans := by
  cases h with
  | acted hact hfits =>
    obtain ⟨s', L, naps, naps', -, rfl⟩ := hsound.of_act hact
    rw [entriesSince_acted, List.filterMap_map]
    show (Event.schedulerEntered :: (_ ++ _)).filterMap Event.plan? = _
    rw [List.filterMap_cons_none rfl, List.filterMap_append, filterMap_plan?_remarks,
      filterMap_plan?_handover]
    rfl
  | consulted => cases hservice
  | governed change =>
    rw [entriesSince_of_trace (Board.trace_noted m.board [.schedulerEntered])]
    rfl
  | aside hpasses =>
    obtain ⟨entries, htrace, haside⟩ := hpasses.trace
    rw [entriesSince_of_trace htrace]
    refine List.filterMap_eq_nil_iff.mpr fun e he => ?_
    have hevent := haside e he
    cases hplan : e.event <;> simp_all [Event.plan?, Event.isAside]

/-- A stage has the scheduler count the switch that was planned in it. -/
theorem contextSwitches (h : m.Goes deed m') (hsound : m.Sound) (hservice : deed.isService = true) :
    m'.scheduler.stats.contextSwitches =
      m.scheduler.stats.contextSwitches + deed.plans.length := by
  cases h with
  | @acted step answer m' hact hfits =>
    obtain ⟨s', L, naps, naps', htakes, rfl⟩ := hsound.of_act hact
    show (s'.switched _).stats.contextSwitches = _
    rw [Scheduler.switched_stats, htakes.effect.contextSwitches]
    show _ + answer.plan?.isSome.toNat = _ + answer.plan?.toList.length
    cases answer.plan? <;> rfl
  | consulted => cases hservice
  | governed change => rfl
  | aside hpasses =>
    rw [hpasses.scheduler]
    rfl

end Machine.Goes

/-! ### Runs -/

namespace Journey

variable {stages : List (Stage π)}

/-- The switches of a run are the plans of its stages. -/
theorem switches (h : Journey start stages m) (hsound : start.Sound)
    (hservice : ∀ c ∈ stages, c.deed.isService = true) :
    (m.entriesSince start).filterMap (·.event.plan?) = stages.flatMap (·.deed.plans) := by
  rw [h.entriesSince hsound]
  induction h with
  | start => rfl
  | stage hjourney hgoes ih =>
    obtain ⟨hpast, hlast⟩ := List.forall_mem_append.mp hservice
    have hstage := hgoes.switches (hjourney.sound hsound) (hlast _ List.mem_cons_self)
    rw [List.flatMap_append, List.filterMap_append, List.flatMap_append, ih hpast,
      List.flatMap_singleton, List.flatMap_singleton]
    exact congrArg _ hstage

/-- The scheduler counts the plans of the stages. -/
theorem contextSwitches (h : Journey start stages m) (hsound : start.Sound)
    (hservice : ∀ c ∈ stages, c.deed.isService = true) :
    m.scheduler.stats.contextSwitches =
      start.scheduler.stats.contextSwitches + (stages.flatMap (·.deed.plans)).length := by
  induction h with
  | start => rfl
  | stage hjourney hgoes ih =>
    obtain ⟨hpast, hlast⟩ := List.forall_mem_append.mp hservice
    rw [hgoes.contextSwitches (hjourney.sound hsound) (hlast _ List.mem_cons_self), ih hpast,
      List.flatMap_append, List.length_append, Nat.add_assoc, List.flatMap_singleton]

/-- In every run since boot, with whatever happens during the waits: a pulse does with the board
what it is to do and nothing else, and the switch that it asked for it makes last; and the switches
on the trace are the plans of the stages, each made once and in their order, as many as the
scheduler has counted. -/
theorem hardware {settings : Settings} {policy : π} {handoff : QueueId} {board : Board}
    (hboot : Machine.boot settings policy handoff board = .ok start) (h : Journey start stages m)
    (hservice : ∀ c ∈ stages, c.deed.isService = true) :
    (∃ outcome m', m.Pulses outcome m') ∧
    (∀ c ∈ stages, ∀ now booted answer, c.deed = .acted (.call (.tick now booted)) answer →
      ∃ outcome, answer = .pulsed outcome ∧ c.before.Pulses outcome c.after) ∧
    (m.entriesSince start).filterMap (·.event.plan?) = stages.flatMap (·.deed.plans) ∧
    m.scheduler.stats.contextSwitches =
      ((m.entriesSince start).filterMap (·.event.plan?)).length ∧
    ∀ actions, ∃ later, Journey start (stages ++ later) (m.performAll actions) ∧
      ∀ c ∈ stages ++ later, c.deed.isService = true := by
  have hstart := Machine.sound_boot hboot
  have hsound := h.sound hstart
  refine ⟨?_, fun c hc now booted answer hdeed => ?_, h.switches hstart hservice, ?_,
    fun actions => ?_⟩
  · have hfits : (SchedulerStep.call (.tick m.board.now m.board.booted)).Fits m.board := ⟨rfl, rfl⟩
    obtain ⟨answer, m', hgoes⟩ := hsound.goes_acted hfits
    obtain ⟨outcome, -, hpulses⟩ := hgoes.pulses hsound
    exact ⟨outcome, m', hpulses⟩
  · obtain ⟨hbefore, hgoes⟩ := h.goes_of_mem hstart hc
    rw [hdeed] at hgoes
    exact hgoes.pulses hbefore
  · rw [h.contextSwitches hstart hservice, h.switches hstart hservice,
      (Machine.boot_eq_ok hboot).2]
    exact Nat.zero_add _
  · exact h.performAll hsound hservice actions

end Journey

end

/-- The first thread falls asleep and the second one gets the processor. Then the second one falls
asleep too and waits alone: in its first wait a pulse wakes the first thread and switches to it, and
in its second wait a pulse wakes the second one and switches back. -/
theorem Journey.hardware_three_switches :
    ∃ (start : Machine Fifo) (stages : List (Stage Fifo)) (actions : List (Action Fifo)),
      Machine.boot { maxThreads := 2, quantum := 1 } ⟨[⟨1⟩], ⟨0⟩⟩ ⟨1⟩ {} = .ok start ∧
      Journey start stages (start.performAll actions) ∧
      (∀ c ∈ stages, c.deed.isService = true) ∧
      stages.flatMap (·.deed.plans) = [⟨⟨0⟩, ⟨1⟩⟩, ⟨⟨1⟩, ⟨0⟩⟩, ⟨⟨0⟩, ⟨1⟩⟩] ∧
      (start.performAll actions).scheduler.stats.contextSwitches = 3 := by
  let actions : List (Action Fifo) := [.request (.register {}), .request (.register {}),
    .sleepUntil 9 [], .sleepUntil 20
      [[.changeBoard (.clock 9), .pulses 1], [.changeBoard (.clock 20), .pulses 1]]]
  obtain ⟨start, hboot, hswitches⟩ := Machine.exists_boot
    { maxThreads := 2, quantum := 1 } (⟨[⟨1⟩], ⟨0⟩⟩ : Fifo) ⟨1⟩ {}
    (f := fun m => ((m.performAll actions).entriesSince m).filterMap (·.event.plan?))
    (a := [⟨⟨0⟩, ⟨1⟩⟩, ⟨⟨1⟩, ⟨0⟩⟩, ⟨⟨0⟩, ⟨1⟩⟩]) (by decide +kernel)
  obtain ⟨stages, hjourney, hservice⟩ :=
    Machine.serves_performAll actions (Machine.sound_boot hboot)
  obtain ⟨-, -, hplans, hcount, -⟩ := hjourney.hardware hboot hservice
  rw [hswitches] at hplans hcount
  exact ⟨start, stages, actions, hboot, hjourney, hservice, hplans.symm, hcount⟩

end PulseKernel
