/-
# The stages of a run

Whatever happens on the machine happens in stages. In most of them the scheduler
takes a step: it is entered, what there is to say about the step is put on the trace,
and the switch that it has planned is made (`MachineM.act`). The others change the
policy, or do not concern the scheduler at all (`Deed`, `Machine.Goes`). A run is a
journey, the list of its stages with the machine before and after each
(`Journey`).

A stage with a step is known in full (`MachineM.act_eq`): a plan names two different
registered threads, so the switch is made, with their saved contexts on the trace.

Key definitions: `MachineM.act`, `Machine.acted`, `Deed`, `Machine.Goes`, `Stage`,
`Journey`, `Machine.Sound`.
Key theorems: `Scheduler.Effect.possible`, `MachineM.act_eq`, `Machine.Sound.act`,
`Machine.Goes.sound`, `Journey.trans`, `Journey.split`, `Journey.trace`.
-/
import PulseKernel.Machine.Boot
import PulseKernel.Proofs.RefusedRequests
import PulseKernel.Proofs.SleepLedger

namespace PulseKernel

/-! ### Entries on the board -/

namespace Board

/-- The entry that an event makes now. -/
def entry (b : Board) (event : Event) : Entry := ⟨event, b.interrupts, b.nesting⟩

/-- The board after these events. -/
def noted (b : Board) (events : List Event) : Board := b.after (events.map b.entry)

theorem noted_noted (b : Board) (first second : List Event) :
    (b.noted first).noted second = b.noted (first ++ second) := by
  have hentry : (b.noted first).entry = b.entry := rfl
  rw [noted, hentry]
  simp [noted, after]

@[simp] theorem trace_after (b : Board) (entries : List Entry) :
    (b.after entries).trace = b.trace ++ entries := by
  simp [trace, after]

@[simp] theorem trace_noted (b : Board) (events : List Event) :
    (b.noted events).trace = b.trace ++ events.map b.entry :=
  trace_after b _

end Board

/-! ### Switches that can be made -/

/-- The plan names two different registered threads. -/
structure SwitchPlan.Possible (plan : SwitchPlan) (table : ThreadTable) : Prop where
  differs : plan.source ≠ plan.target
  source : table.contains plan.source = true
  target : table.contains plan.target = true

theorem SwitchPlan.possible_of_plan? {table : ThreadTable} {source target : ThreadId}
    {plan : SwitchPlan} (h : plan? table source target = some plan) : plan.Possible table := by
  unfold plan? at h
  split at h
  · rename_i hpossible
    obtain rfl := Option.some.inj h
    exact ⟨hpossible.1, hpossible.2.1, hpossible.2.2⟩
  · cases h

namespace ThreadTable

variable {table : ThreadTable} {t : ThreadId}

/-- The saved context of a thread, and a blank one for a thread that is not registered. -/
def saved (table : ThreadTable) (t : ThreadId) : SavedContext := (table.context t).toOption.getD {}

theorem saved_of_context {c : SavedContext} (h : table.context t = .ok c) : table.saved t = c := by
  rw [saved, h]
  rfl

theorem context_of_contains (h : table.contains t = true) :
    table.context t = .ok (table.saved t) := by
  obtain ⟨c, hc⟩ := context_eq_ok_iff.mpr h
  rw [hc, saved_of_context hc]

theorem setContext_of_contains (h : table.contains t = true) (c : SavedContext) :
    table.setContext t c = .ok (table.touch (some t) (Slot.withContext c)) := by
  obtain ⟨g, hg⟩ := contains_iff.mp h
  obtain ⟨s, hs, hused, -⟩ := tag_eq_ok.mp hg
  rw [← setIfInBounds_eq_touch hs (Slot.withContext c)]
  simp [setContext, slot_eq_ok.mpr ⟨hs, hused⟩, Slot.withContext, bind, Except.bind, pure,
    Except.pure]

/-- The table after a switch: the thread that gave up the processor goes on from another context. -/
def switched (table : ThreadTable) (plan : SwitchPlan) : ThreadTable :=
  table.touch (some plan.source)
    (Slot.withContext (MachineM.leftBehind (table.saved plan.source)))

/-- What a switch puts on the trace, if one is planned. -/
def handover (table : ThreadTable) : Option SwitchPlan → List Event
  | some plan => [.switched plan (table.saved plan.source) (table.saved plan.target)]
  | none => []

end ThreadTable

/-- What there is to say on the trace about a step: that a pulse has read the clock, and that it has
been handled; that a thread came or went. -/
def SchedulerStep.remarks : SchedulerStep → StepAnswer → List Event
  | .call (.tick _ _), .pulsed outcome =>
    (if 0 < outcome.clockReads then [.clockRead] else []) ++ [.endOfInterrupt]
  | .call (.serve (.register context)), .served (.registered (.ok t)) => [.registered t context]
  | .call (.serve (.release t)), .served (.released (.ok ())) => [.released t]
  | _, _ => []

namespace Scheduler

variable {π : Type}

/-- The scheduler after the switch that was planned, if one was. -/
def switched (s : Scheduler π) : Option SwitchPlan → Scheduler π
  | some plan => { s with threads := s.threads.switched plan }
  | none => s

@[simp] theorem switched_sleepers (s : Scheduler π) (plan? : Option SwitchPlan) :
    (s.switched plan?).sleepers = s.sleepers := by
  cases plan? <;> rfl

@[simp] theorem switched_stats (s : Scheduler π) (plan? : Option SwitchPlan) :
    (s.switched plan?).stats = s.stats := by
  cases plan? <;> rfl

theorem Sound.switched {L : Layout Unit Unit} {s : Scheduler π} {staged : List ThreadId}
    {naps : List Sleeper} (h : s.Sound L staged naps) {plan? : Option SwitchPlan}
    (hplan : ∀ plan, plan? = some plan → plan.Possible s.threads) :
    (s.switched plan?).Sound L staged naps := by
  cases plan? with
  | none => exact h
  | some plan => exact h.setContext (ThreadTable.setContext_of_contains (hplan plan rfl).source _)

/-- Every plan is between two different threads that are registered then. -/
theorem Effect.possible [Policy π] {s s' : Scheduler π} {naps naps' : List Sleeper}
    {step : SchedulerStep} {answer : StepAnswer} (h : s.Effect naps step answer s' naps')
    {plan : SwitchPlan} (hplan : answer.plan? = some plan) : plan.Possible s'.threads := by
  cases h with
  | dozed => exact SwitchPlan.possible_of_plan? hplan
  | pulse =>
    obtain ⟨rotation, -, hrotation⟩ := Option.bind_eq_some_iff.mp hplan
    exact SwitchPlan.possible_of_plan? hrotation
  | handed =>
    rw [StepAnswer.plan?_decided] at hplan
    exact SwitchPlan.possible_of_plan? hplan
  | unchanged | registered | released | woken | removed | refused | early | resumes | alone =>
    cases hplan

end Scheduler

/-! ### A step and what comes with it -/

namespace MachineM

variable {π α β : Type} {m m' : Machine π}

/-- Puts events on the trace. -/
def remark (events : List Event) : MachineM π Unit := changeBoard (·.noted events)

theorem remark_apply (events : List Event) (m : Machine π) :
    remark events m = (.ok (), { m with board := m.board.noted events }) := rfl

theorem switchIfPlanned_eq {plan? : Option SwitchPlan}
    (h : ∀ plan, plan? = some plan → plan.Possible m.scheduler.threads) :
    switchIfPlanned plan? m = (.ok (), { m with
      board := m.board.noted (m.scheduler.threads.handover plan?)
      scheduler := m.scheduler.switched plan? }) := by
  cases plan? with
  | none => rfl
  | some plan =>
    obtain ⟨-, hsource, htarget⟩ := h plan rfl
    simp only [switchIfPlanned, switchTo, ThreadTable.context_of_contains hsource,
      ThreadTable.context_of_contains htarget, ThreadTable.setContext_of_contains hsource]
    rfl

theorem enter_of_take (step : Scheduler π → Logged (α × Scheduler π)) {a : α}
    {s' : Scheduler π} (h : (step m.scheduler).result = .ok (a, s')) :
    enter step m = (.ok a, { m with
      board := m.board.noted [.schedulerEntered]
      told := (step m.scheduler).notices.reverse ++ m.told
      scheduler := s' }) := by
  simp only [enter, h]
  rfl

/-- What the scheduler answers can be renamed in it or outside of it. -/
theorem enter_map (step : Scheduler π → Logged (α × Scheduler π)) (g : α → β) :
    enter (fun s => step s >>= fun a => pure (g a.1, a.2)) = g <$> enter step := by
  funext m
  rw [map_eq_pure_bind]
  simp only [enter, bind_eq, MachineM.bind]
  cases h : (step m.scheduler).result with
  | error fault => simp [Logged.bind_of_error _ h]
  | ok a =>
    simp only [Logged.bind_of_ok _ h]
    show _ = MachineM.pure _ _
    simp [MachineM.pure, pure, Logged.pure]

variable [Policy π]

/-- Has the scheduler take a step, says on the trace what there is to say, and makes the switch that
was planned. -/
def act (step : SchedulerStep) : MachineM π StepAnswer := do
  let answer ← enter (·.take step)
  remark (step.remarks answer)
  switchIfPlanned answer.plan?
  return answer

end MachineM

section

variable {π : Type} [Policy π]

/-- The machine after a stage in which the scheduler took a step, given the answer and what the
step made of the scheduler. -/
def Machine.acted (m : Machine π) (step : SchedulerStep) (answer : StepAnswer)
    (s' : Scheduler π) : Machine π :=
  { m with
    board := m.board.noted
      (.schedulerEntered :: (step.remarks answer ++ s'.threads.handover answer.plan?))
    scheduler := s'.switched answer.plan?
    told := (m.scheduler.take step).notices.reverse ++ m.told }

/-- A step that can be taken is taken, and the switch that it plans is made. -/
theorem MachineM.act_eq {m : Machine π} {step : SchedulerStep} {answer : StepAnswer}
    {s' : Scheduler π} (htake : (m.scheduler.take step).result = .ok (answer, s'))
    (hplan : ∀ plan, answer.plan? = some plan → plan.Possible s'.threads) :
    act step m = (.ok answer, m.acted step answer s') := by
  rw [act, bind_of_ok _ (enter_of_take (·.take step) htake),
    bind_of_ok _ (remark_apply _ _), bind_of_ok _ (switchIfPlanned_eq hplan)]
  simp only [Board.noted_noted, List.append_assoc]
  rfl

end

/-! ### Stages -/

/-- What is done in a stage. -/
inductive Deed where
  /-- The scheduler took a step, and the switch that was planned was made. -/
  | acted (step : SchedulerStep) (answer : StepAnswer)
  /-- The scheduler took a step for somebody who has it at hand and makes no switch. -/
  | consulted (step : SchedulerStep) (answer : StepAnswer)
  /-- The policy was changed. -/
  | governed
  /-- Something that does not concern the scheduler. -/
  | aside

/-- Whether it is done by an operation of the machine. -/
def Deed.isService : Deed → Bool
  | .consulted _ _ => false
  | _ => true

/-- Whether an event does not concern the scheduler. -/
def Event.isAside : Event → Bool
  | .clockRead | .masked | .unmasked | .waiting => true
  | _ => false

/-- A pulse reads the board's clock, and asks the board whether it has booted. -/
def SchedulerStep.Fits (b : Board) : SchedulerStep → Prop
  | .call (.tick now booted) => now = b.now ∧ booted = b.booted
  | _ => True

section

variable {π : Type}

/-- Nothing has happened that concerns the scheduler. -/
structure Machine.Passes (m m' : Machine π) : Prop where
  scheduler : m'.scheduler = m.scheduler
  trace : ∃ entries, m'.board.trace = m.board.trace ++ entries ∧
    ∀ e ∈ entries, e.event.isAside = true

variable [Policy π]

/-- Changes the policy, inside the scheduler. -/
def MachineM.govern (change : π → π) : MachineM π Unit :=
  enter fun s => return ((), { s with policy := change s.policy })

/-- What is done in a stage, and what it makes of the machine. -/
inductive Machine.Goes (m : Machine π) : Deed → Machine π → Prop where
  | acted {step : SchedulerStep} {answer : StepAnswer} {m' : Machine π}
      (hact : MachineM.act step m = (.ok answer, m')) (hfits : step.Fits m.board) :
      Goes m (.acted step answer) m'
  | consulted {step : SchedulerStep} {answer : StepAnswer} {m' : Machine π}
      (henter : MachineM.enter (·.take step) m = (.ok answer, m')) :
      Goes m (.consulted step answer) m'
  | governed (change : π → π) : Goes m .governed (MachineM.govern change m).2
  | aside {m' : Machine π} (hpasses : m.Passes m') : Goes m .aside m'

/-- A stage of a run. -/
structure Stage (π : Type) where
  before : Machine π
  deed : Deed
  after : Machine π

/-- What was put on the trace since the machine was as at the start. -/
def Machine.entriesSince {π : Type} (m start : Machine π) : List Entry :=
  m.board.trace.drop start.board.trace.length

/-- What was put on the trace in the stage. -/
def Stage.entries {π : Type} (stage : Stage π) : List Entry :=
  stage.after.entriesSince stage.before

/-- The stages of a run, from the machine at its start to the one at its end. -/
inductive Journey (start : Machine π) : List (Stage π) → Machine π → Prop where
  | start : Journey start [] start
  | stage {past : List (Stage π)} {m m' : Machine π} {deed : Deed} :
      Journey start past m → m.Goes deed m' → Journey start (past ++ [⟨m, deed, m'⟩]) m'

namespace Journey

variable {start m m' : Machine π} {first second stages : List (Stage π)} {deed : Deed}

theorem of_goes (h : m.Goes deed m') : Journey m [⟨m, deed, m'⟩] m' := .stage .start h

theorem trans (h : Journey start first m) (h' : Journey m second m') :
    Journey start (first ++ second) m' := by
  induction h' with
  | start => rwa [List.append_nil]
  | stage _ hgoes ih =>
    rw [← List.append_assoc]
    exact ih.stage hgoes

/-- A journey can be broken anywhere. -/
theorem split (h : Journey start stages m') (hstages : stages = first ++ second) :
    ∃ m, Journey start first m ∧ Journey m second m' := by
  induction h generalizing second with
  | start =>
    obtain ⟨rfl, rfl⟩ := List.append_eq_nil_iff.mp hstages.symm
    exact ⟨_, .start, .start⟩
  | stage hjourney hgoes ih =>
    rcases second.eq_nil_or_concat' with rfl | ⟨second, last, rfl⟩
    · rw [List.append_nil] at hstages
      subst hstages
      exact ⟨_, hjourney.stage hgoes, .start⟩
    · rw [← List.append_assoc] at hstages
      obtain ⟨rfl, rfl⟩ := List.append_singleton_inj.mp hstages
      obtain ⟨between, hfirst, hsecond⟩ := ih rfl
      exact ⟨between, hfirst, hsecond.stage hgoes⟩

theorem split_cons {stage : Stage π} (h : Journey start (stage :: second) m') :
    stage.before = start ∧ start.Goes stage.deed stage.after ∧ Journey stage.after second m' := by
  obtain ⟨m, hfirst, hsecond⟩ := h.split (rfl : _ = [stage] ++ second)
  obtain ⟨past, before, deed, hpast, hgoes, heq⟩ : ∃ past before deed, Journey start past before ∧
      before.Goes deed m ∧ [stage] = past ++ [⟨before, deed, m⟩] := by
    generalize hstages : [stage] = stages at hfirst
    cases hfirst with
    | start => cases hstages
    | stage hpast hgoes => exact ⟨_, _, _, hpast, hgoes, rfl⟩
  obtain ⟨rfl, rfl⟩ := List.append_singleton_inj.mp ((List.nil_append [stage]).trans heq)
  generalize hnil : ([] : List (Stage π)) = past at hpast
  cases hpast with
  | start => exact ⟨rfl, hgoes, hsecond⟩
  | stage => simp at hnil

end Journey

/-! ### What every stage keeps up -/

/-- The accounts of the machine's scheduler are in order, and its hand-off queue is empty. -/
def Machine.Sound {π : Type} (m : Machine π) : Prop :=
  ∃ (L : Layout Unit Unit) (naps : List Sleeper), m.scheduler.Sound L [] naps

variable {m m' start : Machine π} {deed : Deed} {step : SchedulerStep} {answer : StepAnswer}

/-- A step that was taken, with its effect and the accounts before and after it. -/
structure Machine.Takes (m : Machine π) (step : SchedulerStep) (answer : StepAnswer)
    (s' : Scheduler π) (L : Layout Unit Unit) (naps naps' : List Sleeper) : Prop where
  result : (m.scheduler.take step).result = .ok (answer, s')
  sound : m.scheduler.Sound L [] naps
  effect : m.scheduler.Effect naps step answer s' naps'
  sound' : s'.Sound L [] naps'

omit [Policy π] in
theorem Machine.Passes.sound (h : m.Passes m') (hsound : m.Sound) : m'.Sound := by
  obtain ⟨L, naps, hsound⟩ := hsound
  exact ⟨L, naps, h.scheduler ▸ hsound⟩

namespace Machine.Sound

/-- Every step can be taken. -/
theorem takes (h : m.Sound) (step : SchedulerStep) :
    (m.scheduler.take step).Gives fun a => ∃ L naps naps', m.Takes step a.1 a.2 L naps naps' := by
  obtain ⟨L, naps, hsound⟩ := h
  obtain ⟨a, ha, naps', heffect, hsound'⟩ := hsound.take_effect step
  exact ⟨a, ha, L, naps, naps', ha, hsound, heffect, hsound'⟩

/-- Every step can be taken, and the switch that it plans is made. -/
theorem act (h : m.Sound) (step : SchedulerStep) :
    ∃ answer s' L naps naps', m.Takes step answer s' L naps naps' ∧
      MachineM.act step m = (.ok answer, m.acted step answer s') := by
  obtain ⟨⟨answer, s'⟩, htake, L, naps, naps', htakes⟩ := h.takes step
  exact ⟨answer, s', L, naps, naps', htakes,
    MachineM.act_eq htake fun plan hplan => htakes.effect.possible hplan⟩

/-- What a step with its switch has made of a machine. -/
theorem of_act (h : m.Sound) (hact : MachineM.act step m = (.ok answer, m')) :
    ∃ s' L naps naps', m.Takes step answer s' L naps naps' ∧ m' = m.acted step answer s' := by
  obtain ⟨answer', s', L, naps, naps', htakes, heq⟩ := h.act step
  obtain ⟨hanswer, rfl⟩ := Prod.mk.inj (heq.symm.trans hact)
  obtain rfl := Except.ok.inj hanswer
  exact ⟨s', L, naps, naps', htakes, rfl⟩

/-- What a step without a switch has made of a machine. -/
theorem of_enter (h : m.Sound) (henter : MachineM.enter (·.take step) m = (.ok answer, m')) :
    ∃ L naps naps', m.Takes step answer m'.scheduler L naps naps' ∧
      m'.board = m.board.noted [.schedulerEntered] := by
  obtain ⟨s', htake, rfl⟩ := MachineM.enter_eq_ok henter
  obtain ⟨L, naps, naps', htakes⟩ := (h.takes step).of_result htake
  exact ⟨L, naps, naps', htakes, rfl⟩

theorem goes_acted (h : m.Sound) (hfits : step.Fits m.board) :
    ∃ answer m', m.Goes (.acted step answer) m' := by
  obtain ⟨answer, s', L, naps, naps', -, hact⟩ := h.act step
  exact ⟨answer, _, .acted hact hfits⟩

theorem goes_consulted (h : m.Sound) (step : SchedulerStep) :
    ∃ answer m', m.Goes (.consulted step answer) m' := by
  obtain ⟨⟨answer, s'⟩, htake, -⟩ := h.takes step
  exact ⟨answer, _, .consulted (MachineM.enter_of_take (·.take step) htake)⟩

end Machine.Sound

theorem Machine.Takes.acted_sound {s' : Scheduler π} {L : Layout Unit Unit}
    {naps naps' : List Sleeper} (h : m.Takes step answer s' L naps naps') :
    (m.acted step answer s').Sound :=
  ⟨L, naps', h.sound'.switched fun _ hplan => h.effect.possible hplan⟩

/-- Every stage leaves the accounts in order. -/
theorem Machine.Goes.sound (h : m.Goes deed m') (hsound : m.Sound) : m'.Sound := by
  cases h with
  | acted hact hfits =>
    obtain ⟨s', L, naps, naps', htakes, rfl⟩ := hsound.of_act hact
    exact htakes.acted_sound
  | consulted henter =>
    obtain ⟨L, naps, naps', htakes, -⟩ := hsound.of_enter henter
    exact ⟨L, naps', htakes.sound'⟩
  | governed change =>
    obtain ⟨L, naps, hsound⟩ := hsound
    exact ⟨L, naps, hsound.withPolicy _⟩
  | aside hpasses => exact hpasses.sound hsound

theorem Journey.sound {stages : List (Stage π)} (h : Journey start stages m)
    (hsound : start.Sound) : m.Sound := by
  induction h with
  | start => exact hsound
  | stage _ hgoes ih => exact hgoes.sound ih

omit [Policy π] in
theorem Machine.entriesSince_of_trace {entries : List Entry}
    (h : m'.board.trace = m.board.trace ++ entries) : m'.entriesSince m = entries := by
  rw [entriesSince, h, List.drop_left]

/-- Every stage of a journey starts from a machine whose accounts are in order. -/
theorem Journey.goes_of_mem {stages : List (Stage π)} (h : Journey start stages m)
    (hsound : start.Sound) {c : Stage π} (hc : c ∈ stages) :
    c.before.Sound ∧ c.before.Goes c.deed c.after := by
  obtain ⟨earlier, later, rfl⟩ := List.append_of_mem hc
  obtain ⟨before, hearlier, hlater⟩ := h.split rfl
  obtain ⟨rfl, hgoes, -⟩ := hlater.split_cons
  exact ⟨hearlier.sound hsound, hgoes⟩

/-- Every stage adds to the trace. -/
theorem Machine.Goes.trace (h : m.Goes deed m') (hsound : m.Sound) :
    m'.board.trace = m.board.trace ++ m'.entriesSince m := by
  suffices hadds : ∃ entries, m'.board.trace = m.board.trace ++ entries by
    obtain ⟨entries, hadds⟩ := hadds
    rw [entriesSince_of_trace hadds, hadds]
  cases h with
  | acted hact hfits =>
    obtain ⟨s', L, naps, naps', -, rfl⟩ := hsound.of_act hact
    exact ⟨_, Board.trace_noted _ _⟩
  | consulted henter =>
    obtain ⟨L, naps, naps', -, hboard⟩ := hsound.of_enter henter
    exact ⟨_, hboard ▸ Board.trace_noted _ _⟩
  | governed change => exact ⟨_, Board.trace_noted m.board [.schedulerEntered]⟩
  | aside hpasses =>
    obtain ⟨entries, htrace, -⟩ := hpasses.trace
    exact ⟨entries, htrace⟩

/-- A journey puts on the trace what its stages do, one after the other. -/
theorem Journey.trace {stages : List (Stage π)} (h : Journey start stages m)
    (hsound : start.Sound) :
    m.board.trace = start.board.trace ++ stages.flatMap (·.entries) := by
  induction h with
  | start => simp
  | stage hjourney hgoes ih =>
    rw [hgoes.trace (hjourney.sound hsound), ih, List.flatMap_append, List.flatMap_singleton,
      List.append_assoc]
    rfl

theorem Journey.entriesSince {stages : List (Stage π)} (h : Journey start stages m)
    (hsound : start.Sound) : m.entriesSince start = stages.flatMap (·.entries) :=
  Machine.entriesSince_of_trace (h.trace hsound)

end
end PulseKernel
