/-
# Wake-ups on time

A thread that sleeps until a deadline is woken neither early nor late. Through every
pulse before the system has booted, and through every one that reads a time before the
deadline, it sleeps on in the sleep queue with its deadline unchanged, whatever happens
to the other sleepers; the first pulse that reads the deadline or a later time ends its
sleep (`Journey.wakes_on_time`). Only a request that takes it out can come before.

The deadline is the one that was asked for. A sleep for a span of time reads the clock
first, and sleeps until the span is over or the clock comes to its end
(`Machine.queuesUntil_sleepFor`).

Key definitions: `Scheduler.SleepsUntil`, `Deed.FallsAsleep`, `Deed.Withdraws`,
`Deed.IsPulseAt`, `Machine.QueuesUntil`.
Key theorems: `Scheduler.Effect.sleepsUntil_iff`, `Machine.Goes.sleepsUntil`,
`Machine.Goes.not_isSleeping`, `Journey.wakes_on_time`.
-/
import PulseKernel.Proofs.Journeys
import PulseKernel.Proofs.SleepersSpared

namespace PulseKernel

/-! ### Who sleeps, and until when -/

namespace Scheduler

variable {π : Type} {L : Layout Unit Unit} {s s' : Scheduler π} {naps naps' : List Sleeper}
  {deadline : Nat} {t : ThreadId}

/-- The thread sleeps, and is in the sleep queue with this deadline. -/
structure SleepsUntil (s : Scheduler π) (deadline : Nat) (t : ThreadId) : Prop where
  asleep : s.isSleeping t = true
  queued : ∃ e ∈ s.sleepers.heap, e.deadline = deadline ∧ e.thread = t

theorem Sound.sleepsUntil_iff (h : s.Sound L [] naps) :
    s.SleepsUntil deadline t ↔ ∃ e ∈ naps, e.deadline = deadline ∧ e.thread = t := by
  constructor
  · rintro ⟨-, e, he, hsame⟩
    exact ⟨e, h.lists.mem_heap_iff.mp he, hsame⟩
  · rintro ⟨e, he, hd, rfl⟩
    exact ⟨h.isSleeping_iff.mpr (List.mem_map_of_mem he), e, h.lists.mem_heap_iff.mpr he, hd, rfl⟩

variable [Policy π] {step : SchedulerStep} {answer : StepAnswer}

/-- A step keeps a thread asleep until its deadline exactly if it does not end the sleep. -/
theorem Effect.sleepsUntil_iff (h : s.Effect naps step answer s' naps') (hsound : s.Sound L [] naps)
    (hsound' : s'.Sound L [] naps') (hsleeps : s.SleepsUntil deadline t) :
    s'.SleepsUntil deadline t ↔ ¬ h.moment.Ends deadline t := by
  obtain ⟨e, he, rfl, rfl⟩ := hsound.sleepsUntil_iff.mp hsleeps
  rw [hsound'.sleepsUntil_iff, ← h.mem_iff hsound.lists he]
  constructor
  · rintro ⟨a, ha, hd, ht⟩
    -- a new sleeper is another thread, and an old one is the same entry
    by_contra hgone
    rcases h.sleepers_cases hsound.lists with ⟨⟨d, u, rfl⟩, -⟩ | ⟨⟨p, rfl⟩, -⟩
    · exact hgone (List.mem_append_left _ he)
    · obtain rfl := hsound.lists.eq_of_thread (List.mem_of_mem_filter ha) he ht
      exact hgone ha
  · exact fun he' => ⟨e, he', rfl, rfl⟩

/-- A thread whose sleep a step has ended sleeps no more. -/
theorem Effect.not_isSleeping (h : s.Effect naps step answer s' naps') (hsound : s.Sound L [] naps)
    (hsound' : s'.Sound L [] naps') (hsleeps : s.SleepsUntil deadline t)
    (hends : h.moment.Ends deadline t) :
    s'.isSleeping t = false ∧ s'.sleepers.contains t = false := by
  obtain ⟨e, he, rfl, rfl⟩ := hsound.sleepsUntil_iff.mp hsleeps
  have hgone : e ∉ naps' := fun he' => (h.mem_iff hsound.lists he).mp he' hends
  have hnone : e.thread ∉ naps'.map (·.thread) := by
    rintro hmem
    obtain ⟨a, ha, ht⟩ := List.mem_map.mp hmem
    rcases h.sleepers_cases hsound.lists with ⟨⟨d, u, rfl⟩, -⟩ | ⟨⟨p, rfl⟩, -⟩
    · exact hgone (List.mem_append_left _ he)
    · exact hgone (hsound.lists.eq_of_thread (List.mem_of_mem_filter ha) he ht ▸ ha)
  refine ⟨?_, ?_⟩
  · rw [← Bool.not_eq_true, hsound'.isSleeping_iff]
    exact hnone
  · rw [← Bool.not_eq_true, hsound'.lists.contains_iff]
    exact hnone

/-- Who has fallen asleep sleeps until the deadline that was asked for. -/
theorem Effect.sleepsUntil (h : s.Effect naps (.call (.beginSleep deadline)) answer s' naps')
    (hsound' : s'.Sound L [] naps') (hslept : answer.sleeper? = some t) :
    s'.SleepsUntil deadline t := by
  cases h with
  | dozed =>
    obtain rfl := Option.some.inj hslept
    exact hsound'.sleepsUntil_iff.mpr
      ⟨_, List.mem_append_right _ List.mem_cons_self, rfl, rfl⟩
  | refused => cases hslept

theorem Effect.ends_of_due {now : Nat} (h : s.Effect naps (.call (.tick now true)) answer s' naps')
    (hdue : deadline ≤ now) (t : ThreadId) : h.moment.Ends deadline t := by
  cases h with
  | pulse => exact hdue

omit [Policy π] in
/-- Who sleeps does not change with a switch. -/
@[simp] theorem switched_isSleeping (s : Scheduler π) (plan? : Option SwitchPlan) (t : ThreadId) :
    (s.switched plan?).isSleeping t = s.isSleeping t := by
  cases plan? with
  | none => rfl
  | some plan =>
    simp [isSleeping, ThreadTable.hasTag, switched, ThreadTable.switched]

end Scheduler

/-! ### What a stage does to a sleeper -/

namespace Deed

/-- The step that was taken in the stage, and its answer. -/
def taken? : Deed → Option (SchedulerStep × StepAnswer)
  | .acted step answer => some (step, answer)
  | .consulted step answer => some (step, answer)
  | _ => none

/-- The thread fell asleep until the deadline. -/
def FallsAsleep (d : Deed) (deadline : Nat) (t : ThreadId) : Prop :=
  ∃ answer, d.taken? = some (.call (.beginSleep deadline), answer) ∧ answer.sleeper? = some t

/-- A request took the thread out of the sleep queue, in which it was with this deadline. -/
def Withdraws (d : Deed) (deadline : Nat) (t : ThreadId) : Prop :=
  d.taken? = some (.call (.serve (.cancelSleep deadline)), .served (.woken (some t))) ∨
    d.taken? = some (.call (.serve (.cancelThreadSleep t)), .served (.removed (some deadline)))

/-- A pulse after boot, which read this time. -/
def IsPulseAt (d : Deed) (now : Nat) : Prop :=
  ∃ answer, d.taken? = some (.call (.tick now true), answer)

end Deed

section

variable {π : Type} [Policy π] {m m' start : Machine π} {deed : Deed} {deadline now : Nat}
  {t : ThreadId} {step : SchedulerStep} {answer : StepAnswer} {s' : Scheduler π}
  {L : Layout Unit Unit} {naps naps' : List Sleeper}

omit [Policy π] in
/-- A sleep is ended by a pulse that finds it due or by a request. -/
theorem Deed.cases_of_ends {mo : Moment π} (htaken : deed.taken? = some (mo.step, mo.answer))
    (h : mo.Ends deadline t) :
    (∃ now, deed.IsPulseAt now ∧ deadline ≤ now) ∨ deed.Withdraws deadline t := by
  unfold Moment.Ends at h
  split at h
  · rename_i now outcome hstep hanswer
    rw [hstep, hanswer] at htaken
    exact Or.inl ⟨now, ⟨_, htaken⟩, h⟩
  · rename_i hstep hanswer
    obtain ⟨rfl, rfl⟩ := h
    rw [hstep, hanswer] at htaken
    exact Or.inr (Or.inl htaken)
  · rename_i hstep hanswer
    obtain ⟨rfl, rfl⟩ := h
    rw [hstep, hanswer] at htaken
    exact Or.inr (Or.inr htaken)
  · exact h.elim

namespace Machine.Goes

/-- A stage with a step leaves the scheduler as the step did, but for a switch. -/
theorem takes (h : m.Goes deed m') (hsound : m.Sound)
    (htaken : deed.taken? = some (step, answer)) :
    ∃ s' L naps naps' plan?, m.Takes step answer s' L naps naps' ∧
      m'.scheduler = s'.switched plan? := by
  cases h with
  | acted hact hfits =>
    obtain ⟨rfl, rfl⟩ := Prod.mk.inj (Option.some.inj htaken)
    obtain ⟨s', L, naps, naps', htakes, rfl⟩ := hsound.of_act hact
    exact ⟨s', L, naps, naps', _, htakes, rfl⟩
  | consulted henter =>
    obtain ⟨rfl, rfl⟩ := Prod.mk.inj (Option.some.inj htaken)
    obtain ⟨L, naps, naps', htakes, -⟩ := hsound.of_enter henter
    exact ⟨_, L, naps, naps', none, htakes, rfl⟩
  | governed | aside => cases htaken

/-- A stage without a step leaves the threads and the sleepers as they were. -/
theorem of_not_taken (h : m.Goes deed m') (htaken : deed.taken? = none) :
    m'.scheduler.threads = m.scheduler.threads ∧ m'.scheduler.sleepers = m.scheduler.sleepers := by
  cases h with
  | acted | consulted => cases htaken
  | governed change => exact ⟨rfl, rfl⟩
  | aside hpasses => exact ⟨by rw [hpasses.scheduler], by rw [hpasses.scheduler]⟩

end Machine.Goes

omit [Policy π] in
theorem Scheduler.SleepsUntil.switched (h : s'.SleepsUntil deadline t) (plan? : Option SwitchPlan) :
    (s'.switched plan?).SleepsUntil deadline t :=
  ⟨by simpa using h.asleep, by simpa using h.queued⟩

namespace Machine.Goes

/-- Who falls asleep in a stage sleeps after it. -/
theorem fallsAsleep (h : m.Goes deed m') (hsound : m.Sound)
    (hfalls : deed.FallsAsleep deadline t) : m'.scheduler.SleepsUntil deadline t := by
  obtain ⟨answer, htaken, hslept⟩ := hfalls
  obtain ⟨s', L, naps, naps', plan?, htakes, heq⟩ := h.takes hsound htaken
  rw [heq]
  exact (htakes.effect.sleepsUntil htakes.sound' hslept).switched plan?

/-- Who sleeps before a stage sleeps after it, unless a pulse finds the sleep due or a request ends
it. -/
theorem sleepsUntil (h : m.Goes deed m') (hsound : m.Sound)
    (hsleeps : m.scheduler.SleepsUntil deadline t)
    (hearly : ∀ now, deed.IsPulseAt now → now < deadline) (hkept : ¬ deed.Withdraws deadline t) :
    m'.scheduler.SleepsUntil deadline t := by
  cases htaken : deed.taken? with
  | none =>
    obtain ⟨hthreads, hsleepers⟩ := h.of_not_taken htaken
    refine ⟨?_, ?_⟩
    · rw [Scheduler.isSleeping, hthreads]
      exact hsleeps.asleep
    · rw [hsleepers]
      exact hsleeps.queued
  | some taken =>
    obtain ⟨s', L, naps, naps', plan?, htakes, heq⟩ := h.takes hsound htaken
    rw [heq]
    refine Scheduler.SleepsUntil.switched ?_ plan?
    refine (htakes.effect.sleepsUntil_iff htakes.sound htakes.sound' hsleeps).mpr fun hends => ?_
    rcases Deed.cases_of_ends htaken hends with ⟨now, hpulse, hdue⟩ | hwithdraws
    · exact absurd (hearly now hpulse) (Nat.not_lt.mpr hdue)
    · exact hkept hwithdraws

/-- A pulse that finds a sleep due ends it. -/
theorem not_isSleeping (h : m.Goes deed m') (hsound : m.Sound)
    (hsleeps : m.scheduler.SleepsUntil deadline t) (hpulse : deed.IsPulseAt now)
    (hdue : deadline ≤ now) :
    m'.scheduler.isSleeping t = false ∧ m'.scheduler.sleepers.contains t = false := by
  obtain ⟨answer, htaken⟩ := hpulse
  obtain ⟨s', L, naps, naps', plan?, htakes, heq⟩ := h.takes hsound htaken
  rw [heq, Scheduler.switched_isSleeping, Scheduler.switched_sleepers]
  exact htakes.effect.not_isSleeping htakes.sound htakes.sound' hsleeps
    (htakes.effect.ends_of_due hdue t)

end Machine.Goes

/-- Who sleeps at the start of a journey sleeps after each of its stages, if no pulse finds the
sleep due and no request ends it. -/
theorem Journey.sleepsUntil {stages : List (Stage π)} (h : Journey start stages m)
    (hsound : start.Sound) (hsleeps : start.scheduler.SleepsUntil deadline t)
    (hearly : ∀ c ∈ stages, ∀ now, c.deed.IsPulseAt now → now < deadline)
    (hkept : ∀ c ∈ stages, ¬ c.deed.Withdraws deadline t) :
    m.scheduler.SleepsUntil deadline t ∧
      ∀ c ∈ stages, c.after.scheduler.SleepsUntil deadline t := by
  induction h with
  | start => exact ⟨hsleeps, by simp⟩
  | stage hjourney hgoes ih =>
    obtain ⟨hearly, hearly'⟩ := List.forall_mem_append.mp hearly
    obtain ⟨hkept, hkept'⟩ := List.forall_mem_append.mp hkept
    obtain ⟨hbefore, hpast⟩ := ih hearly hkept
    have hafter := hgoes.sleepsUntil (hjourney.sound hsound) hbefore
      (hearly' _ List.mem_cons_self) (hkept' _ List.mem_cons_self)
    exact ⟨hafter, List.forall_mem_append.mpr ⟨hpast, by simpa using hafter⟩⟩

/-! ### The deadline that a sleep asks for -/

/-- The computation has the running thread fall asleep until the deadline: this is the first thing
that the scheduler is asked for, and the computation is refused exactly if this is. -/
def Machine.QueuesUntil (m : Machine π) (x : MachineM π (Except Refusal Unit)) (deadline : Nat) :
    Prop :=
  ∃ first stage rest outcome, Journey m (first ++ stage :: rest) (x m).2 ∧
    (∀ c ∈ first ++ stage :: rest, c.deed.isService = true) ∧ (∀ c ∈ first, c.deed = .aside) ∧
    stage.deed = .acted (.call (.beginSleep deadline)) (.slept outcome) ∧
    ∀ refusal, (x m).1 = .ok (.error refusal) ↔ outcome = .error refusal

namespace Machine

theorem QueuesUntil.of_passes {x y : MachineM π (Except Refusal Unit)}
    (h : m'.QueuesUntil y deadline) (hpasses : m.Passes m') (hx : x m = y m') :
    m.QueuesUntil x deadline := by
  obtain ⟨first, stage, rest, outcome, hjourney, hservice, haside, hdeed, hrefused⟩ := h
  refine ⟨⟨m, .aside, m'⟩ :: first, stage, rest, outcome, ?_, ?_, ?_, hdeed, ?_⟩
  · rw [hx]
    exact (Journey.of_goes (.aside hpasses)).trans hjourney
  · exact List.forall_mem_cons.mpr ⟨rfl, hservice⟩
  · exact List.forall_mem_cons.mpr ⟨rfl, haside⟩
  · rw [hx]
    exact hrefused

theorem queuesUntil_sleepUntil (hsound : m.Sound) (deadline : Nat)
    {interludes : List (MachineM π (List Reply))} (hbuilt : ∀ x ∈ interludes, MachineM.Built x) :
    m.QueuesUntil (MachineM.sleepUntil deadline interludes) deadline := by
  have hguarded := Passes.guarded m
  obtain ⟨outcome, asleep, hfall, hgoes⟩ := MachineM.goes_of_act
    (MachineM.act_beginSleep deadline) (hguarded.sound hsound) trivial
  obtain ⟨⟨rest, hrest, hservice⟩, -⟩ :=
    (MachineM.sleepOn_built hbuilt outcome).travels asleep (hgoes.sound (hguarded.sound hsound))
  have hreleased := Passes.released (MachineM.sleepOn interludes outcome asleep).2
    (InterruptGuard.acquire m.board).1
  have hrun : MachineM.sleepUntil deadline interludes m =
      ((MachineM.sleepOn interludes outcome asleep).1,
        (MachineM.sleepOn interludes outcome asleep).2.released
          (InterruptGuard.acquire m.board).1) := by
    rw [MachineM.sleepUntil_eq, MachineM.masked_apply, MachineM.bind_of_ok _ hfall]
  have hjourney := (Journey.of_goes (.aside hguarded)).trans
    ((Journey.of_goes hgoes).trans (hrest.stage (.aside hreleased)))
  rw [QueuesUntil, hrun]
  refine ⟨[⟨m, .aside, m.guarded⟩], ⟨m.guarded, _, asleep⟩, _, outcome, hjourney, ?_, by simp, rfl,
    fun refusal => MachineM.sleepOn_eq_refused⟩
  simpa [Deed.isService, or_imp, forall_and] using hservice

theorem queuesUntil_sleepFor (hsound : m.Sound) (delay : Span)
    {interludes : List (MachineM π (List Reply))} (hbuilt : ∀ x ∈ interludes, MachineM.Built x) :
    m.QueuesUntil (MachineM.sleepFor delay interludes)
      (min (m.board.now + delay.nanos) (UInt64.size - 1)) := by
  rw [← lastInstant, ← deadlineAfter_eq]
  have hread : m.Passes { m with board := m.board.record .clockRead } :=
    .of_entry (e := m.board.entry .clockRead) rfl rfl rfl
  exact (queuesUntil_sleepUntil (hread.sound hsound) _ hbuilt).of_passes hread rfl

end Machine

/-! ### On time -/

/-- In every run since boot, whatever the policy answers: a sleep asks for the deadline that it is
given, or for the end of its span on the board's clock; a thread that fell asleep sleeps until the
deadline that it asked for, as long as every pulse after boot reads an earlier time and no request
takes it out; and a pulse that reads the deadline or a later time ends the sleep. Every step can be
taken, and every action goes on with the run. -/
theorem Journey.wakes_on_time {settings : Settings} {policy : π} {handoff : QueueId} {board : Board}
    (hboot : Machine.boot settings policy handoff board = .ok start) {stages : List (Stage π)}
    (h : Journey start stages m) :
    (∀ deadline (during : List (List (Action π))),
      m.QueuesUntil (MachineM.sleepUntil deadline (Action.interludes during)) deadline) ∧
    (∀ delay (during : List (List (Action π))),
      m.QueuesUntil (MachineM.sleepFor delay (Action.interludes during))
        (min (m.board.now + delay.nanos) (UInt64.size - 1))) ∧
    (∀ earlier stage later deadline t, stages = earlier ++ stage :: later →
      stage.deed.FallsAsleep deadline t →
      (∀ c ∈ later, ∀ now, c.deed.IsPulseAt now → now < deadline) →
      (∀ c ∈ later, ¬ c.deed.Withdraws deadline t) →
      (∀ c ∈ stage :: later, c.after.scheduler.SleepsUntil deadline t) ∧
      ∀ deed m' now, m.Goes deed m' → deed.IsPulseAt now → deadline ≤ now →
        m'.scheduler.isSleeping t = false ∧ m'.scheduler.sleepers.contains t = false) ∧
    (∀ step, (step.Fits m.board → ∃ answer m', m.Goes (.acted step answer) m') ∧
      ∃ answer m', m.Goes (.consulted step answer) m') ∧
    ∀ actions, ∃ later, Journey start (stages ++ later) (m.performAll actions) := by
  have hstart := Machine.sound_boot hboot
  have hsound := h.sound hstart
  refine ⟨fun deadline during => Machine.queuesUntil_sleepUntil hsound deadline
      (Action.interludes_built during),
    fun delay during => Machine.queuesUntil_sleepFor hsound delay (Action.interludes_built during),
    ?_, fun step => ⟨hsound.goes_acted, hsound.goes_consulted step⟩, fun actions => ?_⟩
  · intro earlier stage later deadline t hstages hfalls hearly hkept
    obtain ⟨before, hpast, hrest⟩ := h.split hstages
    obtain ⟨rfl, hgoes, hlater⟩ := hrest.split_cons
    have hfell := hgoes.fallsAsleep (hpast.sound hstart) hfalls
    obtain ⟨hsleeps, hthrough⟩ :=
      hlater.sleepsUntil (hgoes.sound (hpast.sound hstart)) hfell hearly hkept
    exact ⟨List.forall_mem_cons.mpr ⟨hfell, hthrough⟩,
      fun deed m' now hpulse hat hdue => hpulse.not_isSleeping hsound hsleeps hat hdue⟩
  · obtain ⟨later, hlater, -⟩ := Machine.serves_performAll actions hsound
    exact ⟨later, h.trans hlater⟩

end

/-- The first thread sleeps until 9 and the second one until 5. A pulse that reads 5 leaves the
first one asleep, and one that reads 9 wakes it. -/
theorem Journey.wakes_on_time_two_sleepers :
    ∃ (start m : Machine Fifo) (earlier later : List (Stage Fifo)) (stage : Stage Fifo),
      Machine.boot { maxThreads := 2, sleepSlots := 2 } ⟨[⟨1⟩], ⟨0⟩⟩ ⟨1⟩ { now := 9 } = .ok start ∧
      Journey start (earlier ++ stage :: later) m ∧ stage.deed.FallsAsleep 9 ⟨0⟩ ∧
      (∃ c ∈ later, c.deed.IsPulseAt 5) ∧
      (∀ c ∈ stage :: later, c.after.scheduler.SleepsUntil 9 ⟨0⟩) ∧
      ∃ deed m', m.Goes deed m' ∧ deed.IsPulseAt 9 ∧ m'.scheduler.isSleeping ⟨0⟩ = false := by
  obtain ⟨start, hboot, hslept⟩ := Machine.exists_boot
    { maxThreads := 2, sleepSlots := 2 } (⟨[⟨1⟩], ⟨0⟩⟩ : Fifo) ⟨1⟩ { now := 9 }
    (f := fun m => ((do
      let _ ← MachineM.act (.call (.serve (.register {})))
      let _ ← MachineM.act (.call (.serve (.register {})))
      MachineM.act (.call (.beginSleep 9))) : MachineM Fifo StepAnswer) m |>.1.map (·.sleeper?))
    (a := .ok (some ⟨0⟩)) (by decide +kernel)
  obtain ⟨a₁, s₁, _, _, _, htakes₁, hact₁⟩ :=
    (Machine.sound_boot hboot).act (.call (.serve (.register {})))
  obtain ⟨a₂, s₂, _, _, _, htakes₂, hact₂⟩ :=
    htakes₁.acted_sound.act (.call (.serve (.register {})))
  obtain ⟨a₃, s₃, _, _, _, htakes₃, hact₃⟩ := htakes₂.acted_sound.act (.call (.beginSleep 9))
  obtain ⟨a₄, s₄, _, _, _, htakes₄, hact₄⟩ := htakes₃.acted_sound.act (.call (.beginSleep 5))
  rw [MachineM.bind_of_ok _ hact₁, MachineM.bind_of_ok _ hact₂, hact₃] at hslept
  obtain ⟨a₅, m₅, hpulse⟩ := htakes₄.acted_sound.goes_consulted (.call (.tick 5 true))
  have hjourney := ((((Journey.of_goes (.acted hact₁ trivial)).stage (.acted hact₂ trivial)).stage
    (.acted hact₃ trivial)).stage (.acted hact₄ trivial)).stage hpulse
  obtain ⟨-, -, hontime, hcan, -⟩ := hjourney.wakes_on_time hboot
  obtain ⟨answer, m', hlast⟩ := (hcan (.call (.tick 9 true))).2
  obtain ⟨hsleeps, hwakes⟩ := hontime [_, _] _ [_, _] 9 ⟨0⟩ rfl
    ⟨a₃, rfl, Except.ok.inj hslept⟩ (by simp [Deed.IsPulseAt, Deed.taken?])
    (by simp [Deed.Withdraws, Deed.taken?])
  exact ⟨start, m₅, [_, _], [_, _], _, hboot, hjourney, ⟨a₃, rfl, Except.ok.inj hslept⟩,
    ⟨_, List.mem_cons_of_mem _ List.mem_cons_self, ⟨a₅, rfl⟩⟩, hsleeps, _, m', hlast,
    ⟨answer, rfl⟩, (hwakes _ _ 9 hlast ⟨answer, rfl⟩ le_rfl).1⟩

end PulseKernel
