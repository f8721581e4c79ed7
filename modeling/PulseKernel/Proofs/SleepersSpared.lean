/-
# A sleeper is never resumed

With a line as the policy, a thread that sleeps gets the processor from nobody. Every
switch that is planned, by a thread that falls asleep, by a pulse or by a sleeper that
waits on the processor, goes to the first thread in line, which is awake
(`Moment.PlansWell`). So from the moment a thread has fallen asleep until its sleep is
ended, no switch to it is planned (`Scheduler.Course.spares_sleepers`).

What carries this is the line: in it stand threads that no structure owns, each once,
and not the one that runs (`Fifo.Orderly`). It stays so if no thread is released that
the line knows, and if only threads are admitted to it that were registered and not
admitted since.

Key definitions: `Fifo.Orderly`, `Scheduler.Course`, `Scheduler.Rested`,
`Fifo.Tended`, `Moment.PlansWell`.
Key theorems: `Fifo.Orderly.joinedBy`, `Fifo.Orderly.turned`,
`Scheduler.Effect.tended`, `Scheduler.Effect.plansWell`,
`Scheduler.Course.spares_sleepers`.
-/
import PulseKernel.Proofs.ProcessorHolder
import PulseKernel.Proofs.StepEffect

namespace PulseKernel

/-! ### The line -/

namespace Fifo

variable {p : Fifo} {table table' : ThreadTable} {t : ThreadId}

/-- In line stand threads that no structure owns, each once, and a registered thread runs that is
not one of them. -/
structure Orderly (p : Fifo) (table : ThreadTable) : Prop where
  nodup : (p.running :: p.ready).Nodup
  free : ∀ t ∈ p.ready, table.tag t = .ok .unqueued
  registered : table.contains p.running = true

theorem head?_of_busy (h : (Policy.hasOtherRunnable p).1 = true) :
    p.ready.head? = some p.advance.running := by
  obtain ⟨ready, running⟩ := p
  cases ready with
  | nil => cases h
  | cons first rest => rfl

/-- Who gets the processor from another thread stood first in line. -/
theorem head?_of_advance_ne (h : p.advance.running ≠ p.running) :
    p.ready.head? = some p.advance.running := by
  obtain ⟨ready, running⟩ := p
  cases ready with
  | nil => exact absurd rfl h
  | cons first rest => rfl

theorem head?_of_turned_ne {awake : ThreadId → Bool} (h : (p.turned awake).running ≠ p.running) :
    p.ready.head? = some (p.turned awake).running := by
  obtain ⟨ready, running⟩ := p
  unfold Fifo.turned at h ⊢
  cases ready with
  | nil => cases hawake : awake running <;> simp [hawake, Fifo.push, Fifo.advance] at h
  | cons first rest => cases awake running <;> rfl

namespace Orderly

/-- A thread that nobody owns and the line does not know goes to the end of the line. -/
theorem push (h : p.Orderly table) (hg : table.tag t = .ok .unqueued)
    (ht : t ∉ p.running :: p.ready) : (p.push t).Orderly table := by
  refine ⟨?_, fun u hu => ?_, h.registered⟩
  · have hsnoc : ((p.running :: p.ready) ++ [t]).Nodup :=
      List.nodup_append.mpr ⟨h.nodup, List.nodup_singleton t, fun a ha b hb => by
        obtain rfl := List.mem_singleton.mp hb
        rintro rfl
        exact ht ha⟩
    exact hsnoc
  · rcases List.mem_append.mp hu with hu | hu
    · exact h.free u hu
    · obtain rfl := List.mem_singleton.mp hu
      exact hg

theorem advance (h : p.Orderly table) : p.advance.Orderly table := by
  obtain ⟨ready, running⟩ := p
  cases ready with
  | nil => exact h
  | cons first rest =>
    refine ⟨h.nodup.of_cons, fun t ht => h.free t (List.mem_cons_of_mem _ ht), ?_⟩
    exact ThreadTable.contains_iff.mpr ⟨_, h.free first List.mem_cons_self⟩

/-- Sleepers are freed, and those that do not run join the line. -/
theorem joinedBy (h : p.Orderly table) {woken : List ThreadId} (hnodup : woken.Nodup)
    (hasleep : ∀ t ∈ woken, table.tag t = .ok .asleep) :
    (p.joinedBy woken).Orderly (table.freed woken) := by
  refine ⟨?_, fun u hu => ?_, ?_⟩
  · have hjoined : ((p.running :: p.ready) ++ woken.filter fun t => t ≠ p.running).Nodup := by
      refine List.nodup_append.mpr ⟨h.nodup, hnodup.filter _, ?_⟩
      rintro a ha b hb rfl
      obtain ⟨hwoken, hother⟩ := List.mem_filter.mp hb
      rcases List.mem_cons.mp ha with rfl | ha
      · simp at hother
      · have hg := hasleep a hwoken
        rw [h.free a ha] at hg
        cases hg
    exact hjoined
  · rw [ThreadTable.tag_freed_eq_unqueued]
    rcases List.mem_append.mp hu with hu | hu
    · exact Or.inl (h.free u hu)
    · have hwoken := List.mem_of_mem_filter hu
      exact Or.inr ⟨hwoken, ThreadTable.contains_iff.mpr ⟨_, hasleep u hwoken⟩⟩
  · exact (table.contains_freed woken p.running).trans h.registered

/-- The running thread goes to the end of the line if it is awake, and the first gets the
processor. -/
theorem turned (h : p.Orderly table) {awake : ThreadId → Bool}
    (hawake : ∀ t, awake t = true → table.tag t = .ok .unqueued) :
    (p.turned awake).Orderly table := by
  cases hrunning : awake p.running with
  | false =>
    have hturned : p.turned awake = p.advance := by simp [Fifo.turned, hrunning]
    rw [hturned]
    exact h.advance
  | true =>
    have hturned : p.turned awake = (p.push p.running).advance := by simp [Fifo.turned, hrunning]
    rw [hturned]
    obtain ⟨ready, running⟩ := p
    cases ready with
    | nil => exact h
    | cons first rest =>
      refine ⟨?_, fun t ht => ?_, ?_⟩
      · have hperm : ((first :: rest) ++ [running]).Perm (running :: first :: rest) :=
          List.perm_append_singleton running (first :: rest)
        exact hperm.nodup_iff.mpr h.nodup
      · rcases List.mem_append.mp ht with ht | ht
        · exact h.free t (List.mem_cons_of_mem _ ht)
        · obtain rfl := List.mem_singleton.mp ht
          exact hawake _ hrunning
      · exact ThreadTable.contains_iff.mpr ⟨_, h.free first List.mem_cons_self⟩

end Orderly

/-- The line is orderly, and the fresh threads, which may be admitted to it, are free and not known
to it. -/
structure Tended (p : Fifo) (table : ThreadTable) (fresh : List ThreadId) : Prop where
  line : p.Orderly table
  fresh : ∀ t ∈ fresh, table.tag t = .ok .unqueued ∧ t ∉ p.running :: p.ready

namespace Tended

variable {fresh : List ThreadId}

theorem mono (h : p.Tended table fresh) {fresh' : List ThreadId} (hsub : ∀ t ∈ fresh', t ∈ fresh) :
    p.Tended table fresh' :=
  ⟨h.line, fun t ht => h.fresh t (hsub t ht)⟩

/-- The threads in line and the fresh ones only have to stay free. -/
theorem congr (h : p.Tended table fresh)
    (htag : ∀ t, t ∈ p.ready ∨ t ∈ fresh →
      table.tag t = .ok .unqueued → table'.tag t = .ok .unqueued)
    (hrunning : table'.contains p.running = true) : p.Tended table' fresh :=
  ⟨⟨h.line.nodup, fun t ht => htag t (Or.inl ht) (h.line.free t ht), hrunning⟩,
    fun t ht => ⟨htag t (Or.inr ht) (h.fresh t ht).1, (h.fresh t ht).2⟩⟩

/-- A fresh thread is admitted. -/
theorem push (h : p.Tended table fresh) (ht : t ∈ fresh) :
    (p.push t).Tended table (fresh.filter (· ≠ t)) := by
  obtain ⟨hg, hnew⟩ := h.fresh t ht
  refine ⟨h.line.push hg hnew, fun u hu => ?_⟩
  obtain ⟨hfresh, hut⟩ := List.mem_filter.mp hu
  obtain ⟨hgu, hnewu⟩ := h.fresh u hfresh
  refine ⟨hgu, ?_⟩
  simp only [Fifo.push, List.mem_cons, List.mem_append, List.not_mem_nil, or_false] at hnewu ⊢
  have hut' : u ≠ t := of_decide_eq_true hut
  tauto

theorem advance (h : p.Tended table fresh) : p.advance.Tended table fresh :=
  ⟨h.line.advance, fun t ht =>
    ⟨(h.fresh t ht).1, fun hmem => (h.fresh t ht).2 (mem_of_mem_advance hmem)⟩⟩

theorem turned (h : p.Tended table fresh) {awake : ThreadId → Bool}
    (hawake : ∀ t, awake t = true → table.tag t = .ok .unqueued) :
    (p.turned awake).Tended table fresh :=
  ⟨h.line.turned hawake, fun t ht =>
    ⟨(h.fresh t ht).1, fun hmem => (h.fresh t ht).2 (mem_of_mem_turned hmem)⟩⟩

theorem joinedBy (h : p.Tended table fresh) {woken : List ThreadId} (hnodup : woken.Nodup)
    (hasleep : ∀ t ∈ woken, table.tag t = .ok .asleep) :
    (p.joinedBy woken).Tended (table.freed woken) fresh := by
  refine ⟨h.line.joinedBy hnodup hasleep, fun t ht => ?_⟩
  obtain ⟨hg, hnew⟩ := h.fresh t ht
  refine ⟨(ThreadTable.tag_freed_eq_unqueued table woken t).mpr (Or.inl hg), fun hmem => ?_⟩
  rcases List.mem_cons.mp hmem with rfl | hmem
  · exact hnew List.mem_cons_self
  · rcases List.mem_append.mp hmem with hmem | hmem
    · exact hnew (List.mem_cons_of_mem _ hmem)
    · have hasleep := hasleep t (List.mem_of_mem_filter hmem)
      rw [hg] at hasleep
      cases hasleep

/-- A thread that gets a slot is a fresh one. -/
theorem register (h : p.Tended table fresh) {context : SavedContext}
    (hroom : table.register context = (.ok t, table')) : p.Tended table' (t :: fresh) := by
  obtain ⟨hvacant, -⟩ := ThreadTable.tag_register hroom t
  have hnew : t ∉ p.running :: p.ready := by
    intro hmem
    have hcontains : table.contains t = true := by
      rcases List.mem_cons.mp hmem with rfl | hmem
      · exact h.line.registered
      · exact ThreadTable.contains_iff.mpr ⟨_, h.line.free t hmem⟩
    rw [hcontains] at hvacant
    cases hvacant
  have htag : ∀ u g, table.tag u = .ok g → u ≠ t → table'.tag u = .ok g := fun u g hg hut =>
    ((ThreadTable.tag_register hroom u).2.trans (if_neg hut)).trans hg
  have hself : table'.tag t = .ok .unqueued :=
    (ThreadTable.tag_register hroom t).2.trans (if_pos rfl)
  have hkept : p.Tended table' fresh := by
    refine h.congr (fun u _ hg => ?_) ?_
    · by_cases hut : u = t
      · rw [hut, hself]
      · exact htag u _ hg hut
    · obtain ⟨g, hg⟩ := ThreadTable.contains_iff.mp h.line.registered
      have hother : p.running ≠ t := fun heq => hnew (heq ▸ List.mem_cons_self)
      exact ThreadTable.contains_iff.mpr ⟨g, htag _ g hg hother⟩
  refine ⟨hkept.line, fun u hu => ?_⟩
  rcases List.mem_cons.mp hu with rfl | hu
  · exact ⟨hself, hnew⟩
  · exact hkept.fresh u hu

theorem release (h : p.Tended table fresh) (hfree : table.release t = (.ok (), table'))
    (hunknown : t ∉ p.running :: p.ready) : p.Tended table' (fresh.filter (· ≠ t)) := by
  have htag : ∀ u, u ≠ t → table'.tag u = table.tag u :=
    fun u hu => (ThreadTable.tag_release hfree u).2.2 hu
  have hkept : p.Tended table (fresh.filter (· ≠ t)) := h.mono fun u hu => List.mem_of_mem_filter hu
  refine hkept.congr (fun u hu hg => ?_) ?_
  · have hut : u ≠ t := by
      rcases hu with hu | hu
      · rintro rfl
        exact hunknown (List.mem_cons_of_mem _ hu)
      · exact of_decide_eq_true (List.mem_filter.mp hu).2
    rw [htag u hut, hg]
  · have hother : p.running ≠ t := fun heq => hunknown (heq ▸ List.mem_cons_self)
    exact (ThreadTable.contains_congr (htag _ hother)).trans h.line.registered

/-- The running thread falls asleep. -/
theorem dormant (h : p.Tended table fresh) (hg : table.tag p.running = .ok .unqueued) :
    p.Tended (table.touch (some p.running) Slot.dormant) fresh := by
  refine h.congr (fun u hu hgu => ?_) ?_
  · have hother : p.running ≠ u := by
      rintro rfl
      rcases hu with hu | hu
      · exact (List.nodup_cons.mp h.line.nodup).1 hu
      · exact (h.fresh _ hu).2 List.mem_cons_self
    rw [ThreadTable.tag_touch_dormant hg, if_neg hother, hgu]
  · exact (ThreadTable.contains_touch_dormant hg _).trans h.line.registered

theorem freed (h : p.Tended table fresh) (ts : List ThreadId) : p.Tended (table.freed ts) fresh :=
  h.congr (fun u _ hg => (ThreadTable.tag_freed_eq_unqueued _ _ u).mpr (Or.inl hg))
    ((table.contains_freed _ _).trans h.line.registered)

end Tended
end Fifo

theorem ThreadTable.tag_setContext {table table' : ThreadTable} {t : ThreadId}
    {context : SavedContext} (h : table.setContext t context = .ok table') (u : ThreadId) :
    table'.tag u = table.tag u := by
  obtain rfl := ThreadTable.setContext_eq_ok h
  simp

/-! ### Plans -/

theorem SwitchPlan.plan?_eq_some {table : ThreadTable} {source target : ThreadId}
    {plan : SwitchPlan} (h : plan? table source target = some plan) :
    plan = ⟨source, target⟩ ∧ source ≠ target := by
  unfold plan? at h
  split at h
  · rename_i hswitch
    exact ⟨(Option.some.inj h).symm, hswitch.1⟩
  · cases h

/-- The thread that fell asleep, if one did. -/
def StepAnswer.sleeper? : StepAnswer → Option ThreadId
  | .slept (.ok ticket) => some ticket.thread
  | _ => none

namespace Moment

/-- The thread that gives up the processor if a switch is planned: the sleeper that waits, or else
the one that was running. -/
def giver (m : Moment Fifo) : ThreadId :=
  match m.step with
  | .reconsider me => me
  | .call _ => m.before.policy.running

/-- The line from which the next thread is picked. At a pulse the woken threads have joined it. -/
def line (m : Moment Fifo) : List ThreadId :=
  match m.step with
  | .call (.tick now true) =>
    (m.before.policy.joinedBy ((m.before.sleepers.due now).map (·.thread))).ready
  | _ => m.before.policy.ready

/-- The switch is from the thread that gives up the processor to another one, which stood first in
line, is registered and does not sleep. -/
structure PlansWell (m : Moment Fifo) (plan : SwitchPlan) : Prop where
  source : plan.source = m.giver
  differs : plan.source ≠ plan.target
  first : m.line.head? = some plan.target
  registered : m.after.threads.contains plan.target = true
  awake : m.after.sleepers.contains plan.target = false

/-- The thread fell asleep until the deadline. -/
def FallsAsleep (m : Moment Fifo) (deadline : Nat) (t : ThreadId) : Prop :=
  m.step = .call (.beginSleep deadline) ∧ m.answer.sleeper? = some t

/-- No switch to the thread was planned. -/
def Spares (m : Moment Fifo) (t : ThreadId) : Prop :=
  ∀ plan, m.plan? = some plan → plan.target ≠ t

end Moment

namespace Scheduler

/-! ### Courses -/

/-- The step releases no thread that the line knows. -/
def Permits (s : Scheduler Fifo) : SchedulerStep → Prop
  | .call c => s.Spares c
  | .reconsider _ => True

/-- The threads that are registered but were never admitted to the line, after a step. -/
def newcomers (fresh : List ThreadId) : SchedulerStep → StepAnswer → List ThreadId
  | _, .served (.registered (.ok t)) => t :: fresh
  | .call (.serve (.release t)), .served (.released (.ok ())) => fresh.filter (· ≠ t)
  | _, _ => fresh

/-- The steps that were taken since a start, the threads that were registered since and not
admitted, and the scheduler. Between two steps such a thread may be admitted, and contexts are
saved. -/
inductive Course (start : Scheduler Fifo) :
    List (Moment Fifo) → List ThreadId → Scheduler Fifo → Prop
  | start : Course start [] [] start
  | step {past : List (Moment Fifo)} {fresh : List ThreadId} {s s' : Scheduler Fifo}
      {answer : StepAnswer} (step : SchedulerStep) :
      Course start past fresh s → s.Permits step → (s.take step).result = .ok (answer, s') →
      Course start (past ++ [⟨s, step, answer, s'⟩]) (newcomers fresh step answer) s'
  | admission {past : List (Moment Fifo)} {fresh : List ThreadId} {s : Scheduler Fifo}
      {t : ThreadId} :
      Course start past fresh s → t ∈ fresh →
      Course start past (fresh.filter (· ≠ t)) { s with policy := s.policy.push t }
  | save {past : List (Moment Fifo)} {fresh : List ThreadId} {s : Scheduler Fifo}
      {threads : ThreadTable} (t : ThreadId) (context : SavedContext) :
      Course start past fresh s → s.threads.setContext t context = .ok threads →
      Course start past fresh { s with threads := threads }

/-- Nobody sleeps, the running thread is registered, and in line stand other registered threads,
each once. -/
structure Rested (s : Scheduler Fifo) : Prop where
  empty : s.sleepers.isEmpty = true
  running : s.threads.contains s.policy.running = true
  ready : ∀ t ∈ s.policy.ready, s.threads.contains t = true
  nodup : (s.policy.running :: s.policy.ready).Nodup

variable {L : Layout Unit Unit} {s s' start : Scheduler Fifo} {naps naps' : List Sleeper}
  {fresh : List ThreadId} {step : SchedulerStep} {answer : StepAnswer}

theorem Rested.tended (h : s.Rested) (hsound : s.Sound L [] naps) :
    s.policy.Tended s.threads [] := by
  have hnaps : naps = [] := by
    have hempty := h.empty
    rwa [hsound.lists.isEmpty_eq, List.isEmpty_iff] at hempty
  refine ⟨⟨h.nodup, fun t ht => ?_, h.running⟩, by simp⟩
  have hawake : ¬ s.threads.tag t = .ok .asleep := by
    rw [hsound.tag_asleep_iff, hnaps]
    simp
  rw [← hsound.awake_iff, awake, h.ready t ht, isSleeping, Bool.true_and, Bool.not_eq_true',
    ← Bool.not_eq_true, ThreadTable.hasTag_iff]
  exact hawake

theorem newcomers_of_idle (fresh : List ThreadId) (request : Request) {response : Response}
    (hidle : response.acts = false) :
    newcomers fresh (.call (.serve request)) (.served response) = fresh := by
  unfold newcomers
  split
  · rename_i heq
    cases heq
    cases hidle
  · rename_i heq
    cases heq
    cases hidle
  · rfl

/-- At a pulse the woken threads join the line. -/
theorem Sound.joinedBy_due (hsound : s.Sound L [] naps) (h : s.policy.Tended s.threads fresh)
    (now : Nat) :
    (s.policy.joinedBy ((s.sleepers.due now).map (·.thread))).Tended
      (s.threads.freed ((s.sleepers.due now).map (·.thread))) fresh := by
  refine h.joinedBy (hsound.lists.nodup_due now) fun t ht => ?_
  obtain ⟨e, he, rfl⟩ := List.mem_map.mp ht
  exact hsound.tag_of_mem (hsound.lists.mem_due_iff.mp he).1

namespace Effect

/-- Every step that is permitted keeps the line up. -/
theorem tended (heffect : s.Effect naps step answer s' naps') (hsound : s.Sound L [] naps)
    (hsound' : s'.Sound L [] naps') (hpermits : s.Permits step)
    (h : s.policy.Tended s.threads fresh) :
    s'.policy.Tended s'.threads (newcomers fresh step answer) := by
  cases heffect with
  | unchanged hidle =>
    rw [newcomers_of_idle _ _ hidle]
    exact h
  | registered hroom => exact h.register hroom
  | released hfree => exact h.release hfree (hpermits ⟨_, hfree⟩)
  | woken he =>
    have hasleep := hsound.tag_of_mem (List.mem_of_find?_eq_some he)
    rw [Fifo.addAll_others]
    exact h.joinedBy (List.nodup_singleton _) (by simpa using hasleep)
  | removed => exact h.freed _
  | dozed hg => exact (h.dormant hg).advance
  | pulse =>
    rename_i now clock heap hclock
    have hjoined := hsound.joinedBy_due h now
    show Fifo.Tended (s.heard now clock.ticks).policy _ fresh
    rcases s.policy.dialogue_cases ((s.sleepers.due now).map (·.thread))
      (clock.ticks % s.quantum = 0) (s.afterPulse now clock heap).awake with ⟨-, hd⟩ | ⟨-, hd⟩
    · rw [show (s.heard now clock.ticks).policy = _ from hd]
      exact hjoined
    · rw [show (s.heard now clock.ticks).policy = _ from hd]
      exact hjoined.turned fun t ht => hsound'.awake_iff.mp ht
  | handed => exact h.advance
  | refused | resumes | alone | early => exact h

/-- Every switch goes to the first in line, which is awake. -/
theorem plansWell (heffect : s.Effect naps step answer s' naps') (hsound : s.Sound L [] naps)
    (hsound' : s'.Sound L [] naps') (h : s.policy.Tended s.threads fresh) {plan : SwitchPlan}
    (hplan : answer.plan? = some plan) : heffect.moment.PlansWell plan := by
  -- it is enough that the target is free
  suffices hfirst : plan.source = heffect.moment.giver ∧ plan.source ≠ plan.target ∧
      heffect.moment.line.head? = some plan.target ∧ s'.threads.tag plan.target = .ok .unqueued by
    obtain ⟨hsource, hdiffers, hhead, hg⟩ := hfirst
    refine ⟨hsource, hdiffers, hhead, ThreadTable.contains_iff.mpr ⟨_, hg⟩, ?_⟩
    refine Bool.eq_false_iff.mpr fun hcontains => ?_
    rw [hsound'.tag_asleep_iff.mpr (hsound'.lists.contains_iff.mp hcontains)] at hg
    cases hg
  cases heffect with
  | dozed hg =>
    obtain ⟨rfl, hdiffers⟩ := SwitchPlan.plan?_eq_some hplan
    have hhead := Fifo.head?_of_advance_ne hdiffers.symm
    exact ⟨rfl, hdiffers, hhead, (h.dormant hg).line.free _ (List.mem_of_head? hhead)⟩
  | pulse =>
    rename_i now clock heap hclock
    have hjoined := hsound.joinedBy_due h now
    have hrotation : (s.heard now clock.ticks).rotation.bind
        (·.plan? (s.afterPulse now clock heap).threads) = some plan := hplan
    rcases s.policy.dialogue_cases ((s.sleepers.due now).map (·.thread))
      (clock.ticks % s.quantum = 0) (s.afterPulse now clock heap).awake with ⟨hr, -⟩ | ⟨hr, -⟩
    · rw [show (s.heard now clock.ticks).rotation = _ from hr] at hrotation
      cases hrotation
    · rw [show (s.heard now clock.ticks).rotation = _ from hr] at hrotation
      obtain ⟨rfl, hdiffers⟩ := SwitchPlan.plan?_eq_some hrotation
      have hhead := Fifo.head?_of_turned_ne hdiffers.symm
      exact ⟨rfl, hdiffers, hhead, hjoined.line.free _ (List.mem_of_head? hhead)⟩
  | handed hasleep hbusy =>
    rename_i me
    rw [StepAnswer.plan?_decided] at hplan
    obtain ⟨rfl, hdiffers⟩ := SwitchPlan.plan?_eq_some hplan
    have hhead := Fifo.head?_of_busy hbusy
    exact ⟨rfl, hdiffers, hhead, h.line.free _ (List.mem_of_head? hhead)⟩
  | unchanged | registered | released | woken | removed | refused | early | resumes | alone =>
    cases hplan

end Effect

/-! ### What holds along a course -/

/-- The thread sleeps until the deadline. -/
def Sleeps (s : Scheduler Fifo) (deadline : Nat) (t : ThreadId) : Prop :=
  ∃ e ∈ s.sleepers.heap, e.deadline = deadline ∧ e.thread = t

/-- What a course keeps up: the line is tended, plans go to the first in line, and who has fallen
asleep sleeps on and is spared until the sleep is ended. -/
structure Kept (past : List (Moment Fifo)) (fresh : List ThreadId) (s : Scheduler Fifo) : Prop where
  sound : ∃ (L : Layout Unit Unit) (naps : List Sleeper), s.Sound L [] naps
  tended : s.policy.Tended s.threads fresh
  plans : ∀ m ∈ past, ∀ plan, m.plan? = some plan → m.PlansWell plan
  asleep : ∀ earlier m later deadline t, past = earlier ++ m :: later → m.FallsAsleep deadline t →
    (∀ m' ∈ later, ¬ m'.Ends deadline t) → s.Sleeps deadline t ∧ ∀ m' ∈ m :: later, m'.Spares t

/-- A moment that leaves the thread asleep has not planned a switch to it. -/
theorem spares_of_sleeps {m : Moment Fifo} {deadline : Nat} {t : ThreadId}
    (hsound : m.after.Sound L [] naps) (hplans : ∀ plan, m.plan? = some plan → m.PlansWell plan)
    (h : m.after.Sleeps deadline t) : m.Spares t := by
  rintro plan hplan rfl
  obtain ⟨e, he, -, hthread⟩ := h
  have hcontains : m.after.sleepers.contains plan.target = true :=
    hsound.lists.contains_iff.mpr
      (List.mem_map.mpr ⟨e, hsound.lists.mem_heap_iff.mp he, hthread⟩)
  rw [(hplans plan hplan).awake] at hcontains
  cases hcontains

/-- Who has fallen asleep sleeps. -/
theorem Effect.sleeps (heffect : s.Effect naps step answer s' naps') (hsound' : s'.Sound L [] naps')
    {deadline : Nat} {t : ThreadId} (h : heffect.moment.FallsAsleep deadline t) :
    s'.Sleeps deadline t := by
  obtain ⟨hstep, hanswer⟩ := h
  cases heffect with
  | dozed =>
    cases hstep
    obtain rfl := Option.some.inj hanswer
    exact ⟨_, hsound'.lists.mem_heap_iff.mpr (List.mem_append_right _ List.mem_cons_self), rfl, rfl⟩
  | refused => cases hanswer
  | _ => cases hstep

/-- Who sleeps sleeps on if the step does not end it. -/
theorem Effect.sleeps_on (heffect : s.Effect naps step answer s' naps')
    (hsound : s.Sound L [] naps) (hsound' : s'.Sound L [] naps') {deadline : Nat} {t : ThreadId}
    (h : s.Sleeps deadline t) (hends : ¬ heffect.moment.Ends deadline t) :
    s'.Sleeps deadline t := by
  obtain ⟨e, he, rfl, rfl⟩ := h
  have hmem := (heffect.mem_iff hsound.lists (hsound.lists.mem_heap_iff.mp he)).mpr hends
  exact ⟨e, hsound'.lists.mem_heap_iff.mpr hmem, rfl, rfl⟩

theorem Kept.snoc {past : List (Moment Fifo)} (h : Kept past fresh s) (hpermits : s.Permits step)
    (hs : (s.take step).result = .ok (answer, s')) :
    Kept (past ++ [⟨s, step, answer, s'⟩]) (newcomers fresh step answer) s' := by
  obtain ⟨⟨L, naps, hsound⟩, htended, hplans, hasleep⟩ := h
  obtain ⟨naps', heffect, hsound'⟩ := (hsound.take_effect step).of_result hs
  have hwell : ∀ plan, answer.plan? = some plan → heffect.moment.PlansWell plan :=
    fun plan hplan => heffect.plansWell hsound hsound' htended hplan
  refine ⟨⟨L, naps', hsound'⟩, heffect.tended hsound hsound' hpermits htended, ?_, ?_⟩
  · intro m hm
    rcases List.mem_append.mp hm with hm | hm
    · exact hplans m hm
    · obtain rfl := List.mem_singleton.mp hm
      exact hwell
  · intro earlier m later deadline t hpast hfalls hlater
    -- the last step put the thread to sleep, or it is one of those after
    rcases later.eq_nil_or_concat' with rfl | ⟨later, last, rfl⟩
    · obtain ⟨-, rfl⟩ := List.append_singleton_inj.mp hpast
      have hsleeps := heffect.sleeps hsound' hfalls
      refine ⟨hsleeps, fun m' hm' => ?_⟩
      obtain rfl := List.mem_singleton.mp hm'
      exact spares_of_sleeps hsound' hwell hsleeps
    · have hpast' : past ++ [⟨s, step, answer, s'⟩] = (earlier ++ m :: later) ++ [last] := by
        rw [hpast, List.append_assoc, List.cons_append]
      obtain ⟨rfl, rfl⟩ := List.append_singleton_inj.mp hpast'
      obtain ⟨hbefore, hspared⟩ := hasleep earlier m later deadline t rfl hfalls
        fun m' hm' => hlater m' (List.mem_append_left _ hm')
      have hsleeps := heffect.sleeps_on hsound hsound' hbefore
        (hlater _ (List.mem_append_right _ List.mem_cons_self))
      refine ⟨hsleeps, fun m' hm' => ?_⟩
      rw [← List.cons_append] at hm'
      rcases List.mem_append.mp hm' with hm' | hm'
      · exact hspared m' hm'
      · obtain rfl := List.mem_singleton.mp hm'
        exact spares_of_sleeps hsound' hwell hsleeps

theorem Course.kept (hreached : start.Reached) (hrested : start.Rested)
    {past : List (Moment Fifo)} (h : Course start past fresh s) : Kept past fresh s := by
  induction h with
  | start =>
    obtain ⟨L, naps, hsound⟩ := hreached.sound
    exact ⟨⟨L, naps, hsound⟩, hrested.tended hsound, by simp, fun earlier m later _ _ hpast => by
      simp at hpast⟩
  | step step _ hpermits hs ih => exact ih.snoc hpermits hs
  | admission _ ht ih =>
    obtain ⟨⟨L, naps, hsound⟩, htended, hplans, hasleep⟩ := ih
    exact ⟨⟨L, naps, hsound.withPolicy _⟩, htended.push ht, hplans, hasleep⟩
  | save t context _ hs ih =>
    obtain ⟨⟨L, naps, hsound⟩, htended, hplans, hasleep⟩ := ih
    have htag := ThreadTable.tag_setContext hs
    exact ⟨⟨L, naps, hsound.setContext hs⟩, htended.congr (fun u _ hg => (htag u).trans hg)
      ((ThreadTable.contains_congr (htag _)).trans htended.line.registered), hplans, hasleep⟩

/-- From falling asleep on a thread is spared, also by the course that goes on after the sleep has
ended. -/
theorem Course.spared (hreached : start.Reached) (hrested : start.Rested)
    {past : List (Moment Fifo)} (h : Course start past fresh s) :
    ∀ earlier m later rest deadline t, past = earlier ++ m :: (later ++ rest) →
      m.FallsAsleep deadline t → (∀ m' ∈ later, ¬ m'.Ends deadline t) →
      ∀ m' ∈ m :: later, m'.Spares t := by
  induction h with
  | start =>
    intro earlier m later rest deadline t hpast
    simp at hpast
  | step step hcourse hpermits hs ih =>
    intro earlier m later rest deadline t hpast hfalls hlater
    rcases rest.eq_nil_or_concat' with rfl | ⟨rest, last, rfl⟩
    · rw [List.append_nil] at hpast
      have hkept := (Course.step step hcourse hpermits hs).kept hreached hrested
      exact (hkept.asleep earlier m later deadline t hpast hfalls hlater).2
    · rw [← List.append_assoc, ← List.cons_append, ← List.append_assoc] at hpast
      obtain ⟨hpast', -⟩ := List.append_singleton_inj.mp hpast
      exact ih earlier m later rest deadline t hpast' hfalls hlater
  | admission _ _ ih => exact ih
  | save _ _ _ _ ih => exact ih

/-- Every switch goes from the thread that gives up the processor to another one that stood first in
line, is registered and does not sleep; so a thread that has fallen asleep is the target of none
until its sleep is ended. And no step fails. -/
theorem Course.spares_sleepers (hreached : start.Reached) (hrested : start.Rested)
    {past : List (Moment Fifo)} (h : Course start past fresh s) :
    (∀ m ∈ past, ∀ plan, m.plan? = some plan → m.PlansWell plan) ∧
    (∀ earlier m later rest deadline t, past = earlier ++ m :: (later ++ rest) →
      m.FallsAsleep deadline t → (∀ m' ∈ later, ¬ m'.Ends deadline t) →
      ∀ m' ∈ m :: later, m'.Spares t) ∧
    ∀ step, ∃ answer s', (s.take step).result = .ok (answer, s') := by
  obtain ⟨⟨L, naps, hsound⟩, -, hplans, -⟩ := h.kept hreached hrested
  refine ⟨hplans, h.spared hreached hrested, fun step => ?_⟩
  obtain ⟨⟨answer, s'⟩, hs, -⟩ := hsound.take_effect step
  exact ⟨answer, s', hs⟩

/-- The running thread falls asleep, a third thread is registered and admitted, and the first pulse
gives it the processor: two switches, and none to the sleeper. -/
theorem Course.spares_sleepers_three_threads :
    ∃ (start s : Scheduler Fifo) (past : List (Moment Fifo)) (fresh : List ThreadId),
      start.Reached ∧ start.Rested ∧ Course start past fresh s ∧
      past.map (·.plan?) = [some ⟨⟨0⟩, ⟨1⟩⟩, none, some ⟨⟨1⟩, ⟨2⟩⟩] ∧
      (∀ m ∈ past, ∀ plan, m.plan? = some plan → m.PlansWell plan) ∧
      ∀ m ∈ past, m.Spares ⟨0⟩ := by
  have hcheck : ({ maxThreads := 3, quantum := 1 } : Settings).check = .ok () := by decide
  obtain ⟨start, hstart, hreached⟩ := Reached.exists_callAll hcheck (⟨[⟨1⟩], ⟨0⟩⟩ : Fifo) ⟨1⟩
    [.serve (.register {}), .serve (.register {})]
  have hempty := Logged.eq_of_map_result (f := fun s => s.sleepers.isEmpty) (b := true) hstart
    (by decide +kernel)
  have hknown := of_decide_eq_true (Logged.eq_of_map_result
    (f := fun s => decide (s.policy.KnownIn s.threads)) (b := true) hstart (by decide +kernel))
  have hnodup := of_decide_eq_true (Logged.eq_of_map_result
    (f := fun s => decide (s.policy.running :: s.policy.ready).Nodup) (b := true) hstart
    (by decide +kernel))
  have hrested : start.Rested := ⟨hempty, hknown _ List.mem_cons_self,
    fun t ht => hknown t (List.mem_cons_of_mem _ ht), hnodup⟩
  have hend := Logged.eq_of_map_result
    (f := fun s => ((do
      let (a₁, s₁) ← s.take (.call (.beginSleep 50))
      let (a₂, s₂) ← s₁.take (.call (.serve (.register {})))
      let (a₃, s₃) ← ({ s₂ with policy := s₂.policy.push ⟨2⟩ } : Scheduler Fifo).take
        (.call (.tick 8 true))
      let fresh := newcomers (newcomers [] (.call (.beginSleep 50)) a₁)
        (.call (.serve (.register {}))) a₂
      return ([a₁.plan?, a₂.plan?, a₃.plan?], a₁.sleeper?, decide (⟨2⟩ ∈ fresh))) :
      Logged _).result)
    (b := .ok ([some ⟨⟨0⟩, ⟨1⟩⟩, none, some ⟨⟨1⟩, ⟨2⟩⟩], some ⟨0⟩, true)) hstart
    (by decide +kernel)
  obtain ⟨⟨a₁, s₁⟩, hs₁, hend⟩ := Logged.result_bind_eq_ok.mp hend
  obtain ⟨⟨a₂, s₂⟩, hs₂, hend⟩ := Logged.result_bind_eq_ok.mp hend
  obtain ⟨⟨a₃, s₃⟩, hs₃, hend⟩ := Logged.result_bind_eq_ok.mp hend
  simp only [Logged.result_pure, Except.ok.injEq, Prod.mk.injEq] at hend
  obtain ⟨hplans, hsleeper, hfresh⟩ := hend
  have hcourse := ((Course.start.step (.call (.beginSleep 50)) trivial hs₁).step
    (.call (.serve (.register {}))) trivial hs₂).admission (of_decide_eq_true hfresh) |>.step
    (.call (.tick 8 true)) trivial hs₃
  obtain ⟨hwell, hspared, -⟩ := Course.spares_sleepers hreached hrested hcourse
  refine ⟨start, s₃, _, _, hreached, hrested, hcourse, hplans, hwell, ?_⟩
  refine hspared [] _ _ [] 50 ⟨0⟩ rfl ⟨rfl, hsleeper⟩ fun m hm hends => ?_
  -- neither the request nor the pulse ends a sleep until 50
  rcases List.mem_cons.mp hm with rfl | hm
  · exact hends
  · obtain rfl := List.mem_singleton.mp hm
    unfold Moment.Ends at hends
    split at hends
    · rename_i hstep _
      cases hstep
      omega
    · rename_i hstep _
      cases hstep
    · rename_i hstep _
      cases hstep
    · exact hends

end Scheduler
end PulseKernel
