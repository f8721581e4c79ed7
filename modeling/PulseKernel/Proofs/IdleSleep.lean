/-
# Sleeping on the processor

A thread that falls asleep keeps the processor if the policy has nothing else to run.
Then it waits, and after every wait it looks at what has become of it. A wait that is
over and the look that follows it are a spell (`Spell`). In a spell the sleeper stays,
or it goes: it has been woken, or it gives way to another thread. Which of these it is
depends on the machine at the end of the wait alone, and the spell says all that the
look has done (`Machine.Sound.stays_or_goes`).

So a sleep is a list of spells. Whatever happens in the waits, the sleeper stays in every
spell but the last one, and the sleep comes back with the first spell in which it goes
(`MachineM.idle_spells`). If there is none, the sleep halts in a wait that does not end.
No wake-up is missed, and a woken sleeper neither asks the policy nor makes a switch
(`Journey.idle_sleep`).

What the sleeper does itself and what happens to it are told apart by the depth on the
trace (`Machine.ownSince`): everything that happens in a wait is nested in it.

Key definitions: `Machine.ownSince`, `Spell`, `Spell.Stays`, `Spell.Wakes`,
`Spell.GivesWay`, `Spells`, `Idles`.
Key theorems: `MachineM.Tame.wait_did`, `Machine.Sound.stays_or_goes`,
`MachineM.idle_spells`, `Idles.did`, `Journey.idle_sleep`.
-/
import PulseKernel.Proofs.HardwareTrace
import PulseKernel.Proofs.InterruptMasking
import PulseKernel.Proofs.SleepersSpared

namespace PulseKernel

/-- A registered thread has no plan exactly if the other one is itself or is not registered. -/
theorem SwitchPlan.plan?_eq_none_iff {table : ThreadTable} {source target : ThreadId}
    (h : table.contains source = true) :
    plan? table source target = none ↔ target = source ∨ table.contains target = false := by
  unfold plan?
  by_cases hsame : source = target
  · simp [hsame]
  · cases htarget : table.contains target <;> simp [h, hsame, Ne.symm hsame]

namespace Scheduler

variable {π : Type} {L : Layout Unit Unit} {s : Scheduler π} {staged : List ThreadId}
  {naps : List Sleeper}

/-- A thread is in the sleep queue exactly if it is tagged as asleep. -/
theorem Sound.contains_sleepers (h : s.Sound L staged naps) (t : ThreadId) :
    s.sleepers.contains t = s.isSleeping t := by
  rw [Bool.eq_iff_iff, h.lists.contains_iff, h.isSleeping_iff]

theorem contains_of_isSleeping {t : ThreadId} (h : s.isSleeping t = true) :
    s.threads.contains t = true :=
  ThreadTable.contains_iff.mpr ⟨.asleep, ThreadTable.hasTag_iff.mp h⟩

end Scheduler

/-! ### What is done at one depth -/

namespace Machine

variable {π : Type} {m m' m'' : Machine π} {own own' : List Event} {entries : List Entry}

/-- What was done since the machine was as at the start, apart from what is nested in waits. -/
def ownSince (m start : Machine π) : List Event :=
  ((m.entriesSince start).filter (·.nesting = start.board.nesting)).map (·.event)

/-- The trace was added to, and this was done apart from what is nested in waits. -/
structure Did (m : Machine π) (own : List Event) (m' : Machine π) : Prop where
  trace : m'.board.trace = m.board.trace ++ m'.entriesSince m
  own : m'.ownSince m = own

theorem Did.of_trace (h : m'.board.trace = m.board.trace ++ entries)
    (hown : (entries.filter (·.nesting = m.board.nesting)).map (·.event) = own) :
    m.Did own m' := by
  have hsince := entriesSince_of_trace h
  exact ⟨hsince ▸ h, by rw [ownSince, hsince, hown]⟩

theorem Did.of_events (h : m'.board.trace = m.board.trace ++ own.map m.board.entry) :
    m.Did own m' :=
  .of_trace h (by simp [List.filter_map, Board.entry, Function.comp_def])

theorem Did.trans (h : m.Did own m') (hnesting : m'.board.nesting = m.board.nesting)
    (h' : m'.Did own' m'') : m.Did (own ++ own') m'' := by
  have htrace : m''.board.trace =
      m.board.trace ++ (m'.entriesSince m ++ m''.entriesSince m') := by
    rw [h'.trace, h.trace, List.append_assoc]
  refine .of_trace htrace ?_
  rw [List.filter_append, List.map_append, ← h.own, ← h'.own, ownSince, ownSince, hnesting]

end Machine

/-- A wait is one thing done, and all that happens in it is nested deeper. -/
theorem MachineM.Tame.wait_did {π : Type} {interlude : MachineM π (List Reply)}
    (h : MachineM.Tame interlude) (m : Machine π) :
    m.Did [.waiting] (MachineM.wait interlude m).2 ∧
      ∀ a, (MachineM.wait interlude m).1 = .ok a →
        (MachineM.wait interlude m).2.board.nesting = m.board.nesting := by
  obtain ⟨outcome, after, news, hrun, hkeeps⟩ := h m.halted trivial
  have hbegin : interlude m.halted = (outcome, after.since (news ++ m.halted.board.history)) :=
    hrun _
  -- the interlude keeps to its own depth or goes deeper, and that is one below the sleeper's
  have hdeeper : ∀ e ∈ news.reverse, e.nesting ≠ m.board.nesting := by
    intro e he
    have hnested : m.board.nesting + 1 < e.nesting ∨ e.nesting = m.board.nesting + 1 ∧ True :=
      hkeeps.entries e (List.mem_reverse.mp he)
    omega
  have hown : ((m.board.entry .waiting :: news.reverse).filter
      (·.nesting = m.board.nesting)).map (·.event) = [.waiting] := by
    rw [List.filter_cons_of_pos (by simp [Board.entry]),
      List.filter_eq_nil_iff.mpr (by simpa using hdeeper)]
    rfl
  have htrace : (after.since (news ++ m.halted.board.history)).board.trace =
      m.board.trace ++ m.board.entry .waiting :: news.reverse := by
    simp [Machine.since, Machine.halted, Board.record, Board.trace, Board.entry]
  rw [MachineM.wait_apply]
  cases outcome with
  | error halt =>
    rw [MachineM.bind_of_error _ hbegin]
    exact ⟨.of_trace htrace hown, fun a ha => by cases ha⟩
  | ok replies =>
    rw [MachineM.bind_of_ok _ hbegin]
    exact ⟨.of_trace htrace hown, fun a ha => rfl⟩

/-! ### Spells -/

/-- A wait of a sleeper, and the look that it takes afterwards. -/
structure Spell (π : Type) where
  /-- What happens in the wait. -/
  interlude : MachineM π (List Reply)
  before : Machine π
  /-- The machine at the end of the wait. -/
  waited : Machine π
  after : Machine π

namespace Spell

variable {π : Type}

/-- What the sleeper itself has done after the wait. -/
def own (c : Spell π) : List Event := c.after.ownSince c.waited

/-- The sleeper `me` is not in the sleep queue when the wait is over. The scheduler is left as it
is, with its policy. -/
structure Wakes (c : Spell π) (me : ThreadId) : Prop where
  left : c.waited.scheduler.sleepers.contains me = false
  scheduler : c.after.scheduler = c.waited.scheduler
  board : c.after.board = c.waited.board.noted [.schedulerEntered]

variable [Policy π]

/-- Whether the policy has another thread that can run when the wait is over, and the policy after
it has been asked. -/
def other (c : Spell π) : Bool × π := Policy.hasOtherRunnable c.waited.scheduler.policy

/-- The thread that the policy then picks, and the policy after it has picked. -/
def pick (c : Spell π) : ThreadId × π := Policy.pickNext c.other.2

/-- The sleeper `me` is in the sleep queue when the wait is over, and cannot give way. The policy is
asked to pick only if it has another thread. Nothing else is done. -/
structure Stays (c : Spell π) (me : ThreadId) : Prop where
  queued : c.waited.scheduler.sleepers.contains me = true
  scheduler :
    c.other.1 = false ∧
      c.after.scheduler = { c.waited.scheduler with policy := c.other.2 } ∨
    c.other.1 = true ∧
      (c.pick.1 = me ∨ c.waited.scheduler.threads.contains c.pick.1 = false) ∧
      c.after.scheduler = { c.waited.scheduler with policy := c.pick.2 }
  board : c.after.board = c.waited.board.noted [.schedulerEntered]

/-- The sleeper `me` is in the sleep queue when the wait is over, and the policy picks another
thread, to which one switch is made. -/
structure GivesWay (c : Spell π) (me : ThreadId) : Prop where
  queued : c.waited.scheduler.sleepers.contains me = true
  busy : c.other.1 = true
  differs : c.pick.1 ≠ me
  registered : c.waited.scheduler.threads.contains c.pick.1 = true
  scheduler : c.after.scheduler =
    { c.waited.scheduler with
      threads := c.waited.scheduler.threads.switched ⟨me, c.pick.1⟩
      policy := c.pick.2
      stats := { c.waited.scheduler.stats with
        contextSwitches := c.waited.scheduler.stats.contextSwitches + 1 } }
  board : c.after.board = c.waited.board.noted
    [.schedulerEntered,
      .switched ⟨me, c.pick.1⟩ (c.waited.scheduler.threads.saved me)
        (c.waited.scheduler.threads.saved c.pick.1)]

/-- With this spell the sleep of `me` comes back. -/
def Goes (c : Spell π) (me : ThreadId) : Prop := c.Wakes me ∨ c.GivesWay me

end Spell

section

variable {π : Type} [Policy π] {m start : Machine π} {me : ThreadId} {c : Spell π}

/-- What a look does: the sleeper stays and is told to wait, or it goes. -/
theorem Machine.Sound.stays_or_goes {verdict : IdleVerdict} (h : c.waited.Sound)
    (hlook : MachineM.look me c.waited = (.ok verdict, c.after)) :
    verdict = .wait ∧ c.Stays me ∨ verdict ≠ .wait ∧ c.Goes me := by
  have hact : MachineM.act (.reconsider me) c.waited = (.ok (.decided verdict), c.after) := by
    rw [MachineM.act_reconsider, map_eq_pure_bind, MachineM.bind_of_ok _ hlook]
    rfl
  obtain ⟨s', L, naps, naps', htakes, hafter⟩ := h.of_act hact
  have hqueued := htakes.sound.contains_sleepers me
  have hscheduler : c.after.scheduler = s'.switched (StepAnswer.decided verdict).plan? := by
    rw [hafter]
    rfl
  have hboard : c.after.board = c.waited.board.noted (.schedulerEntered ::
      (SchedulerStep.remarks (.reconsider me) (.decided verdict) ++
        s'.threads.handover (StepAnswer.decided verdict).plan?)) := by
    rw [hafter]
    rfl
  cases htakes.effect with
  | resumes hawake => exact Or.inr ⟨by simp, Or.inl ⟨hqueued.trans hawake, hscheduler, hboard⟩⟩
  | alone hasleep hidle =>
    exact Or.inl ⟨rfl, hqueued.trans hasleep, Or.inl ⟨hidle, hscheduler⟩, hboard⟩
  | handed hasleep hbusy =>
    have hpick : Policy.pickNext c.waited.scheduler.hasOtherRunnable.2.policy = c.pick := rfl
    have hme := Scheduler.contains_of_isSleeping hasleep
    rw [StepAnswer.plan?_decided] at hscheduler hboard
    rw [hpick] at hscheduler hboard ⊢
    -- a pick that cannot be switched to leaves the sleeper waiting
    cases hplan : SwitchPlan.plan? c.waited.scheduler.threads me c.pick.1 with
    | none =>
      have hkept := (SwitchPlan.plan?_eq_none_iff hme).mp hplan
      rw [hplan] at hscheduler hboard
      simp only [Scheduler.switched, Scheduler.handedOver, hpick, hplan, Option.isSome_none,
        Bool.toNat_false, Nat.add_zero] at hscheduler
      exact Or.inl ⟨rfl, hqueued.trans hasleep, Or.inr ⟨hbusy, hkept, hscheduler⟩, hboard⟩
    | some plan =>
      obtain ⟨rfl, hdiffers⟩ := SwitchPlan.plan?_eq_some hplan
      have hregistered := (SwitchPlan.possible_of_plan? hplan).target
      rw [hplan] at hscheduler hboard
      simp only [Scheduler.switched, Scheduler.handedOver, hpick, hplan, Option.isSome_some,
        Bool.toNat_true] at hscheduler
      exact Or.inr ⟨by simp, Or.inr ⟨hqueued.trans hasleep, hbusy, hdiffers.symm, hregistered,
        hscheduler, hboard⟩⟩

/-! ### A sleep as a list of spells -/

/-- The spells lead from the one machine to the other, each from where the last one ended. -/
inductive Spells : Machine π → List (Spell π) → Machine π → Prop where
  | none (m : Machine π) : Spells m [] m
  | spell {c : Spell π} {later : List (Spell π)} {m : Machine π} :
      MachineM.wait c.interlude c.before = (.ok (), c.waited) → Spells c.after later m →
      Spells c.before (c :: later) m

/-- The next wait, if these are the interludes that are left. -/
def MachineM.nextWait : List (MachineM π (List Reply)) → MachineM π Unit
  | [] => waitInVain
  | interlude :: _ => wait interlude

/-- The sleeper `me` idles through the spells, from a machine and with these interludes, and this is
the result. -/
inductive Idles (me : ThreadId) (m : Machine π) (interludes : List (MachineM π (List Reply))) :
    List (Spell π) → Except Halt Unit × Machine π → Prop where
  /-- It stays in all spells but the last one, and comes back with that. -/
  | goes {earlier : List (Spell π)} {c : Spell π} {left : List (MachineM π (List Reply))}
      (hleft : interludes = (earlier ++ [c]).map (·.interlude) ++ left)
      (hspells : Spells m (earlier ++ [c]) c.after) (hstays : ∀ b ∈ earlier, b.Stays me)
      (hgoes : c.Goes me) : Idles me m interludes (earlier ++ [c]) (.ok (), c.after)
  /-- It stays in all of them, and the next wait does not end. -/
  | stalls {cs : List (Spell π)} {left : List (MachineM π (List Reply))} {last halted : Machine π}
      (hleft : interludes = cs.map (·.interlude) ++ left) (hspells : Spells m cs last)
      (hstays : ∀ b ∈ cs, b.Stays me)
      (hstalls : MachineM.nextWait left last = (.error .stalled, halted)) :
      Idles me m interludes cs (.error .stalled, halted)

variable {cs : List (Spell π)} {interludes : List (MachineM π (List Reply))}
  {result : Except Halt Unit × Machine π}

/-- A spell in which the sleeper stays can be put in front. -/
theorem Idles.cons (h : Idles me c.after interludes cs result)
    (hwait : MachineM.wait c.interlude c.before = (.ok (), c.waited)) (hstays : c.Stays me) :
    Idles me c.before (c.interlude :: interludes) (c :: cs) result := by
  cases h with
  | @goes earlier last left hleft hspells hearlier hgoes =>
    rw [← List.cons_append]
    exact .goes (congrArg (c.interlude :: ·) hleft) (.spell hwait hspells)
      (List.forall_mem_cons.mpr ⟨hstays, hearlier⟩) hgoes
  | stalls hleft hspells hall hstalls =>
    exact .stalls (congrArg (c.interlude :: ·) hleft) (.spell hwait hspells)
      (List.forall_mem_cons.mpr ⟨hstays, hall⟩) hstalls

namespace MachineM

theorem exists_look (hsound : m.Sound) (me : ThreadId) :
    ∃ verdict after, look me m = (.ok verdict, after) ∧ after.Sound := by
  obtain ⟨verdict, after, hlook, hgoes⟩ := goes_of_act (act_reconsider me) hsound trivial
  exact ⟨verdict, after, hlook, hgoes.sound hsound⟩

/-- A wait that does not end has stalled. -/
theorem Travels.stalled {interlude : MachineM π (List Reply)} (h : Travels interlude)
    (hsound : m.Sound) {halt : Halt} {after : Machine π}
    (hwait : MachineM.wait interlude m = (.error halt, after)) : halt = .stalled := by
  cases halt with
  | stalled => rfl
  | fault fault =>
    refine absurd ?_ ((h.wait m hsound).2 fault)
    rw [hwait]

/-- A sleeper idles until the first spell in which it goes, whatever happens in the waits. -/
theorem idle_spells (me : ThreadId) :
    ∀ {interludes : List (MachineM π (List Reply))} {m : Machine π},
      (∀ x ∈ interludes, Built x) → m.Sound →
        ∃ cs, Idles me m interludes cs (idle me interludes m)
  | [], m, _, _ => ⟨[], .stalls rfl (.none m) (by simp) rfl⟩
  | x :: rest, m, hbuilt, hsound => by
    obtain ⟨hx, hrest⟩ := List.forall_mem_cons.mp hbuilt
    rw [idle_cons]
    rcases hwait : wait x m with ⟨halt | ⟨⟩, waited⟩
    · obtain rfl := hx.travels.stalled hsound hwait
      rw [bind_of_error _ hwait]
      exact ⟨[], .stalls rfl (.none m) (by simp) hwait⟩
    · have hwaited : waited.Sound := by
        have hserves := (hx.travels.wait m hsound).1
        rw [hwait] at hserves
        exact hserves.sound hsound
      obtain ⟨verdict, after, hlook, hafter⟩ := exists_look hwaited me
      let c : Spell π := ⟨x, m, waited, after⟩
      rw [bind_of_ok _ hwait, bind_of_ok _ hlook]
      rcases Machine.Sound.stays_or_goes (c := c) hwaited hlook with
        ⟨rfl, hstays⟩ | ⟨hverdict, hgoes⟩
      · obtain ⟨cs, hidles⟩ := idle_spells me hrest hafter
        exact ⟨c :: cs, hidles.cons (c := c) hwait hstays⟩
      · have hend : Idles me m (x :: rest) ([] ++ [c]) (.ok (), c.after) :=
          .goes rfl (.spell (c := c) hwait (.none _)) (by simp) hgoes
        refine ⟨[c], ?_⟩
        cases verdict with
        | wait => exact absurd rfl hverdict
        | goOn | giveWay => exact hend

end MachineM

/-! ### What a sleeper does itself -/

namespace Spell

/-- What a sleeper does after a wait is to enter the scheduler, and to switch if it gives way. -/
theorem exists_board (h : c.Stays me ∨ c.Goes me) :
    ∃ events, c.after.board = c.waited.board.noted events := by
  rcases h with hstays | hwakes | hgives
  · exact ⟨_, hstays.board⟩
  · exact ⟨_, hwakes.board⟩
  · exact ⟨_, hgives.board⟩

omit [Policy π] in
theorem own_of_board {events : List Event} (h : c.after.board = c.waited.board.noted events) :
    c.own = events :=
  (Machine.Did.of_events (h ▸ Board.trace_noted _ _)).own

/-- In a spell the sleeper waits, and then does what the spell says; it comes back to its depth. -/
theorem did (h : c.Stays me ∨ c.Goes me) (htame : MachineM.Tame c.interlude)
    (hwait : MachineM.wait c.interlude c.before = (.ok (), c.waited)) :
    c.before.Did (.waiting :: c.own) c.after ∧ c.after.board.nesting = c.before.board.nesting := by
  obtain ⟨events, hboard⟩ := exists_board h
  obtain ⟨hdid, hnesting⟩ := htame.wait_did c.before
  rw [hwait] at hdid hnesting
  have hlook : c.waited.Did events c.after := .of_events (hboard ▸ Board.trace_noted _ _)
  rw [own_of_board hboard]
  refine ⟨hdid.trans (hnesting () rfl) hlook, ?_⟩
  rw [hboard]
  exact hnesting () rfl

/-- What a recorder sees of a spell after the wait: one choice of the policy, if the sleeper still
sleeps and the policy has another thread, and no other call. -/
theorem calls {c : Spell (Recorded π)} (h : c.Stays me ∨ c.Goes me) :
    c.after.scheduler.policy.calls = c.waited.scheduler.policy.calls ++
      if c.waited.scheduler.sleepers.contains me && c.other.1 then [.pickNext c.pick.1]
      else [] := by
  have hasked : c.other.2.calls = c.waited.scheduler.policy.calls := rfl
  have hpicked : c.pick.2.calls =
      c.waited.scheduler.policy.calls ++ [.pickNext c.pick.1] :=
    Recorded.calls_pickNext c.other.2
  rcases h with hstays | hwakes | hgives
  · rcases hstays.scheduler with ⟨hidle, hscheduler⟩ | ⟨hbusy, -, hscheduler⟩
    · simp [hscheduler, hidle, hasked]
    · simp [hscheduler, hbusy, hstays.queued, hpicked]
  · simp [hwakes.scheduler, hwakes.left]
  · simp [hgives.scheduler, hgives.busy, hgives.queued, hpicked]

end Spell

theorem Spells.did {last : Machine π} (h : Spells m cs last)
    (htame : ∀ c ∈ cs, MachineM.Tame c.interlude) (hlook : ∀ c ∈ cs, c.Stays me ∨ c.Goes me) :
    m.Did (cs.flatMap fun c => .waiting :: c.own) last ∧
      last.board.nesting = m.board.nesting := by
  induction h with
  | none m => exact ⟨.of_events (by simp), rfl⟩
  | spell hwait _ ih =>
    obtain ⟨htame, htame'⟩ := List.forall_mem_cons.mp htame
    obtain ⟨hlook, hlook'⟩ := List.forall_mem_cons.mp hlook
    obtain ⟨hfirst, hnesting⟩ := Spell.did hlook htame hwait
    obtain ⟨hlater, hnesting'⟩ := ih htame' hlook'
    exact ⟨hfirst.trans hnesting hlater, hnesting'.trans hnesting⟩

omit [Policy π] in
theorem MachineM.nextWait_did {left : List (MachineM π (List Reply))}
    (h : ∀ x ∈ left, MachineM.Tame x) (m : Machine π) : m.Did [.waiting] (nextWait left m).2 := by
  cases left with
  | nil => exact .of_events (Board.trace_record _ _)
  | cons x rest => exact ((h x List.mem_cons_self).wait_did m).1

namespace Idles

variable {outcome : Except Halt Unit} {idled : Machine π}

/-- What a sleeper does itself: it waits and looks, spell by spell, and if it never goes it waits
once more. -/
theorem did (h : Idles me m interludes cs (outcome, idled))
    (htame : ∀ x ∈ interludes, MachineM.Tame x) :
    m.Did ((cs.flatMap fun c => .waiting :: c.own) ++
      if outcome = .ok () then [] else [.waiting]) idled := by
  cases h with
  | @goes earlier c left hleft hspells hstays hgoes =>
    have hlook : ∀ b ∈ earlier ++ [c], b.Stays me ∨ b.Goes me :=
      List.forall_mem_append.mpr
        ⟨fun b hb => Or.inl (hstays b hb), List.forall_mem_singleton.mpr (Or.inr hgoes)⟩
    rw [if_pos rfl, List.append_nil]
    refine (hspells.did (fun b hb => htame _ ?_) hlook).1
    exact hleft ▸ List.mem_append_left _ (List.mem_map_of_mem hb)
  | @stalls _ left last _ hleft hspells hstays hstalls =>
    have hwaits := MachineM.nextWait_did
      (fun x hx => htame x (hleft ▸ List.mem_append_right _ hx)) last
    obtain ⟨hdid, hnesting⟩ := hspells.did
      (fun b hb => htame _ (hleft ▸ List.mem_append_left _ (List.mem_map_of_mem hb)))
      fun b hb => Or.inl (hstays b hb)
    rw [hstalls] at hwaits
    exact hdid.trans hnesting hwaits

/-- A sleeper waits before anything else. -/
theorem waits (h : Idles me m interludes cs (outcome, idled))
    (htame : ∀ x ∈ interludes, MachineM.Tame x) :
    ∃ later, idled.ownSince m = .waiting :: later := by
  rw [(h.did htame).own]
  cases h with
  | @goes earlier => cases earlier <;> exact ⟨_, rfl⟩
  | stalls => cases cs <;> exact ⟨_, rfl⟩

/-- A sleep that comes back without a switch of its own is over. -/
theorem not_contains (h : Idles me m interludes cs (.ok (), idled))
    (htame : ∀ x ∈ interludes, MachineM.Tame x)
    (hown : ∀ event ∈ idled.ownSince m, event.plan? = none) :
    idled.scheduler.sleepers.contains me = false := by
  rw [(h.did htame).own] at hown
  cases h with
  | @goes earlier c left hleft hspells hstays hgoes =>
    rcases hgoes with hwakes | hgives
    · rw [hwakes.scheduler]
      exact hwakes.left
    · refine absurd (hown (.switched ⟨me, c.pick.1⟩ (c.waited.scheduler.threads.saved me)
        (c.waited.scheduler.threads.saved c.pick.1)) ?_) (by simp [Event.plan?])
      simp [Spell.own_of_board hgives.board]

end Idles

/-- A sleep of a thread that is not switched away from: the thread falls asleep, says so, and
idles. -/
theorem MachineM.exists_asleep (hsound : m.Sound) {deadline : Nat} {s' : Scheduler π}
    (hqueued : (m.scheduler.beginSleep deadline).result = .ok (.ok ⟨me, none⟩, s'))
    (interludes : List (MachineM π (List Reply))) :
    ∃ asleep : Machine π, asleep.Sound ∧ asleep.scheduler = s' ∧
      asleep.board = m.guarded.board.noted [.schedulerEntered] ∧
      sleepUntil deadline interludes m =
        ((idle me interludes asleep).1.map .ok,
          (idle me interludes asleep).2.released (InterruptGuard.acquire m.board).1) := by
  let fallen : Machine π := { m.guarded with
    board := m.guarded.board.noted [.schedulerEntered]
    told := (m.scheduler.beginSleep deadline).notices.reverse ++ m.told
    scheduler := s' }
  have henter : enter (·.beginSleep deadline) m.guarded = (.ok (.ok ⟨me, none⟩), fallen) :=
    enter_of_take _ hqueued
  have hfall : fallAsleep deadline m.guarded = (.ok (.ok ⟨me, none⟩), fallen) := by
    rw [fallAsleep, bind_of_ok _ henter]
    rfl
  have hguarded := (Machine.Passes.guarded m).sound hsound
  have hserves := ((Built.fallAsleep deadline).travels m.guarded hguarded).1
  rw [hfall] at hserves
  let asleep : Machine π := { fallen with told := .idles me :: fallen.told }
  have hnoted : fallen.Passes asleep := .of_same rfl rfl
  refine ⟨asleep, hnoted.sound (hserves.sound hguarded), rfl, rfl, ?_⟩
  have hlinger : linger interludes ⟨me, none⟩ fallen = idle me interludes asleep := rfl
  rw [sleepUntil_eq, masked_apply, bind_of_ok _ hfall, sleepOn]
  rcases hidle : idle me interludes asleep with ⟨halt | ⟨⟩, idled⟩
  · rw [bind_of_error _ (hlinger.trans hidle)]
    rfl
  · rw [bind_of_ok _ (hlinger.trans hidle)]
    rfl

/-- In every run since boot, whatever the policy answers and whatever happens in the waits: a thread
that falls asleep and is not switched away from waits at once. It idles through spells: it stays in
each but the last one, and the sleep comes back with the first one in which it goes, or it halts in
a wait that does not end. If it comes back without a switch of its own, the thread is no longer in
the sleep queue. -/
theorem Journey.idle_sleep {settings : Settings} {policy : π} {handoff : QueueId} {board : Board}
    (hboot : Machine.boot settings policy handoff board = .ok start) {stages : List (Stage π)}
    (h : Journey start stages m) {deadline : Nat} {s' : Scheduler π}
    (hqueued : (m.scheduler.beginSleep deadline).result = .ok (.ok ⟨me, none⟩, s'))
    (during : List (List (Action π))) :
    ∃ (asleep idled : Machine π) (outcome : Except Halt Unit) (cs : List (Spell π)),
      asleep.scheduler = s' ∧ asleep.board = m.guarded.board.noted [.schedulerEntered] ∧
      MachineM.sleepUntil deadline (Action.interludes during) m =
        (outcome.map .ok, idled.released (InterruptGuard.acquire m.board).1) ∧
      Idles me asleep (Action.interludes during) cs (outcome, idled) ∧
      (∃ later, idled.ownSince asleep = .waiting :: later) ∧
      idled.ownSince asleep = (cs.flatMap fun c => .waiting :: c.own) ++
        (if outcome = .ok () then [] else [.waiting]) ∧
      (outcome = .ok () → (∀ event ∈ idled.ownSince asleep, event.plan? = none) →
        idled.scheduler.sleepers.contains me = false) := by
  have hbuilt := Action.interludes_built during
  have htame := fun x hx => (hbuilt x hx).tame
  have hsound := h.sound (Machine.sound_boot hboot)
  obtain ⟨asleep, hasleep, hscheduler, hboard, hrun⟩ :=
    MachineM.exists_asleep hsound hqueued (Action.interludes during)
  obtain ⟨cs, hidles⟩ := MachineM.idle_spells me hbuilt hasleep
  rcases hidle : MachineM.idle me (Action.interludes during) asleep with ⟨outcome, idled⟩
  rw [hidle] at hrun hidles
  refine ⟨asleep, idled, outcome, cs, hscheduler, hboard, hrun, hidles, hidles.waits htame,
    (hidles.did htame).own, ?_⟩
  rintro rfl
  exact hidles.not_contains htame

end

/-- A thread that is alone sleeps until 9. In its first wait nothing happens. In its second one
another thread comes, to which it gives way while it still sleeps. -/
theorem Journey.idle_sleep_gives_way :
    ∃ (start m : Machine Fifo) (stages : List (Stage Fifo)) (s' : Scheduler Fifo),
      Machine.boot { maxThreads := 2 } ⟨[], ⟨0⟩⟩ ⟨1⟩ {} = .ok start ∧ Journey start stages m ∧
      (m.scheduler.beginSleep 9).result = .ok (.ok ⟨⟨0⟩, none⟩, s') ∧
      ∃ (asleep idled : Machine Fifo) (earlier : List (Spell Fifo)) (c : Spell Fifo),
        Spells asleep (earlier ++ [c]) idled ∧ (∀ b ∈ earlier, b.Stays ⟨0⟩) ∧ c.GivesWay ⟨0⟩ ∧
        ∃ event ∈ idled.ownSince asleep, event.plan? ≠ none := by
  let sleeper (m : Machine Fifo) : Machine Fifo := m.performAll [.request (.register {})]
  let during : List (List (Action Fifo)) :=
    [[], [.request (.register {}), .adjustPolicy (·.push ⟨1⟩)]]
  let run (m : Machine Fifo) :=
    MachineM.sleepUntil 9 (Action.interludes during) (sleeper m)
  obtain ⟨start, hboot, hrun⟩ := Machine.exists_boot
    { maxThreads := 2 } (⟨[], ⟨0⟩⟩ : Fifo) ⟨1⟩ {}
    (f := fun m => (((sleeper m).scheduler.beginSleep 9).result.map (·.1), (run m).1,
      (run m).2.scheduler.sleepers.contains ⟨0⟩))
    (a := (.ok (.ok ⟨⟨0⟩, none⟩), .ok (.ok ()), true)) (by decide +kernel)
  obtain ⟨hbegin, hresult, hcontains⟩ := by simpa only [Prod.mk.injEq] using hrun
  obtain ⟨s', hqueued⟩ : ∃ s', ((sleeper start).scheduler.beginSleep 9).result =
      .ok (.ok ⟨⟨0⟩, none⟩, s') := by
    cases hslept : ((sleeper start).scheduler.beginSleep 9).result with
    | error fault => simp [hslept, Except.map] at hbegin
    | ok a =>
      rw [hslept] at hbegin
      exact ⟨a.2, by rw [← Except.ok.inj hbegin]⟩
  obtain ⟨stages, hjourney, -⟩ :=
    Machine.serves_performAll [.request (.register {})] (Machine.sound_boot hboot)
  obtain ⟨asleep, idled, outcome, cs, -, -, hsleep, hidles, -, -, hover⟩ :=
    hjourney.idle_sleep hboot hqueued during
  have hrun' : run start = (outcome.map .ok, idled.released _) := hsleep
  rw [hrun'] at hresult hcontains
  have hstill : idled.scheduler.sleepers.contains ⟨0⟩ = true := hcontains
  cases outcome with
  | error halt => cases hresult
  | ok =>
    cases hidles with
    | @goes earlier c _ _ hspells hstays hgoes =>
      refine ⟨start, _, stages, s', hboot, hjourney, hqueued, asleep, _, earlier, c, hspells,
        hstays, hgoes.resolve_left fun hwakes => ?_, ?_⟩
      · rw [hwakes.scheduler, hwakes.left] at hstill
        cases hstill
      · by_contra hnone
        rw [hover rfl (by simpa using hnone)] at hstill
        cases hstill

end PulseKernel
