/-
# Interrupts are kept out

What threads ask of the timer service runs under an interrupt guard. Here such an
operation is run twice from the same machine, once with interrupts let in and once with
interrupts kept out. The runs have the same result, they leave the same machine, and
they put the same events on the trace; only the first begins by clearing the flag and
ends by setting it. In between the operation itself never finds the flag set
(`MachineM.Guarded`). What the interrupts do during the waits is free, as long as they
give back the depth that they found and do not look at the trace (`MachineM.Tame`); so
does everything that the machine does (`MachineM.Built.tame`).

A computation is followed on its terms (`Terms`): the flag that it may find, and the
entries that it may make at its own depth. Neither depends on what the trace already
holds, so that the two runs are one run with two pasts (`MachineM.Confined`).

Key definitions: `Machine.since`, `Terms`, `MachineM.Confined`, `MachineM.Tame`,
`MachineM.Sheltered`, `MachineM.Guarded`.
Key theorems: `MachineM.Confined.bind`, `MachineM.Confined.wait`, `MachineM.Tame.masked`,
`MachineM.Built.tame`, `MachineM.Sheltered.masked_apply`, `MachineM.services_guarded`.
-/
import PulseKernel.Proofs.Journeys

namespace PulseKernel

/-- Whether the event is a change of the interrupt flag. -/
def Event.isToggle : Event → Bool
  | .masked | .unmasked => true
  | _ => false

/-- What a computation may do: the interrupt flag that it may find and leave, and the entries that
it may make at its own depth. Under such a flag it may do anything but change the flag. -/
structure Terms where
  flag : Bool → Prop
  own : Entry → Prop
  own_of_flag : ∀ {e : Entry}, e.event.isToggle = false → flag e.interrupts → own e

namespace Terms

/-- Everything is allowed. -/
def free : Terms where
  flag _ := True
  own _ := True
  own_of_flag _ _ := trivial

/-- Interrupts are kept out, and the flag is left alone. -/
def quiet : Terms where
  flag enabled := enabled = false
  own e := e.interrupts = false ∧ e.event.isToggle = false
  own_of_flag htoggle hflag := ⟨hflag, htoggle⟩

end Terms

namespace Machine

variable {π : Type}

/-- The machine with another past on its trace, the last event first. -/
def since (m : Machine π) (past : List Entry) : Machine π :=
  { m with board := { m.board with history := past } }

/-- The machine with the interrupt flag as given. -/
def withInterrupts (m : Machine π) (flag : Bool) : Machine π :=
  { m with board := { m.board with interrupts := flag } }

/-- The machine at the begin of a wait. -/
def halted (m : Machine π) : Machine π :=
  { m with board :=
      { m.board.record .waiting with interrupts := true, nesting := m.board.nesting + 1 } }

/-- The machine after a wait that began on `before`. -/
def resumed (m before : Machine π) (replies : List Reply) : Machine π :=
  { m with
    board :=
      { m.board with interrupts := before.board.interrupts, nesting := before.board.nesting }
    waits := m.waits ++ [replies] }

end Machine

namespace MachineM

variable {π α β : Type} {T : Terms} {m after : Machine π} {news : List Entry}
  {outcome : Except Halt α}

/-! ### Computations on their terms -/

/-- A run kept to the terms: every new entry is nested deeper or is allowed, and a run that comes to
its end is back at its depth, with a flag that is allowed. -/
structure Keeps (T : Terms) (m : Machine π) (outcome : Except Halt α) (after : Machine π)
    (news : List Entry) : Prop where
  entries : ∀ e ∈ news, m.board.nesting < e.nesting ∨ e.nesting = m.board.nesting ∧ T.own e
  deepens : m.board.nesting ≤ after.board.nesting
  back : ∀ a, outcome = .ok a →
    after.board.nesting = m.board.nesting ∧ T.flag after.board.interrupts

theorem Keeps.trans {between : Machine π} {news' : List Entry} {a : β}
    (h : Keeps T m (.ok a : Except Halt β) between news)
    (h' : Keeps T between outcome after news') :
    Keeps T m outcome after (news' ++ news) := by
  obtain ⟨hnesting, -⟩ := h.back a rfl
  obtain ⟨hentries, hdeepens, hback⟩ := h'
  rw [hnesting] at hentries hdeepens hback
  exact ⟨List.forall_mem_append.mpr ⟨hentries, h.entries⟩, hdeepens, hback⟩

/-- The computation keeps to the terms, and what it does does not depend on what the trace holds
before. -/
def Confined (T : Terms) (x : MachineM π α) : Prop :=
  ∀ m : Machine π, T.flag m.board.interrupts → ∃ outcome after news,
    (∀ past, x (m.since past) = (outcome, after.since (news ++ past))) ∧
      Keeps T m outcome after news

namespace Confined

/-- A computation that makes entries where it stands and leaves flag and depth alone. -/
theorem of_events {x : MachineM π α}
    (h : ∀ m : Machine π, ∃ (outcome : Except Halt α) (after : Machine π) (events : List Event),
      (∀ past, x (m.since past) = (outcome, after.since (events.map m.board.entry ++ past))) ∧
        (∀ event ∈ events, event.isToggle = false) ∧
        after.board.nesting = m.board.nesting ∧ after.board.interrupts = m.board.interrupts) :
    Confined T x := by
  intro m hflag
  obtain ⟨outcome, after, events, hrun, htoggle, hnesting, hinterrupts⟩ := h m
  refine ⟨outcome, after, _, hrun, ?_, hnesting.ge, fun _ _ => ⟨hnesting, hinterrupts ▸ hflag⟩⟩
  intro e he
  obtain ⟨event, hevent, rfl⟩ := List.mem_map.mp he
  exact .inr ⟨rfl, T.own_of_flag (htoggle event hevent) hflag⟩

/-- A computation that makes no entries and leaves flag and depth alone. -/
theorem of_silent {x : MachineM π α}
    (h : ∀ m : Machine π, ∃ (outcome : Except Halt α) (after : Machine π),
      (∀ past, x (m.since past) = (outcome, after.since past)) ∧
        after.board.nesting = m.board.nesting ∧ after.board.interrupts = m.board.interrupts) :
    Confined T x :=
  .of_events fun m => by
    obtain ⟨outcome, after, hrun, hleft⟩ := h m
    exact ⟨outcome, after, [], hrun, by simp, hleft⟩

theorem pure (a : α) : Confined T (pure a : MachineM π α) :=
  .of_silent fun m => ⟨.ok a, m, fun _ => rfl, rfl, rfl⟩

theorem halt (h : Halt) : Confined T (halt h : MachineM π α) :=
  .of_silent fun m => ⟨.error h, m, fun _ => rfl, rfl, rfl⟩

/-- The computation reads something that is not on the trace. -/
theorem read {f : Board → α} (h : ∀ b past, f { b with history := past } = f b) :
    Confined T (read f : MachineM π α) :=
  .of_silent fun m => by
    refine ⟨.ok (f m.board), m, fun past => ?_, rfl, rfl⟩
    rw [read_apply, Machine.since, h]

theorem note (n : Notice) : Confined T (note n : MachineM π Unit) :=
  .of_silent fun m => ⟨.ok (), { m with told := n :: m.told }, fun _ => rfl, rfl, rfl⟩

theorem record {event : Event} (h : event.isToggle = false) :
    Confined T (record event : MachineM π Unit) :=
  .of_events fun m => ⟨.ok (), m, [event], fun _ => rfl, by simpa using h, rfl, rfl⟩

theorem enter (step : Scheduler π → Logged (α × Scheduler π)) : Confined T (enter step) :=
  .of_events fun m => by
    have htoggle : ∀ event ∈ [Event.schedulerEntered], event.isToggle = false := by decide
    unfold MachineM.enter
    cases hresult : (step m.scheduler).result with
    | error fault =>
      refine ⟨.error (.fault fault),
        { m with told := (step m.scheduler).notices.reverse ++ m.told },
        [.schedulerEntered], fun past => ?_, htoggle, rfl, rfl⟩
      simp only [Machine.since, hresult]
      rfl
    | ok a =>
      refine ⟨.ok a.1, { m with
          told := (step m.scheduler).notices.reverse ++ m.told
          scheduler := a.2 },
        [.schedulerEntered], fun past => ?_, htoggle, rfl, rfl⟩
      simp only [Machine.since, hresult]
      rfl

theorem switchTo (plan : SwitchPlan) : Confined T (switchTo plan : MachineM π Unit) :=
  .of_events fun m => by
    unfold MachineM.switchTo
    simp only [Machine.since]
    split
    · split
      · rename_i source target _ _ _ threads _
        exact ⟨.ok (), { m with scheduler := { m.scheduler with threads := threads } },
          [.switched plan source target], fun _ => rfl, by simp [Event.isToggle], rfl, rfl⟩
      · exact ⟨.ok (), m, [], fun _ => rfl, by simp, rfl, rfl⟩
    · exact ⟨.ok (), m, [], fun _ => rfl, by simp, rfl, rfl⟩

theorem switchIfPlanned : ∀ plan? : Option SwitchPlan,
    Confined T (switchIfPlanned plan? : MachineM π Unit)
  | some plan => .switchTo plan
  | none => .pure ()

/-- Two computations, one after the other. -/
theorem bind {x : MachineM π α} {f : α → MachineM π β} (hx : Confined T x)
    (hf : ∀ a, Confined T (f a)) : Confined T (x >>= f) := by
  intro m hflag
  obtain ⟨first, between, news, hrun, hkeeps⟩ := hx m hflag
  cases first with
  | error halt =>
    exact ⟨.error halt, between, news, fun past => bind_of_error f (hrun past),
      hkeeps.entries, hkeeps.deepens, fun _ h => by cases h⟩
  | ok a =>
    obtain ⟨outcome, after, news', hrun', hkeeps'⟩ := hf a between (hkeeps.back a rfl).2
    refine ⟨outcome, after, news' ++ news, fun past => ?_, hkeeps.trans hkeeps'⟩
    rw [bind_of_ok f (hrun past), hrun', List.append_assoc]

end Confined

/-! ### Waits and guards -/

/-- The computation gives back the depth that it found, and does not look at the trace. -/
def Tame (x : MachineM π α) : Prop := Confined .free x

/-- Run with interrupts kept out, the computation leaves the flag alone. -/
def Sheltered (x : MachineM π α) : Prop := Confined .quiet x

/-- Goes on after a wait that began on `before`. -/
def resume (before : Machine π) (replies : List Reply) : MachineM π Unit :=
  fun m => (.ok (), m.resumed before replies)

theorem wait_apply (interlude : MachineM π (List Reply)) (m : Machine π) :
    wait interlude m = (interlude >>= resume m) m.halted := rfl

/-- A wait keeps to any terms, whatever happens in it: that is nested deeper, and the flag is as
before when it is over. -/
theorem Confined.wait {interlude : MachineM π (List Reply)} (h : Tame interlude) :
    Confined T (wait interlude) := by
  intro m hflag
  obtain ⟨outcome, after, news, hrun, hkeeps⟩ := h m.halted trivial
  have hbegin (past : List Entry) :
      (m.since past).halted = m.halted.since (m.board.entry .waiting :: past) := rfl
  have hdeeper : m.board.nesting + 1 ≤ after.board.nesting := hkeeps.deepens
  have hentries : ∀ e ∈ news ++ [m.board.entry .waiting],
      m.board.nesting < e.nesting ∨ e.nesting = m.board.nesting ∧ T.own e := by
    refine List.forall_mem_append.mpr ⟨fun e he => .inl ?_, ?_⟩
    · have hnested : m.board.nesting + 1 < e.nesting ∨ e.nesting = m.board.nesting + 1 ∧ True :=
        hkeeps.entries e he
      omega
    · exact List.forall_mem_singleton.mpr (.inr ⟨rfl, T.own_of_flag rfl hflag⟩)
  cases outcome with
  | error halt =>
    refine ⟨.error halt, after, _, fun past => ?_, hentries, by omega, fun _ h => by cases h⟩
    rw [wait_apply, hbegin, List.append_assoc]
    exact bind_of_error _ (hrun _)
  | ok replies =>
    refine ⟨.ok (), after.resumed m replies, _, fun past => ?_, hentries, le_rfl,
      fun _ _ => ⟨rfl, hflag⟩⟩
    rw [wait_apply, hbegin, List.append_assoc]
    exact bind_of_ok _ (hrun _)

theorem Confined.waitInVain : Confined T (waitInVain : MachineM π α) :=
  .bind (.record rfl) fun _ => .halt _

section

variable {x : MachineM π α}
  (h : ∀ past, x ((m.withInterrupts false).since past) = (outcome, after.since (news ++ past)))
include h

/-- With interrupts kept out a guard does nothing. -/
theorem masked_of_shut (past : List Entry) :
    masked x ((m.withInterrupts false).since past) = (outcome, after.since (news ++ past)) := by
  have hguarded : ((m.withInterrupts false).since past).guarded =
      (m.withInterrupts false).since past := rfl
  rw [masked_apply, hguarded, h]
  rfl

/-- With interrupts let in a guard clears the flag before anything else and sets it in the end. -/
theorem masked_of_open (past : List Entry) :
    masked x ((m.withInterrupts true).since past) =
      (outcome, (after.withInterrupts true).since (⟨.unmasked, true, after.board.nesting⟩ ::
        (news ++ ⟨.masked, false, m.board.nesting⟩ :: past))) := by
  have hguarded : ((m.withInterrupts true).since past).guarded =
      (m.withInterrupts false).since (⟨.masked, false, m.board.nesting⟩ :: past) := rfl
  rw [masked_apply, hguarded, h]
  rfl

end

theorem Tame.masked {x : MachineM π α} (hx : Tame x) : Tame (masked x) := by
  intro m _
  obtain ⟨outcome, after, news, hrun, hentries, hdeepens, hback⟩ :=
    hx (m.withInterrupts false) trivial
  suffices hflag : ∀ flag, ∃ outcome after news,
      (∀ past, MachineM.masked x ((m.withInterrupts flag).since past) =
        (outcome, after.since (news ++ past))) ∧ Keeps .free m outcome after news from
    hflag m.board.interrupts
  rintro (_ | _)
  · exact ⟨outcome, after, news, masked_of_shut hrun, hentries, hdeepens, hback⟩
  · refine ⟨outcome, after.withInterrupts true, ⟨.unmasked, true, after.board.nesting⟩ ::
      (news ++ [⟨.masked, false, m.board.nesting⟩]), fun past => ?_, ?_, hdeepens, hback⟩
    · rw [masked_of_open hrun]
      simp
    · refine List.forall_mem_cons.mpr ⟨?_, List.forall_mem_append.mpr ⟨hentries, ?_⟩⟩
      · exact hdeepens.lt_or_eq.imp_right fun hnesting => ⟨hnesting.symm, trivial⟩
      · exact List.forall_mem_singleton.mpr (.inr ⟨rfl, trivial⟩)

/-! ### Blocks -/

namespace Confined

theorem recordServed (r : Request) (response : Response) :
    Confined T (recordServed r response : MachineM π Unit) := by
  unfold MachineM.recordServed
  split
  · exact .record rfl
  · exact .record rfl
  · exact .pure ()

theorem readClock : Confined T (readClock : MachineM π Nat) :=
  .bind (.record rfl) fun _ => .read fun _ _ => rfl

variable [Policy π]

theorem fallAsleep (deadline : Nat) :
    Confined T (fallAsleep deadline : MachineM π (Except Refusal SleepTicket)) :=
  .bind (.enter _) fun _ => .bind (.switchIfPlanned _) fun _ => .pure _

theorem look (me : ThreadId) : Confined T (look me : MachineM π IdleVerdict) :=
  .bind (.enter _) fun _ => .bind (.switchIfPlanned _) fun _ => .pure _

theorem respond (r : Request) : Confined T (respond r : MachineM π Response) :=
  .bind (.enter _) fun _ => .bind (.recordServed _ _) fun _ => .pure _

theorem pulse : Confined T (pulse : MachineM π Unit) := by
  refine .bind (.read fun _ _ => rfl) fun now => .bind (.read fun _ _ => rfl) fun booted => ?_
  refine .bind (.enter _) fun outcome => ?_
  have hrest : Confined T (do
      MachineM.record .endOfInterrupt
      MachineM.switchIfPlanned outcome.plan : MachineM π Unit) :=
    .bind (.record rfl) fun _ => .switchIfPlanned _
  split
  · exact .bind (.record rfl) fun _ => hrest
  · exact hrest

theorem idle (me : ThreadId) : ∀ {interludes : List (MachineM π (List Reply))},
    (∀ x ∈ interludes, Tame x) → Confined T (idle me interludes)
  | [], _ => .waitInVain
  | interlude :: rest, h => by
    rw [idle_cons]
    refine .bind (.wait (h _ List.mem_cons_self)) fun _ => .bind (.look me) fun verdict => ?_
    cases verdict with
    | wait => exact idle me fun x hx => h x (List.mem_cons_of_mem _ hx)
    | goOn | giveWay => exact .pure ()

theorem sleepOn {interludes : List (MachineM π (List Reply))} (h : ∀ x ∈ interludes, Tame x)
    (outcome : Except Refusal SleepTicket) : Confined T (sleepOn interludes outcome) := by
  cases outcome with
  | error refusal => exact .pure _
  | ok ticket =>
    refine .bind ?_ fun _ => .pure _
    unfold linger
    split
    · exact .pure ()
    · exact .bind (.note _) fun _ => .idle _ h

end Confined

/-- Whatever the machine does is tame. -/
theorem Built.tame [Policy π] {x : MachineM π α} (h : Built x) : Tame x := by
  induction h with
  | pure a => exact .pure a
  | bind _ _ ihx ihf => exact .bind ihx ihf
  | masked _ ih => exact Tame.masked ih
  | wait _ ih => exact .wait ih
  | waitInVain => exact .waitInVain
  | pulse => exact .pulse
  | fallAsleep deadline => exact .fallAsleep deadline
  | look me => exact .look me
  | respond r => exact .respond r
  | govern change => exact .enter _
  | changeBoard change =>
    intro m _
    refine ⟨.ok (), { m with board := m.board.apply change }, [], fun past => ?_, by simp, ?_,
      fun _ _ => ⟨?_, trivial⟩⟩
    all_goals cases change <;> rfl
  | note n => exact .note n
  | readClock => exact .readClock
  | askRate => exact .of_silent fun m => ⟨.ok (.rate m.rate), m, fun _ => rfl, rfl, rfl⟩

/-! ### Operations with interrupts let in and kept out -/

/-- Run from the machine with interrupts let in and with interrupts kept out, the operation does the
same. Before it takes its guard it does `reads`. -/
structure Guarded (reads : List Event) (x : MachineM π α) (m : Machine π) : Prop where
  /-- The result is the same. -/
  result : (x (m.withInterrupts true)).1 = (x (m.withInterrupts false)).1
  /-- The machine is the same, apart from the flag and the trace. -/
  machine : ((x (m.withInterrupts true)).2.withInterrupts false).since [] =
    ((x (m.withInterrupts false)).2.withInterrupts false).since []
  /-- The events are the same, but with interrupts let in the flag is cleared first and set last.
  What is not nested in a wait is done with the flag clear, and leaves it alone. -/
  trace : ∃ inner,
    (x (m.withInterrupts false)).2.board.trace =
      m.board.trace ++ reads.map (⟨·, false, m.board.nesting⟩) ++ inner ∧
    (x (m.withInterrupts true)).2.board.trace =
      m.board.trace ++ reads.map (⟨·, true, m.board.nesting⟩) ++
        ⟨.masked, false, m.board.nesting⟩ :: inner ++
          [⟨.unmasked, true, (x (m.withInterrupts true)).2.board.nesting⟩] ∧
    ∀ e ∈ inner, m.board.nesting < e.nesting ∨
      e.nesting = m.board.nesting ∧ e.interrupts = false ∧ e.event.isToggle = false
  /-- When the operation comes back, the flag and the depth are as they were. -/
  back : ∀ flag a, (x (m.withInterrupts flag)).1 = .ok a →
    (x (m.withInterrupts flag)).2.board.interrupts = flag ∧
      (x (m.withInterrupts flag)).2.board.nesting = m.board.nesting

/-- An operation that does `reads` and then something sheltered under a guard. -/
theorem Sheltered.guarded {x y : MachineM π α} {reads : List Event} (hx : Sheltered x)
    (hy : ∀ flag, y (m.withInterrupts flag) = masked x ((m.withInterrupts flag).since
      ((reads.map (⟨·, flag, m.board.nesting⟩)).reverse ++ m.board.history))) :
    Guarded reads y m := by
  obtain ⟨outcome, after, news, hrun, hkeeps⟩ := hx (m.withInterrupts false) rfl
  have hshut := (hy false).trans (masked_of_shut hrun _)
  have hopen := (hy true).trans (masked_of_open hrun _)
  refine ⟨?_, ?_, ⟨news.reverse, ?_, ?_, fun e he => ?_⟩, ?_⟩
  · rw [hopen, hshut]
  · rw [hopen, hshut]
    rfl
  · rw [hshut]
    simp [Machine.since, Board.trace]
  · rw [hopen]
    simp [Machine.since, Machine.withInterrupts, Board.trace]
  · exact hkeeps.entries e (List.mem_reverse.mp he)
  · rintro (_ | _) a hok
    · rw [hshut] at hok ⊢
      exact (hkeeps.back a hok).symm
    · rw [hopen] at hok ⊢
      exact ⟨rfl, (hkeeps.back a hok).1⟩

section

variable [Policy π]

theorem guarded_sleepUntil {interludes : List (MachineM π (List Reply))}
    (h : ∀ x ∈ interludes, Tame x) (deadline : Nat) (m : Machine π) :
    Guarded [] (sleepUntil deadline interludes) m := by
  have hsheltered : Sheltered (fallAsleep deadline >>= sleepOn interludes) :=
    .bind (.fallAsleep deadline) (.sleepOn h)
  rw [sleepUntil_eq]
  exact hsheltered.guarded fun _ => rfl

/-- A sleep for a span reads the clock before it takes its guard. -/
theorem guarded_sleepFor {interludes : List (MachineM π (List Reply))}
    (h : ∀ x ∈ interludes, Tame x) (delay : Span) (m : Machine π) :
    Guarded [.clockRead] (sleepFor delay interludes) m := by
  have hsheltered : Sheltered
      (fallAsleep (deadlineAfter m.board.now delay) >>= sleepOn interludes) :=
    .bind (.fallAsleep _) (.sleepOn h)
  refine hsheltered.guarded fun flag => ?_
  rw [← sleepUntil_eq]
  rfl

/-- A request is answered, if the accounts are in order. -/
theorem exists_response {m : Machine π} (hsound : m.Sound) (r : Request) :
    ∃ response, (request r m).1 = .ok response := by
  have hguarded := (Machine.Passes.guarded m).sound hsound
  obtain ⟨response, after, hrespond, -⟩ := goes_of_act (act_serve r) hguarded trivial
  have hrequest : request r = masked (respond r : MachineM π Response) := rfl
  rw [hrequest, masked_apply, hrespond]
  exact ⟨response, rfl⟩

/-- From every machine, with interrupts let in or kept out, an operation of a thread goes the same
way: sleeps, whatever tame things happen during their waits, requests, and steps of any other kind.
Tame is all that the machine itself can do. In every run since boot a request comes back, and a
sleep comes back if only interrupts go on to come. -/
theorem services_guarded :
    (∀ during : List (List (Action π)), ∀ x ∈ Action.interludes during, Tame x) ∧
    (∀ interludes : List (MachineM π (List Reply)), (∀ x ∈ interludes, Tame x) →
      (∀ deadline m, Guarded [] (sleepUntil deadline interludes) m) ∧
      ∀ delay m, Guarded [.clockRead] (sleepFor delay interludes) m) ∧
    (∀ r m, Guarded [] (request r : MachineM π Response) m) ∧
    (∀ {α : Type} (step : Scheduler π → Logged (α × Scheduler π)) m,
      Guarded [] (withScheduler step) m) ∧
    ∀ (settings : Settings) (policy : π) (handoff : QueueId) (board : Board) (start : Machine π)
      (stages : List (Stage π)) (m : Machine π),
      Machine.boot settings policy handoff board = .ok start → Journey start stages m →
      (∀ r, ∃ response, (request r m).1 = .ok response) ∧
      ∀ during fault,
        (∀ deadline, (sleepUntil deadline (Action.interludes during) m).1 ≠
          .error (.fault fault)) ∧
        ∀ delay, (sleepFor delay (Action.interludes during) m).1 ≠ .error (.fault fault) := by
  refine ⟨fun during x hx => (Action.interludes_built during x hx).tame,
    fun interludes h => ⟨guarded_sleepUntil h, guarded_sleepFor h⟩, fun r m => ?_,
    fun step m => ?_, fun settings policy handoff board start stages m hboot h => ?_⟩
  · have hsheltered : Sheltered (respond r : MachineM π Response) := .respond r
    exact hsheltered.guarded fun _ => rfl
  · have hsheltered : Sheltered (enter step) := .enter step
    exact hsheltered.guarded fun _ => rfl
  · have hsound := h.sound (Machine.sound_boot hboot)
    refine ⟨exists_response hsound, fun during fault => ⟨fun deadline => ?_, fun delay => ?_⟩⟩
    · have hbuilt := sleepUntil_built deadline (Action.interludes_built during)
      exact (hbuilt.travels m hsound).2 fault
    · have hbuilt := sleepFor_built delay (Action.interludes_built during)
      exact (hbuilt.travels m hsound).2 fault

end

/-- A thread that is alone sleeps until 9, and at that time an interrupt comes that asks for the
ticks, under a guard of its own, and then wakes the sleeper. -/
theorem services_guarded_lone_sleeper :
    ∃ (m : Machine Fifo) (interludes : List (MachineM Fifo (List Reply))),
      (∀ x ∈ interludes, Tame x) ∧
      Guarded [] (sleepUntil 9 interludes) m ∧
      (sleepUntil 9 interludes (m.withInterrupts true)).1 = .ok (.ok ()) ∧
      (sleepUntil 9 interludes (m.withInterrupts true)).2.entriesSince m =
        [⟨.masked, false, 0⟩, ⟨.schedulerEntered, false, 0⟩, ⟨.waiting, false, 0⟩,
          ⟨.masked, false, 1⟩, ⟨.schedulerEntered, false, 1⟩, ⟨.unmasked, true, 1⟩,
          ⟨.schedulerEntered, true, 1⟩, ⟨.clockRead, true, 1⟩, ⟨.endOfInterrupt, true, 1⟩,
          ⟨.schedulerEntered, false, 0⟩, ⟨.unmasked, true, 0⟩] := by
  let during : List (List (Action Fifo)) :=
    [[.changeBoard (.clock 9), .request .ticks, .pulses 1]]
  let sleeper (m : Machine Fifo) : Machine Fifo := m.performAll [.request (.register {})]
  let run (m : Machine Fifo) :=
    sleepUntil 9 (Action.interludes during) ((sleeper m).withInterrupts true)
  obtain ⟨start, -, hrun⟩ := Machine.exists_boot
    { maxThreads := 1 } (⟨[], ⟨0⟩⟩ : Fifo) ⟨1⟩ {}
    (f := fun m => ((run m).1, (run m).2.entriesSince (sleeper m)))
    (a := (.ok (.ok ()), [⟨.masked, false, 0⟩, ⟨.schedulerEntered, false, 0⟩,
      ⟨.waiting, false, 0⟩, ⟨.masked, false, 1⟩, ⟨.schedulerEntered, false, 1⟩,
      ⟨.unmasked, true, 1⟩, ⟨.schedulerEntered, true, 1⟩, ⟨.clockRead, true, 1⟩,
      ⟨.endOfInterrupt, true, 1⟩, ⟨.schedulerEntered, false, 0⟩, ⟨.unmasked, true, 0⟩]))
    (by decide +kernel)
  obtain ⟨hresult, hentries⟩ := Prod.mk.inj hrun
  obtain ⟨htame, hsleeps, -⟩ := services_guarded (π := Fifo)
  exact ⟨sleeper start, Action.interludes during, htame during,
    (hsleeps _ (htame during)).1 9 (sleeper start), hresult, hentries⟩

end MachineM
end PulseKernel
