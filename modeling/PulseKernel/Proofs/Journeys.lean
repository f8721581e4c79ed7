/-
# Every run is a journey

Whatever the machine does is put together from a few blocks: a pulse, falling asleep,
the look that a waiting sleeper takes, the answer to a request, changes from outside,
and guards and waits around them (`MachineM.Built`). A block in which the scheduler
takes a step is a single stage, and guards and waits add stages that do not concern the
scheduler. So every run from a machine whose accounts are in order is a journey, and
none ends in a fault (`MachineM.Built.travels`).

Key definitions: `MachineM.fallAsleep`, `MachineM.look`, `MachineM.respond`,
`MachineM.Built`, `Machine.Serves`, `MachineM.Travels`.
Key theorems: `MachineM.pulse_apply`, `MachineM.sleepUntil_eq`, `MachineM.idle_cons`,
`Action.run_built`, `MachineM.Built.travels`, `Machine.serves_performAll`,
`Journey.performAll`.
-/
import PulseKernel.Machine.Action
import PulseKernel.Proofs.Stages

namespace PulseKernel
namespace MachineM

variable {π α β : Type}

/-! ### Blocks with a step of the scheduler -/

theorem read_apply (f : Board → α) (m : Machine π) : read f m = (.ok (f m.board), m) := rfl

theorem remark_append (first second : List Event) :
    (remark (first ++ second) : MachineM π Unit) = remark first >>= fun _ => remark second := by
  funext m
  rw [bind_of_ok _ (remark_apply first m)]
  simp [remark_apply, Board.noted_noted]

theorem recordServed_eq (r : Request) (response : Response) :
    (recordServed r response : MachineM π Unit) =
      remark (SchedulerStep.remarks (.call (.serve r)) (.served response)) := by
  unfold recordServed
  split
  · rfl
  · rfl
  · rename_i hregistered hreleased
    unfold SchedulerStep.remarks
    split
    · rename_i heq _
      cases heq
    · rename_i hstep hanswer
      cases hstep
      cases hanswer
      exact (hregistered _ _ rfl rfl).elim
    · rename_i hstep hanswer
      cases hstep
      cases hanswer
      exact (hreleased _ rfl rfl).elim
    · rfl

variable [Policy π]

/-- Puts the running thread to sleep and makes the switch, if one was planned. -/
def fallAsleep (deadline : Nat) : MachineM π (Except Refusal SleepTicket) := do
  let outcome ← enter (·.beginSleep deadline)
  switchIfPlanned (StepAnswer.slept outcome).plan?
  return outcome

/-- The waiting sleeper `me` looks at what it is to do, and gives way if it is to. -/
def look (me : ThreadId) : MachineM π IdleVerdict := do
  let verdict ← enter (·.reconsider me)
  switchIfPlanned (StepAnswer.decided verdict).plan?
  return verdict

/-- The answer to a request, with what there is to say about it on the trace. -/
def respond (r : Request) : MachineM π Response := do
  let response ← enter (·.serve r)
  recordServed r response
  return response

theorem act_beginSleep (deadline : Nat) :
    (act (.call (.beginSleep deadline)) : MachineM π StepAnswer) =
      .slept <$> fallAsleep deadline := by
  have htake : enter (·.take (.call (.beginSleep deadline))) =
      StepAnswer.slept <$> (enter (·.beginSleep deadline) : MachineM π _) := enter_map _ _
  simp only [act, htake, fallAsleep, map_eq_pure_bind, bind_assoc, pure_bind]
  rfl

theorem act_reconsider (me : ThreadId) :
    (act (.reconsider me) : MachineM π StepAnswer) = .decided <$> look me := by
  have htake : enter (·.take (.reconsider me)) =
      StepAnswer.decided <$> (enter (·.reconsider me) : MachineM π _) := enter_map _ _
  simp only [act, htake, look, map_eq_pure_bind, bind_assoc, pure_bind]
  rfl

theorem act_serve (r : Request) :
    (act (.call (.serve r)) : MachineM π StepAnswer) = .served <$> respond r := by
  have htake : enter (·.take (.call (.serve r))) =
      StepAnswer.served <$> (enter (·.serve r) : MachineM π _) := enter_map _ _
  simp only [act, htake, respond, recordServed_eq, map_eq_pure_bind, bind_assoc, pure_bind]
  rfl

/-- A pulse is one step, taken at the time that the board shows. -/
theorem pulse_apply (m : Machine π) :
    pulse m = (do
      let _ ← act (.call (.tick m.board.now m.board.booted))
      return ()) m := by
  have htake : enter (·.take (.call (.tick m.board.now m.board.booted))) =
      StepAnswer.pulsed <$> (enter (·.tick m.board.now m.board.booted) : MachineM π _) :=
    enter_map _ _
  rw [pulse, bind_of_ok _ (read_apply _ m), bind_of_ok _ (read_apply _ m)]
  simp only [act, htake, map_eq_pure_bind, bind_assoc, pure_bind, SchedulerStep.remarks,
    remark_append, bind_pure_unit]
  refine congrFun (congrArg _ (funext fun outcome => ?_)) m
  split <;> rfl

/-! ### Sleeps as blocks -/

/-- What is left to do for a thread that has fallen asleep: to wait, if the processor was not taken
from it. -/
def linger (interludes : List (MachineM π (List Reply))) (ticket : SleepTicket) :
    MachineM π Unit :=
  match ticket.plan with
  | some _ => return
  | none => do
    note (.idles ticket.thread)
    idle ticket.thread interludes

/-- What is left to do after falling asleep; a thread that was refused goes on at once. -/
def sleepOn (interludes : List (MachineM π (List Reply))) :
    Except Refusal SleepTicket → MachineM π (Except Refusal Unit)
  | .error refusal => return .error refusal
  | .ok ticket => do
    linger interludes ticket
    return .ok ()

/-- A sleep is refused only if the thread could not fall asleep. -/
theorem sleepOn_eq_refused {interludes : List (MachineM π (List Reply))}
    {outcome : Except Refusal SleepTicket} {m : Machine π} {refusal : Refusal} :
    (sleepOn interludes outcome m).1 = .ok (.error refusal) ↔ outcome = .error refusal := by
  cases outcome with
  | error r =>
    show (Except.ok (Except.error r) : Except Halt (Except Refusal Unit)) = _ ↔ _
    simp
  | ok ticket =>
    simp only [sleepOn, reduceCtorEq, iff_false]
    rcases h : linger interludes ticket m with ⟨_ | _, after⟩
    · rw [bind_of_error _ h]
      simp
    · rw [bind_of_ok _ h]
      intro hend
      cases Except.ok.inj hend

theorem sleepUntil_eq (deadline : Nat) (interludes : List (MachineM π (List Reply))) :
    sleepUntil deadline interludes = masked (fallAsleep deadline >>= sleepOn interludes) := by
  unfold sleepUntil
  congr 1
  simp only [fallAsleep, bind_assoc]
  congr 1
  funext outcome
  cases outcome with
  | error refusal => rfl
  | ok ticket =>
    obtain ⟨t, plan⟩ := ticket
    cases plan <;> rfl

theorem idle_cons (me : ThreadId) (interlude : MachineM π (List Reply))
    (rest : List (MachineM π (List Reply))) :
    idle me (interlude :: rest) = do
      wait interlude
      match ← look me with
      | .wait => idle me rest
      | _ => return () := by
  rw [idle]
  congr 1
  funext _
  simp only [look, bind_assoc]
  congr 1
  funext verdict
  cases verdict with
  | giveWay plan =>
    show switchTo plan = (switchTo plan >>= fun _ => pure () >>= fun _ => pure ())
    simp
  | goOn | wait => rfl

/-! ### What computations are built from -/

/-- The computation is put together from blocks, guards and waits. -/
inductive Built : {α : Type} → MachineM π α → Prop where
  | pure {α : Type} (a : α) : Built (pure a)
  | bind {α β : Type} {x : MachineM π α} {f : α → MachineM π β} :
      Built x → (∀ a, Built (f a)) → Built (x >>= f)
  | masked {α : Type} {x : MachineM π α} : Built x → Built (masked x)
  | wait {interlude : MachineM π (List Reply)} : Built interlude → Built (wait interlude)
  | waitInVain {α : Type} : Built (waitInVain : MachineM π α)
  | pulse : Built pulse
  | fallAsleep (deadline : Nat) : Built (fallAsleep deadline)
  | look (me : ThreadId) : Built (look me)
  | respond (r : Request) : Built (respond r)
  | govern (change : π → π) : Built (govern change)
  | changeBoard (change : Board.Change) : Built (changeBoard (·.apply change))
  | note (n : Notice) : Built (note n)
  | readClock : Built readClock
  | askRate : Built (fun m => (.ok (.rate m.rate), m) : MachineM π Reply)

theorem pulses_built : ∀ n : Nat, Built (pulses n : MachineM π Unit)
  | 0 => .pure ()
  | n + 1 => .bind .pulse fun _ => pulses_built n

theorem idle_built (me : ThreadId) : ∀ {interludes : List (MachineM π (List Reply))},
    (∀ x ∈ interludes, Built x) → Built (idle me interludes)
  | [], _ => .waitInVain
  | interlude :: rest, h => by
    rw [idle_cons]
    refine .bind (.wait (h _ List.mem_cons_self)) fun _ => .bind (.look me) fun verdict => ?_
    cases verdict with
    | wait => exact idle_built me fun x hx => h x (List.mem_cons_of_mem _ hx)
    | goOn | giveWay => exact .pure ()

theorem linger_built {interludes : List (MachineM π (List Reply))}
    (h : ∀ x ∈ interludes, Built x) (ticket : SleepTicket) : Built (linger interludes ticket) := by
  unfold linger
  split
  · exact .pure ()
  · exact .bind (.note _) fun _ => idle_built _ h

theorem sleepOn_built {interludes : List (MachineM π (List Reply))}
    (h : ∀ x ∈ interludes, Built x) (outcome : Except Refusal SleepTicket) :
    Built (sleepOn interludes outcome) := by
  cases outcome with
  | error refusal => exact .pure _
  | ok ticket => exact .bind (linger_built h ticket) fun _ => .pure _

theorem sleepUntil_built (deadline : Nat) {interludes : List (MachineM π (List Reply))}
    (h : ∀ x ∈ interludes, Built x) : Built (sleepUntil deadline interludes) := by
  rw [sleepUntil_eq]
  exact .masked (.bind (.fallAsleep deadline) (sleepOn_built h))

theorem sleepFor_built (delay : Span) {interludes : List (MachineM π (List Reply))}
    (h : ∀ x ∈ interludes, Built x) : Built (sleepFor delay interludes) :=
  .bind .readClock fun _ => sleepUntil_built _ h

end MachineM

namespace Action

open MachineM

variable {π : Type} [Policy π]

mutual

theorem run_built : ∀ action : Action π, Built action.run
  | .pulses count => by
    rw [run]
    exact .bind (pulses_built count) fun _ => .pure _
  | .sleepUntil deadline during => by
    rw [run]
    exact .bind (sleepUntil_built deadline (interludes_built during)) fun _ => .pure _
  | .sleepFor delay during => by
    rw [run]
    exact .bind (sleepFor_built delay (interludes_built during)) fun _ => .pure _
  | .request r => by
    rw [run]
    exact .bind (.masked (.respond r)) fun _ => .pure _
  | .askRate => .askRate
  | .adjustPolicy change => by
    rw [run]
    exact .bind (.masked (.govern change)) fun _ => .pure _
  | .changeBoard change => by
    rw [run]
    exact .bind (.changeBoard change) fun _ => .pure _

theorem runAll_built : ∀ actions : List (Action π), Built (runAll actions)
  | [] => .pure []
  | action :: rest => by
    rw [runAll]
    exact .bind (run_built action) fun _ => .bind (runAll_built rest) fun _ => .pure _

theorem interludes_built : ∀ during : List (List (Action π)), ∀ x ∈ interludes during, Built x
  | [] => by simp [interludes]
  | actions :: rest => by
    rw [interludes]
    exact List.forall_mem_cons.mpr ⟨runAll_built actions, interludes_built rest⟩

end

end Action

/-! ### Journeys of computations -/

section

variable {π α β : Type} [Policy π] {m m' m'' : Machine π} {deed : Deed}

/-- From the one machine to the other leads a journey, with operations of the machine only. -/
def Machine.Serves (m m' : Machine π) : Prop :=
  ∃ stages, Journey m stages m' ∧ ∀ stage ∈ stages, stage.deed.isService = true

namespace Machine.Serves

theorem refl (m : Machine π) : m.Serves m := ⟨[], .start, by simp⟩

theorem trans (h : m.Serves m') (h' : m'.Serves m'') : m.Serves m'' := by
  obtain ⟨first, hfirst, hservice⟩ := h
  obtain ⟨second, hsecond, hservice'⟩ := h'
  exact ⟨first ++ second, hfirst.trans hsecond, List.forall_mem_append.mpr ⟨hservice, hservice'⟩⟩

theorem of_goes (h : m.Goes deed m') (hservice : deed.isService = true) : m.Serves m' :=
  ⟨_, .of_goes h, by simpa using hservice⟩

theorem of_passes (h : m.Passes m') : m.Serves m' := of_goes (.aside h) rfl

theorem sound (h : m.Serves m') (hsound : m.Sound) : m'.Sound := by
  obtain ⟨stages, hjourney, -⟩ := h
  exact hjourney.sound hsound

end Machine.Serves

/-- The machine with an interrupt guard held. -/
def Machine.guarded {π : Type} (m : Machine π) : Machine π :=
  { m with board := (InterruptGuard.acquire m.board).2 }

/-- The machine after a guard has been given back. -/
def Machine.released {π : Type} (m : Machine π) (g : InterruptGuard) : Machine π :=
  { m with board := g.release m.board }

omit [Policy π] in
theorem MachineM.masked_apply (x : MachineM π α) (m : Machine π) :
    masked x m =
      ((x m.guarded).1, (x m.guarded).2.released (InterruptGuard.acquire m.board).1) := rfl

namespace Machine.Passes

omit [Policy π] in
/-- Nothing is put on the trace. -/
theorem of_same (hscheduler : m'.scheduler = m.scheduler)
    (hhistory : m'.board.history = m.board.history) : m.Passes m' :=
  ⟨hscheduler, [], by simp [Board.trace, hhistory], by simp⟩

omit [Policy π] in
/-- One event that does not concern the scheduler is put on the trace. -/
theorem of_entry {e : Entry} (hscheduler : m'.scheduler = m.scheduler)
    (hhistory : m'.board.history = e :: m.board.history) (haside : e.event.isAside = true) :
    m.Passes m' :=
  ⟨hscheduler, [e], by simp [Board.trace, hhistory], by simpa using haside⟩

omit [Policy π] in
theorem guarded (m : Machine π) : m.Passes m.guarded := by
  cases hflag : m.board.interrupts with
  | false => exact of_same rfl (by simp [Machine.guarded, InterruptGuard.acquire, hflag])
  | true =>
    refine of_entry (e := ⟨.masked, false, m.board.nesting⟩) rfl ?_ rfl
    simp [Machine.guarded, InterruptGuard.acquire, hflag, Board.mask, Board.record]

omit [Policy π] in
theorem released (m : Machine π) (g : InterruptGuard) : m.Passes (m.released g) := by
  cases hflag : g.wasEnabled with
  | false => exact of_same rfl (by simp [Machine.released, InterruptGuard.release, hflag])
  | true =>
    refine of_entry (e := ⟨.unmasked, true, m.board.nesting⟩) rfl ?_ rfl
    simp [Machine.released, InterruptGuard.release, hflag, Board.unmask, Board.record]

omit [Policy π] in
theorem apply (change : Board.Change) (m : Machine π) :
    m.Passes { m with board := m.board.apply change } :=
  of_same rfl (by cases change <;> rfl)

end Machine.Passes

namespace MachineM

/-- From a machine whose accounts are in order, the computation is a journey and does not end in a
fault. -/
def Travels (x : MachineM π α) : Prop :=
  ∀ m : Machine π, m.Sound → m.Serves (x m).2 ∧ ∀ fault, (x m).1 ≠ .error (.fault fault)

/-- A block with a step of the scheduler is a stage. -/
theorem goes_of_act {x : MachineM π α} {step : SchedulerStep} {g : α → StepAnswer}
    (hx : act step = g <$> x) (hsound : m.Sound) (hfits : step.Fits m.board) :
    ∃ a m', x m = (.ok a, m') ∧ m.Goes (.acted step (g a)) m' := by
  obtain ⟨answer, s', L, naps, naps', -, hact⟩ := hsound.act step
  have hgoes := Machine.Goes.acted hact hfits
  rw [hx, map_eq_pure_bind] at hact
  obtain ⟨a, m', ha, hend⟩ := bind_apply_eq_ok.mp hact
  obtain ⟨hanswer, hm⟩ := Prod.mk.inj hend
  obtain rfl := Except.ok.inj hanswer
  exact ⟨a, m', ha, hm ▸ hgoes⟩

namespace Travels

theorem bind {x : MachineM π α} {f : α → MachineM π β} (hx : Travels x)
    (hf : ∀ a, Travels (f a)) : Travels (x >>= f) := by
  intro m hsound
  obtain ⟨hserves, hfault⟩ := hx m hsound
  rcases h : x m with ⟨_ | a, between⟩
  · rw [bind_of_error f h]
    rw [h] at hserves hfault
    exact ⟨hserves, fun fault hhalt => hfault fault (congrArg _ (Except.error.inj hhalt))⟩
  · rw [bind_of_ok f h]
    rw [h] at hserves
    obtain ⟨hserves', hfault'⟩ := hf a between (hserves.sound hsound)
    exact ⟨hserves.trans hserves', hfault'⟩

/-- A computation that does not concern the scheduler. -/
theorem of_passes {x : MachineM π α} (h : ∀ m : Machine π, m.Passes (x m).2)
    (hfault : ∀ m fault, (x m).1 ≠ .error (.fault fault)) : Travels x :=
  fun m _ => ⟨.of_passes (h m), hfault m⟩

/-- A block with a step of the scheduler. -/
theorem of_act {x : MachineM π α} {step : SchedulerStep} {g : α → StepAnswer}
    (hx : act step = g <$> x) (hfits : ∀ b, step.Fits b) : Travels x := by
  intro m hsound
  obtain ⟨a, m', ha, hgoes⟩ := goes_of_act hx hsound (hfits _)
  rw [ha]
  exact ⟨.of_goes hgoes rfl, by simp⟩

theorem masked {x : MachineM π α} (hx : Travels x) : Travels (masked x) := by
  intro m hsound
  have hguarded := Machine.Passes.guarded m
  obtain ⟨hserves, hfault⟩ := hx _ (hguarded.sound hsound)
  rw [masked_apply]
  exact ⟨((Machine.Serves.of_passes hguarded).trans hserves).trans (.of_passes (.released _ _)),
    hfault⟩

theorem wait {interlude : MachineM π (List Reply)} (h : Travels interlude) :
    Travels (wait interlude) := by
  have hwaiting : Travels (record .waiting : MachineM π Unit) :=
    .of_passes (fun m => .of_entry (e := m.board.entry .waiting) rfl rfl rfl) (by simp [record,
      MachineM.changeBoard])
  have hquiet : ∀ f : Board → Board, (∀ b, (f b).history = b.history) →
      Travels (MachineM.changeBoard f : MachineM π Unit) := fun f hf =>
    .of_passes (fun m => .of_same rfl (hf _)) (by simp [MachineM.changeBoard])
  refine .bind hwaiting fun _ => .bind ?_ fun before => ?_
  · exact .of_passes (fun m => .of_same rfl rfl) (by simp [read])
  refine .bind (hquiet _ fun _ => rfl) fun _ => .bind h fun replies => ?_
  refine .bind (hquiet _ fun _ => rfl) fun _ => ?_
  exact .of_passes (fun m => .of_same rfl rfl) (by simp)

end Travels

/-- Whatever is built from blocks, guards and waits is a journey and does not end in a fault. -/
theorem Built.travels {x : MachineM π α} (h : Built x) : Travels x := by
  induction h with
  | pure a => exact .of_passes (fun m => .of_same rfl rfl) fun m fault h => by cases h
  | bind _ _ ihx ihf => exact ihx.bind ihf
  | masked _ ih => exact ih.masked
  | wait _ ih => exact ih.wait
  | waitInVain =>
    exact .of_passes (fun m => .of_entry (e := m.board.entry .waiting) rfl rfl rfl)
      fun m fault h => by cases h
  | pulse =>
    intro m hsound
    have hfits : (SchedulerStep.call (.tick m.board.now m.board.booted)).Fits m.board := ⟨rfl, rfl⟩
    obtain ⟨answer, s', L, naps, naps', -, hact⟩ :=
      hsound.act (.call (.tick m.board.now m.board.booted))
    rw [pulse_apply, bind_of_ok _ hact]
    exact ⟨.of_goes (.acted hact hfits) rfl, fun fault h => by cases h⟩
  | fallAsleep deadline => exact .of_act (act_beginSleep deadline) fun _ => trivial
  | look me => exact .of_act (act_reconsider me) fun _ => trivial
  | respond r => exact .of_act (act_serve r) fun _ => trivial
  | govern change =>
    exact fun m _ => ⟨.of_goes (.governed change) rfl, fun fault h => by cases h⟩
  | changeBoard change => exact .of_passes (.apply change) fun m fault h => by cases h
  | note n => exact .of_passes (fun m => .of_same rfl rfl) fun m fault h => by cases h
  | readClock =>
    exact .of_passes (fun m => .of_entry (e := m.board.entry .clockRead) rfl rfl rfl)
      fun m fault h => by cases h
  | askRate => exact .of_passes (fun m => .of_same rfl rfl) fun m fault h => by cases h

end MachineM

/-! ### Journeys from boot -/

namespace Machine

omit [Policy π] in
theorem boot_eq_ok {settings : Settings} {policy : π} {handoff : QueueId} {board : Board}
    (h : boot settings policy handoff board = .ok m) :
    settings.check = .ok () ∧ m.scheduler = .ofSettings settings policy handoff := by
  cases hcheck : settings.check with
  | error e =>
    rw [boot_of_rejected policy handoff board hcheck] at h
    cases h
  | ok =>
    obtain ⟨-, -, ⟨rate, hrate⟩, -⟩ := Settings.check_eq_ok.mp hcheck
    rw [boot_of_accepted policy handoff board hcheck hrate] at h
    obtain rfl := Except.ok.inj h
    exact ⟨rfl, rfl⟩

omit [Policy π] in
theorem sound_boot {settings : Settings} {policy : π} {handoff : QueueId} {board : Board}
    (h : boot settings policy handoff board = .ok m) : m.Sound := by
  obtain ⟨hcheck, hscheduler⟩ := boot_eq_ok h
  exact ⟨_, [], hscheduler ▸ Scheduler.sound_ofSettings hcheck policy handoff⟩

omit [Policy π] in
/-- What the settings give at boot can be computed from them. -/
theorem exists_boot (settings : Settings) (policy : π) (handoff : QueueId) (board : Board)
    {f : Machine π → α} {a : α} (h : (boot settings policy handoff board).map f = .ok a) :
    ∃ m, boot settings policy handoff board = .ok m ∧ f m = a := by
  cases hboot : boot settings policy handoff board with
  | error e =>
    rw [hboot] at h
    cases h
  | ok m =>
    rw [hboot] at h
    exact ⟨m, rfl, Except.ok.inj h⟩

theorem serves_perform (hsound : m.Sound) (action : Action π) : m.Serves (m.perform action).2 := by
  have hsurface : m.Serves { m with board := { m.board with nesting := 0 } } :=
    .of_passes (.of_same rfl rfl)
  exact hsurface.trans (action.run_built.travels _ (hsurface.sound hsound)).1

/-- Whatever is performed on a machine whose accounts are in order is a journey. -/
theorem serves_performAll : ∀ (actions : List (Action π)) {m : Machine π}, m.Sound →
    m.Serves (m.performAll actions)
  | [], m, _ => .refl m
  | action :: rest, m, hsound => by
    have hfirst := serves_perform hsound action
    exact hfirst.trans (serves_performAll rest (hfirst.sound hsound))

end Machine

/-- A run can be gone on with by any actions. -/
theorem Journey.performAll {start : Machine π} {stages : List (Stage π)}
    (h : Journey start stages m) (hsound : m.Sound)
    (hservice : ∀ c ∈ stages, c.deed.isService = true) (actions : List (Action π)) :
    ∃ later, Journey start (stages ++ later) (m.performAll actions) ∧
      ∀ c ∈ stages ++ later, c.deed.isService = true := by
  obtain ⟨later, hlater, hservice'⟩ := Machine.serves_performAll actions hsound
  exact ⟨later, h.trans hlater, List.forall_mem_append.mpr ⟨hservice, hservice'⟩⟩

end
end PulseKernel
