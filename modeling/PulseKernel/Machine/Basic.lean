/-
# The machine

The machine is the board, the rate its timer is programmed to, and the
scheduler. Its computations change the machine, and they give a value or halt:
because a step ended in a fault, or because the processor was halted and no
interrupt ever came. A computation that halts keeps what it has changed.

Key definitions: `Machine`, `Machine.notices`, `Halt`, `MachineM`, `MachineM.enter`,
`MachineM.masked`, `MachineM.switchTo`, `MachineM.wait`.
Key theorems: `MachineM.bind_of_ok`, `MachineM.bind_of_error`,
`MachineM.bind_apply_eq_ok`.
-/
import PulseKernel.Machine.Guard
import PulseKernel.Scheduler.Request

namespace PulseKernel

/-- The answer of one step that was run on the machine. -/
inductive Reply where
  /-- The step answers nothing. -/
  | done
  /-- A sleep is over, or was refused. -/
  | slept (outcome : Except Refusal Unit)
  /-- The scheduler's answer to a request. -/
  | response (response : Response)
  | rate (rate : PulseRate)

/-- The kernel on its board; `π` is the type of the policy. -/
structure Machine (π : Type) where
  board : Board
  rate : PulseRate
  scheduler : Scheduler π
  /-- What was told to the log, the last notice first. -/
  told : List Notice := []
  /-- What was answered during each wait that is over, in the order in which they ended. -/
  waits : List (List Reply) := []

/-- What was told to the log, in order. -/
def Machine.notices {π : Type} (m : Machine π) : List Notice := m.told.reverse

/-- Why a computation does not come to its end. -/
inductive Halt where
  /-- The processor waits for an interrupt that never comes. -/
  | stalled
  | fault (fault : Fault)
deriving DecidableEq, Repr

/-- A computation on the machine. -/
def MachineM (π α : Type) : Type := Machine π → Except Halt α × Machine π

namespace MachineM

variable {π α β γ : Type}

/-- The value, with the machine as it is. -/
protected def pure (a : α) : MachineM π α := fun m => (.ok a, m)

/-- One computation after the other; a halt skips the rest. -/
protected def bind (x : MachineM π α) (f : α → MachineM π β) : MachineM π β := fun m =>
  match x m with
  | (.ok a, m) => f a m
  | (.error halt, m) => (.error halt, m)

instance : Monad (MachineM π) where
  pure := MachineM.pure
  bind := MachineM.bind

/-- Halts. -/
def halt (h : Halt) : MachineM π α := fun m => (.error h, m)

/-- Reads something off the board. -/
def read (f : Board → α) : MachineM π α := fun m => (.ok (f m.board), m)

/-- Changes the board. -/
def changeBoard (f : Board → Board) : MachineM π Unit := fun m =>
  (.ok (), { m with board := f m.board })

/-- Adds an event to the trace of the board. -/
def record (event : Event) : MachineM π Unit := changeBoard (·.record event)

/-- Tells the log something. -/
def note (n : Notice) : MachineM π Unit := fun m =>
  (.ok (), { m with told := n :: m.told })

/-- Reads the monotonic clock. -/
def readClock : MachineM π Nat := do
  record .clockRead
  read (·.now)

/-- Runs one step of the scheduler. -/
def enter (step : Scheduler π → Logged (α × Scheduler π)) : MachineM π α := fun m =>
  let entered := m.board.record .schedulerEntered
  let outcome := step m.scheduler
  let m := { m with board := entered, told := outcome.notices.reverse ++ m.told }
  match outcome.result with
  | .ok (a, scheduler) => (.ok a, { m with scheduler := scheduler })
  | .error fault => (.error (.fault fault), m)

/-- Runs a computation under an interrupt guard, which is given back also if it halts. -/
def masked (x : MachineM π α) : MachineM π α := fun m =>
  let (guard, board) := InterruptGuard.acquire m.board
  let (outcome, m) := x { m with board := board }
  (outcome, { m with board := guard.release m.board })

/-- The context that a switch leaves behind for the thread that was switched away from. The board
marks every switch by moving the stack pointer up by a word. -/
def leftBehind (c : SavedContext) : SavedContext := ⟨c.stackPointer + 8⟩

/-- Makes a planned switch. A plan is carried out at once, while both of its threads are
registered. -/
def switchTo (plan : SwitchPlan) : MachineM π Unit := fun m =>
  let threads := m.scheduler.threads
  match threads.context plan.source, threads.context plan.target with
  | .ok source, .ok target =>
    match threads.setContext plan.source (leftBehind source) with
    | .ok threads =>
      let board := m.board.record (.switched plan source target)
      (.ok (), { m with board := board, scheduler := { m.scheduler with threads := threads } })
    | .error _ => (.ok (), m)
  | _, _ => (.ok (), m)

/-- Makes a switch if one is planned. -/
def switchIfPlanned : Option SwitchPlan → MachineM π Unit
  | some plan => switchTo plan
  | none => pure ()

/-- Halts the processor while `interlude` happens, with interrupts let in, and keeps the answers
given meanwhile. After it the flag is as it was. -/
def wait (interlude : MachineM π (List Reply)) : MachineM π Unit := do
  record .waiting
  let before ← read id
  changeBoard fun b => { b with interrupts := true, nesting := b.nesting + 1 }
  let replies ← interlude
  changeBoard fun b => { b with interrupts := before.interrupts, nesting := before.nesting }
  fun m => (.ok (), { m with waits := m.waits ++ [replies] })

/-- Halts the processor for ever. -/
def waitInVain : MachineM π α := do
  record .waiting
  halt .stalled

theorem bind_eq (x : MachineM π α) (f : α → MachineM π β) : (x >>= f) = x.bind f := rfl

theorem bind_of_ok {x : MachineM π α} {m after : Machine π} {a : α} (f : α → MachineM π β)
    (h : x m = (.ok a, after)) : (x >>= f) m = f a after := by
  simp [bind_eq, MachineM.bind, h]

theorem bind_of_error {x : MachineM π α} {m after : Machine π} {e : Halt} (f : α → MachineM π β)
    (h : x m = (.error e, after)) : (x >>= f) m = (.error e, after) := by
  simp [bind_eq, MachineM.bind, h]

/-- Two computations come to an end together exactly if both do. -/
theorem bind_apply_eq_ok {x : MachineM π α} {f : α → MachineM π β} {m after : Machine π} {b : β} :
    (x >>= f) m = (.ok b, after) ↔
      ∃ a between, x m = (.ok a, between) ∧ f a between = (.ok b, after) := by
  rcases h : x m with ⟨_ | a, between⟩
  · simp [bind_of_error f h]
  · rw [bind_of_ok f h]
    refine ⟨fun hf => ⟨a, between, rfl, hf⟩, ?_⟩
    rintro ⟨_, _, ⟨⟩, hf⟩
    exact hf

instance : LawfulMonad (MachineM π) :=
  LawfulMonad.mk' (MachineM π)
    (fun x => by
      funext m
      show x.bind MachineM.pure m = x m
      unfold MachineM.bind
      rcases x m with ⟨_ | a, after⟩ <;> rfl)
    (fun _ _ => rfl)
    (fun x f g => by
      funext m
      show (x.bind f).bind g m = x.bind (fun a => (f a).bind g) m
      simp only [MachineM.bind]
      rcases x m with ⟨_ | a, after⟩ <;> rfl)

end MachineM

end PulseKernel
