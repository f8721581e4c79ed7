/-
# Guards nest

A guard remembers one thing: whether it found the interrupt flag set. If guards are given back in
the opposite order to that in which they were made, only the outermost one can have found it set.
That guard keeps the flag clear for as long as it is held, so every guard that is made meanwhile
finds it clear, and leaves it so when it is given back (`InterruptGuard.Nested`).

So changes of the flag are called for by outermost guards only, when they are made and when they
are given back, and there are none if the flag was clear at first. What else happens between these
steps is free, as long as it leaves the flag alone (`Board.Work`).

Key definitions: `Board.toggles`, `Board.Turns`, `Board.Work`, `GuardStep`,
`GuardStep.WellBracketed`, `GuardStep.calls`, `Shelter.run?`, `InterruptGuard.Nested`,
`Shelter.Tight`.
Key theorems: `InterruptGuard.Nested.push`, `InterruptGuard.Nested.pop`, `Shelter.nested_step`,
`Shelter.exists_course`, `Shelter.guards_nest`.
-/
import Mathlib.Data.List.Chain
import Mathlib.Data.List.Infix
import PulseKernel.Proofs.InterruptMasking

namespace PulseKernel

/-! ### Changes of the interrupt flag -/

/-- Changes of a flag from its first value to its last, each of them to the other side. -/
inductive Event.InTurns : Bool → List Event → Bool → Prop where
  | nil (flag : Bool) : InTurns flag [] flag
  | masked {calls : List Event} {last : Bool} (h : InTurns false calls last) :
      InTurns true (.masked :: calls) last
  | unmasked {calls : List Event} {last : Bool} (h : InTurns true calls last) :
      InTurns false (.unmasked :: calls) last

namespace Event.InTurns

variable {first between last : Bool} {calls calls' : List Event}

theorem append (h : InTurns first calls between) (h' : InTurns between calls' last) :
    InTurns first (calls ++ calls') last := by
  induction h with
  | nil flag => exact h'
  | masked _ ih => exact .masked (ih h')
  | unmasked _ ih => exact .unmasked (ih h')

theorem head_eq (h : InTurns first calls last) :
    ∀ call ∈ calls.head?, call = if first then .masked else .unmasked := by
  cases h <;> simp

theorem isChain (h : InTurns first calls last) : calls.IsChain (· ≠ ·) := by
  induction h with
  | nil flag => exact List.isChain_nil
  | masked h ih =>
    refine List.isChain_cons.mpr ⟨fun call hcall => ?_, ih⟩
    simp [h.head_eq call hcall]
  | unmasked h ih =>
    refine List.isChain_cons.mpr ⟨fun call hcall => ?_, ih⟩
    simp [h.head_eq call hcall]

end Event.InTurns

namespace Board

variable {b between after : Board} {calls calls' : List Event}

/-- The changes of the interrupt flag that are on the trace, in order. -/
def toggles (b : Board) : List Event := (b.trace.map (·.event)).filter Event.isToggle

theorem toggles_record (b : Board) (event : Event) :
    (b.record event).toggles = b.toggles ++ if event.isToggle then [event] else [] := by
  cases h : event.isToggle <;> simp [toggles, h]

/-- From one board to another the flag was changed by these calls. -/
structure Turns (b : Board) (calls : List Event) (after : Board) : Prop where
  toggles_eq : after.toggles = b.toggles ++ calls
  inTurns : Event.InTurns b.interrupts calls after.interrupts

namespace Turns

theorem refl (b : Board) : b.Turns [] b := ⟨(List.append_nil _).symm, .nil _⟩

theorem trans (h : b.Turns calls between) (h' : between.Turns calls' after) :
    b.Turns (calls ++ calls') after where
  toggles_eq := by rw [h'.toggles_eq, h.toggles_eq, List.append_assoc]
  inTurns := h.inTurns.append h'.inTurns

theorem mask (h : b.interrupts = true) : b.Turns [.masked] b.mask where
  toggles_eq := toggles_record { b with interrupts := false } .masked
  inTurns := by rw [h]; exact .masked (.nil false)

theorem unmask (h : b.interrupts = false) : b.Turns [.unmasked] b.unmask where
  toggles_eq := toggles_record { b with interrupts := true } .unmasked
  inTurns := by rw [h]; exact .unmasked (.nil true)

end Turns

/-- Something that is done with a board and leaves the interrupt flag alone. -/
structure Work where
  run : Board → Board
  interrupts_run : ∀ b, (run b).interrupts = b.interrupts
  toggles_run : ∀ b, (run b).toggles = b.toggles

/-- Any event that is not a change of the flag. -/
def Work.ofEvent (event : Event) (h : event.isToggle = false) : Work where
  run b := b.record event
  interrupts_run _ := rfl
  toggles_run b := by simp [toggles_record, h]

theorem Turns.work (work : Work) (b : Board) : b.Turns [] (work.run b) where
  toggles_eq := by rw [work.toggles_run, List.append_nil]
  inTurns := by rw [work.interrupts_run]; exact .nil _

end Board

/-! ### Brackets -/

/-- A step of a thread that uses guards. -/
inductive GuardStep where
  /-- A guard is made. -/
  | acquire
  /-- Of the guards that are held, the one made last is given back. -/
  | release
  | work (work : Board.Work)

namespace GuardStep

def isAcquire : GuardStep → Bool
  | acquire => true
  | _ => false

def isRelease : GuardStep → Bool
  | release => true
  | _ => false

/-- At no time were more guards given back than made. In the end some may still be held. -/
def WellBracketed (steps : List GuardStep) : Prop :=
  ∀ done ∈ steps.inits, done.countP isRelease ≤ done.countP isAcquire

instance (steps : List GuardStep) : Decidable (WellBracketed steps) :=
  inferInstanceAs (Decidable (∀ done ∈ steps.inits, _ ≤ _))

theorem WellBracketed.of_mem_inits {steps done : List GuardStep} (h : WellBracketed steps)
    (hdone : done ∈ steps.inits) : WellBracketed done := by
  intro before hbefore
  have hprefix := ((List.mem_inits _ _).mp hbefore).trans ((List.mem_inits _ _).mp hdone)
  exact h before ((List.mem_inits _ _).mpr hprefix)

/-- The changes of the flag that a step calls for, while so many guards are held and the flag was
as given when there was none: an outermost guard has it cleared when it is made, and set when it is
given back. -/
def calls (flag : Bool) (held : Nat) : GuardStep → List Event
  | acquire => if flag = true ∧ held = 0 then [.masked] else []
  | release => if flag = true ∧ held = 1 then [.unmasked] else []
  | work _ => []

theorem calls_of_clear (held : Nat) (step : GuardStep) : step.calls false held = [] := by
  cases step <;> simp [calls]

end GuardStep

/-- A board and the guards that are held on it, the one made last first. -/
structure Shelter where
  board : Board
  held : List InterruptGuard := []

namespace Shelter

/-- What a step leads to. No guard is given back if none is held. -/
def step? (s : Shelter) : GuardStep → Option Shelter
  | .acquire =>
    let (guard, board) := InterruptGuard.acquire s.board
    some ⟨board, guard :: s.held⟩
  | .release =>
    match s.held with
    | [] => none
    | guard :: rest => some ⟨guard.release s.board, rest⟩
  | .work work => some ⟨work.run s.board, s.held⟩

/-- What steps lead to, one after the other. -/
def run? (s : Shelter) (steps : List GuardStep) : Option Shelter := steps.foldlM step? s

theorem run?_concat (s : Shelter) (steps : List GuardStep) (step : GuardStep) :
    s.run? (steps ++ [step]) = (s.run? steps).bind (·.step? step) := by
  simp [run?, List.foldlM_append]

end Shelter

/-! ### The stack of guards -/

namespace InterruptGuard

/-- The guards that are held, the one made last first, and the flag with them, where it was `first`
when there was no guard. -/
inductive Nested (first : Bool) : List InterruptGuard → Bool → Prop where
  /-- There is no guard. -/
  | free : Nested first [] first
  /-- The outermost guard found the flag as it was at first. -/
  | outermost : Nested first [⟨first⟩] false
  /-- A guard inside of another one found the flag clear. -/
  | inner {guard : InterruptGuard} {rest : List InterruptGuard}
      (h : Nested first (guard :: rest) false) : Nested first (⟨false⟩ :: guard :: rest) false

theorem interrupts_release (g : InterruptGuard) {b : Board} (h : b.interrupts = false) :
    (g.release b).interrupts = g.wasEnabled := by
  cases hg : g.wasEnabled <;> simp [release, hg, h]

theorem turns_acquire (b : Board) :
    b.Turns (if b.interrupts then [.masked] else []) (acquire b).2 := by
  unfold acquire
  cases h : b.interrupts with
  | true => exact .mask h
  | false => exact .refl b

theorem turns_release (g : InterruptGuard) {b : Board} (h : b.interrupts = false) :
    b.Turns (if g.wasEnabled then [.unmasked] else []) (g.release b) := by
  unfold release
  cases g.wasEnabled with
  | true => exact .unmask h
  | false => exact .refl b

namespace Nested

variable {first flag : Bool} {guard : InterruptGuard} {held : List InterruptGuard}

/-- The flag is set exactly if it was set at first and there is no guard. -/
theorem flag_iff (h : Nested first held flag) : flag = true ↔ first = true ∧ held = [] := by
  cases h <;> simp

/-- A new guard finds the flag as it is. -/
theorem push (h : Nested first held flag) : Nested first (⟨flag⟩ :: held) false := by
  cases h with
  | free => exact .outermost
  | outermost => exact .inner .outermost
  | inner h => exact .inner (.inner h)

/-- While a guard is held the flag is clear. Without the guard made last it is as that one
found it. -/
theorem pop (h : Nested first (guard :: held) flag) :
    flag = false ∧ Nested first held guard.wasEnabled := by
  cases h with
  | outermost => exact ⟨rfl, .free⟩
  | inner h => exact ⟨rfl, h⟩

end Nested
end InterruptGuard

namespace Shelter

variable {first : Bool} {b : Board} {s s' : Shelter} {step : GuardStep} {steps : List GuardStep}

/-- A step keeps the guards nested, and calls for a change of the flag only if it makes the
outermost guard or gives it back. -/
theorem nested_step (h : InterruptGuard.Nested first s.held s.board.interrupts)
    (hs : s.step? step = some s') :
    InterruptGuard.Nested first s'.held s'.board.interrupts ∧
      s.board.Turns (step.calls first s.held.length) s'.board := by
  cases step with
  | acquire =>
    obtain rfl := Option.some.inj hs
    have hcalls : GuardStep.acquire.calls first s.held.length =
        if s.board.interrupts then [.masked] else [] := by
      simp only [GuardStep.calls, h.flag_iff, List.length_eq_zero_iff]
    have hnested : InterruptGuard.Nested first (⟨s.board.interrupts⟩ :: s.held)
        (InterruptGuard.acquire s.board).2.interrupts := by
      rw [InterruptGuard.interrupts_acquire]
      exact h.push
    exact ⟨hnested, hcalls ▸ InterruptGuard.turns_acquire s.board⟩
  | release =>
    obtain ⟨board, _ | ⟨guard, held⟩⟩ := s
    · cases hs
    · obtain rfl := Option.some.inj hs
      obtain ⟨hclear, hpop⟩ := h.pop
      have hcalls : GuardStep.release.calls first (guard :: held).length =
          if guard.wasEnabled then [.unmasked] else [] := by
        simp only [GuardStep.calls, hpop.flag_iff, List.length_cons, Nat.add_eq_right,
          List.length_eq_zero_iff]
      have hnested : InterruptGuard.Nested first held (guard.release board).interrupts := by
        rw [guard.interrupts_release hclear]
        exact hpop
      exact ⟨hnested, hcalls ▸ guard.turns_release hclear⟩
  | work work =>
    obtain rfl := Option.some.inj hs
    have hnested : InterruptGuard.Nested first s.held (work.run s.board).interrupts := by
      rw [work.interrupts_run]
      exact h
    exact ⟨hnested, .work work s.board⟩

/-- Only to give a guard back one has to be held. -/
theorem exists_step (h : [step].countP GuardStep.isRelease ≤
    s.held.length + [step].countP GuardStep.isAcquire) :
    ∃ s', s.step? step = some s' ∧ s'.held.length + [step].countP GuardStep.isRelease =
      s.held.length + [step].countP GuardStep.isAcquire := by
  cases step with
  | acquire => exact ⟨_, rfl, rfl⟩
  | release =>
    obtain ⟨board, _ | ⟨guard, held⟩⟩ := s
    · simp [GuardStep.isAcquire, GuardStep.isRelease] at h
    · exact ⟨_, rfl, rfl⟩
  | work work => exact ⟨_, rfl, rfl⟩

/-! ### Runs -/

/-- How a board and the guards on it stand after these steps, where there was no guard before. -/
structure Course (b : Board) (steps : List GuardStep) (s : Shelter) : Prop where
  run_eq : run? ⟨b, []⟩ steps = some s
  counted : s.held.length + steps.countP GuardStep.isRelease = steps.countP GuardStep.isAcquire
  nested : InterruptGuard.Nested b.interrupts s.held s.board.interrupts
  turns : ∃ calls, b.Turns calls s.board ∧ (b.interrupts = false → calls = [])

theorem Course.nil (b : Board) : Course b [] ⟨b, []⟩ where
  run_eq := rfl
  counted := rfl
  nested := .free
  turns := ⟨[], .refl b, fun _ => rfl⟩

theorem Course.concat (h : Course b steps s)
    (hstep : (steps ++ [step]).countP GuardStep.isRelease ≤
      (steps ++ [step]).countP GuardStep.isAcquire) :
    ∃ s', s.step? step = some s' ∧ Course b (steps ++ [step]) s' := by
  have hcounted := h.counted
  simp only [List.countP_append] at hstep
  have hroom : [step].countP GuardStep.isRelease ≤
      s.held.length + [step].countP GuardStep.isAcquire := by omega
  obtain ⟨s', hs, hlength⟩ := exists_step hroom
  obtain ⟨hnested, hturns⟩ := nested_step h.nested hs
  obtain ⟨calls, hcalls, hclear⟩ := h.turns
  refine ⟨s', hs, ?_, ?_, hnested, calls ++ _, hcalls.trans hturns, fun hb => ?_⟩
  · rw [run?_concat, h.run_eq, Option.bind_some, hs]
  · simp only [List.countP_append]
    omega
  · rw [hclear hb, hb, GuardStep.calls_of_clear, List.append_nil]

theorem exists_course (b : Board) (h : GuardStep.WellBracketed steps) :
    ∃ s, Course b steps s := by
  induction steps using List.reverseRecOn with
  | nil => exact ⟨_, .nil b⟩
  | append_singleton steps step ih =>
    have hbefore : steps ∈ (steps ++ [step]).inits :=
      (List.mem_inits _ _).mpr (List.prefix_append steps [step])
    have hall : steps ++ [step] ∈ (steps ++ [step]).inits :=
      (List.mem_inits _ _).mpr List.prefix_rfl
    obtain ⟨s, hs⟩ := ih (h.of_mem_inits hbefore)
    obtain ⟨s', -, hs'⟩ := hs.concat (h _ hall)
    exact ⟨s', hs'⟩

/-- What guards are for, where there was none on the board `b`: the flag is clear while one is
held, and as it was when none is. It was cleared and set in turns, and only if it was set at
first. -/
structure Tight (b : Board) (s : Shelter) : Prop where
  masked : s.held ≠ [] → s.board.interrupts = false
  restored : s.held = [] → s.board.interrupts = b.interrupts
  alternating : ∃ calls, s.board.toggles = b.toggles ++ calls ∧ calls.IsChain (· ≠ ·) ∧
    (∀ call ∈ calls.head?, call = .masked) ∧ (b.interrupts = false → calls = [])

theorem Course.tight (h : Course b steps s) : s.Tight b := by
  have hflag := h.nested.flag_iff
  constructor
  case masked =>
    intro hheld
    exact Bool.eq_false_iff.mpr fun hset => hheld (hflag.mp hset).2
  case restored =>
    intro hheld
    rw [Bool.eq_iff_iff, hflag]
    simp [hheld]
  case alternating =>
    obtain ⟨calls, hturns, hclear⟩ := h.turns
    refine ⟨calls, hturns.toggles_eq, hturns.inTurns.isChain, fun call hcall => ?_, hclear⟩
    cases hb : b.interrupts with
    | true => simpa [hb] using hturns.inTurns.head_eq call hcall
    | false => simp [hclear hb] at hcall

/-- On every well-bracketed way, between any two steps of it, guards do what they are for, and the
next step calls for a change of the flag only if it makes an outermost guard or gives it back. -/
theorem guards_nest (b : Board) (steps : List GuardStep) (h : GuardStep.WellBracketed steps) :
    ∀ done ∈ steps.inits, ∃ s, run? ⟨b, []⟩ done = some s ∧
      s.held.length + done.countP GuardStep.isRelease = done.countP GuardStep.isAcquire ∧
      Tight b s ∧
      ∀ step, done ++ [step] ∈ steps.inits → ∃ s', s.step? step = some s' ∧
        s'.board.toggles = s.board.toggles ++ step.calls b.interrupts s.held.length := by
  intro done hdone
  obtain ⟨s, hs⟩ := exists_course b (h.of_mem_inits hdone)
  refine ⟨s, hs.run_eq, hs.counted, hs.tight, fun step hstep => ?_⟩
  obtain ⟨s', hs', -⟩ := hs.concat (h _ hstep)
  exact ⟨s', hs', (nested_step hs.nested hs').2.toggles_eq⟩

/-- A guard inside of another one, under which the clock is read, and after both a third one that is
still held. -/
theorem guards_nest_three :
    let clockRead : GuardStep := .work (.ofEvent .clockRead rfl)
    let steps := [.acquire, .acquire, clockRead, .release, .release, .acquire]
    GuardStep.WellBracketed steps ∧ ∃ s, run? ⟨{}, []⟩ steps = some s ∧
      s.board.interrupts = false ∧ s.board.toggles = [.masked, .unmasked, .masked] := by
  intro clockRead steps
  have hsteps : GuardStep.WellBracketed steps := by decide
  obtain ⟨s, hrun, hcounted, htight, -⟩ :=
    guards_nest {} steps hsteps steps ((List.mem_inits _ _).mpr List.prefix_rfl)
  have hheld : s.held ≠ [] := by
    rintro hnone
    rw [hnone] at hcounted
    exact absurd hcounted (by decide)
  refine ⟨hsteps, s, hrun, htight.masked hheld, ?_⟩
  obtain rfl := Option.some.inj hrun
  rfl

end Shelter
end PulseKernel
