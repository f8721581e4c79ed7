/-
# Computations that leave notices

A step of the scheduler gives a value or ends in a fault; either way the
notices it made up to there stay.

Key definitions: `Logged`, `Logged.note`, `Logged.violate`, `Logged.ensure`,
`Logged.Gives`, `Logged.Only`.
Key theorems: `Logged.bind_of_ok`, `Logged.bind_of_error`,
`Logged.result_bind_eq_ok`, `Logged.Gives.bind`, `Logged.Only.bind`.
-/
import PulseKernel.Report.Fault
import PulseKernel.Report.Notice

namespace PulseKernel

/-- The outcome of a step and the notices made on the way to it. -/
structure Logged (α : Type) where
  notices : List Notice
  result : Except Fault α

namespace Logged

variable {α β γ : Type}

/-- The value, without notices. -/
protected def pure (a : α) : Logged α := ⟨[], .ok a⟩

/-- One step after the other; a fault skips the rest. -/
protected def bind (x : Logged α) (f : α → Logged β) : Logged β :=
  match x.result with
  | .ok a =>
    let y := f a
    ⟨x.notices ++ y.notices, y.result⟩
  | .error fault => ⟨x.notices, .error fault⟩

instance : Monad Logged where
  pure := Logged.pure
  bind := Logged.bind

/-- Makes a notice. -/
def note (n : Notice) : Logged Unit := ⟨[n], .ok ()⟩

/-- A step that may fail and makes no notice. -/
def ofExcept (x : Except Fault α) : Logged α := ⟨[], x⟩

instance : MonadLift (Except Fault) Logged where
  monadLift := ofExcept

/-- Ends in a fault. -/
def fail (fault : Fault) : Logged α := ⟨[], .error fault⟩

/-- Reports a corrupted structure and ends. The notice about it stands before its dump is made,
which on a corrupted structure may fail in turn. -/
def violate (component reason : String) (dump : Except Fault String) : Logged α := do
  note (.corrupted component reason)
  let dump ← ofExcept dump
  note (.dumped dump)
  fail (.violation ⟨component, reason, dump⟩)

/-- Goes on only if the condition holds. -/
def ensure (condition : Bool) (component reason : String) (dump : Except Fault String) :
    Logged Unit :=
  if condition then pure () else violate component reason dump

/-! ### Notices and results, step after step -/

theorem bind_eq (x : Logged α) (f : α → Logged β) : (x >>= f) = x.bind f := rfl

theorem bind_of_ok {x : Logged α} {a : α} (f : α → Logged β) (h : x.result = .ok a) :
    (x >>= f) = ⟨x.notices ++ (f a).notices, (f a).result⟩ := by
  simp [bind_eq, Logged.bind, h]

/-- A step that comes to an end leaves it to the next one how both end. -/
theorem result_bind_of_ok {x : Logged α} {a : α} (f : α → Logged β) (h : x.result = .ok a) :
    (x >>= f).result = (f a).result := by
  rw [bind_of_ok f h]

theorem bind_of_error {x : Logged α} {fault : Fault} (f : α → Logged β)
    (h : x.result = .error fault) : (x >>= f) = ⟨x.notices, .error fault⟩ := by
  simp [bind_eq, Logged.bind, h]

/-- A step that cannot fail gives its value. -/
@[simp] theorem lift_ok (a : α) : (liftM (Except.ok a : Except Fault α) : Logged α) = pure a := rfl

@[simp] theorem result_pure (a : α) : (pure a : Logged α).result = .ok a := rfl

@[simp] theorem ofExcept_ok (a : α) : ofExcept (.ok a) = pure a := rfl

/-- A step that makes no notice can be mapped as it stands. -/
theorem map_lift (f : α → β) (x : Except Fault α) :
    f <$> (liftM x : Logged α) = ofExcept (x.map f) := by
  cases x <;> rfl

/-- Two steps come to an end together exactly if both do. -/
theorem result_bind_eq_ok {x : Logged α} {f : α → Logged β} {b : β} :
    (x >>= f).result = .ok b ↔ ∃ a, x.result = .ok a ∧ (f a).result = .ok b := by
  cases h : x.result with
  | error fault => simp [bind_of_error f h]
  | ok a => simp [bind_of_ok f h]

/-- What is computed from the value of a step can be computed from the step. -/
theorem eq_of_map_result {x : Logged α} {a : α} {f : α → β} {b : β} (h : x.result = .ok a)
    (hf : x.result.map f = .ok b) : f a = b := by
  rw [h] at hf
  exact Except.ok.inj hf

instance : LawfulMonad Logged :=
  LawfulMonad.mk' Logged
    (fun x => by
      show x.bind Logged.pure = x
      rcases x with ⟨notices, _ | a⟩ <;> simp [Logged.bind, Logged.pure])
    (fun a f => by
      show (Logged.pure a).bind f = f a
      simp [Logged.bind, Logged.pure])
    (fun x f g => by
      show (x.bind f).bind g = x.bind fun a => (f a).bind g
      rcases x with ⟨notices, _ | a⟩
      · rfl
      · simp only [Logged.bind]
        cases (f a).result <;> simp)

/-! ### Steps that do not fail -/

/-- The step comes to an end with a value of this kind. -/
def Gives (x : Logged α) (P : α → Prop) : Prop := ∃ a, x.result = .ok a ∧ P a

theorem Gives.pure {P : α → Prop} {a : α} (h : P a) : (pure a : Logged α).Gives P := ⟨a, rfl, h⟩

/-- The value that the step comes to an end with is of this kind. -/
theorem Gives.of_result {x : Logged α} {P : α → Prop} (hx : x.Gives P) {a : α}
    (h : x.result = .ok a) : P a := by
  obtain ⟨b, hb, hP⟩ := hx
  obtain rfl := Except.ok.inj (h.symm.trans hb)
  exact hP

/-- What the first step gives, the second one can count on. -/
theorem Gives.bind {x : Logged α} {f : α → Logged β} {P : α → Prop} {Q : β → Prop}
    (hx : x.Gives P) (hf : ∀ a, P a → (f a).Gives Q) : (x >>= f).Gives Q := by
  obtain ⟨a, ha, hP⟩ := hx
  obtain ⟨b, hb, hQ⟩ := hf a hP
  exact ⟨b, result_bind_eq_ok.mpr ⟨a, ha, hb⟩, hQ⟩

theorem gives_note (n : Notice) : (note n).Gives fun _ => True := ⟨(), rfl, trivial⟩

/-- A violation does not come to an end with a value, whatever becomes of its dump. -/
theorem result_violate_ne_ok (component reason : String) (dump : Except Fault String) (a : α) :
    (violate component reason dump).result ≠ .ok a := by
  cases dump <;> simp [violate, note, ofExcept, fail, bind, Logged.bind]

theorem result_ensure_eq_ok {condition : Bool} {component reason : String}
    {dump : Except Fault String} {a : Unit} :
    (ensure condition component reason dump).result = .ok a ↔ condition = true := by
  cases condition with
  | true => simp [ensure]
  | false => simp [ensure, result_violate_ne_ok]

/-! ### What comes out, if anything does -/

/-- If the step comes to an end, it is with a value of this kind. -/
def Only (x : Logged α) (P : α → Prop) : Prop := ∀ a, x.result = .ok a → P a

theorem Only.pure {P : α → Prop} {a : α} (h : P a) : (pure a : Logged α).Only P := by
  intro b hb
  obtain rfl := Except.ok.inj hb
  exact h

theorem Only.bind {x : Logged α} {f : α → Logged β} {P : α → Prop} {Q : β → Prop}
    (hx : x.Only P) (hf : ∀ a, P a → (f a).Only Q) : (x >>= f).Only Q := by
  intro b hb
  obtain ⟨a, ha, hb⟩ := result_bind_eq_ok.mp hb
  exact hf a (hx a ha) b hb

theorem only_true (x : Logged α) : x.Only fun _ => True := fun _ _ => trivial

theorem only_violate {P : α → Prop} (component reason : String) (dump : Except Fault String) :
    (violate component reason dump : Logged α).Only P :=
  fun a h => absurd h (result_violate_ne_ok component reason dump a)

end Logged

end PulseKernel
