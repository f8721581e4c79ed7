/-
# What a pulse says to the policy

A pulse wakes threads, and the policy is then spoken to in a fixed order. For each
woken thread it is asked who holds the processor, and the threads that do not
(`Policy.others`) are added to it. Then it is asked whether another thread can
run. If so, and if the quantum is over, it is asked once more who holds the
processor, gets that thread back if it is awake, and picks the next one
(`Policy.dialogue`).

The questions may change a policy, so each answer is the answer of the policy as
it is by then; for a policy that questions do not change, the threads that are
added are simply those other than the current one (`Policy.others_of_steady`).
What a recorder sees of the dialogue is its calls (`Recorded.calls_dialogue`).

Key definitions: `Policy.others`, `Policy.addAll`, `Rotation`, `Dialogue`,
`Policy.turn`, `Policy.consult`, `Policy.dialogue`, `Dialogue.calls`.
Key theorems: `Policy.others_of_steady`, `Fifo.dialogue_cases`,
`Recorded.calls_dialogue`.
-/
import PulseKernel.Policy.Fifo
import PulseKernel.Policy.Recorded

namespace PulseKernel

/-- A change of the thread that runs because its quantum is over. -/
structure Rotation where
  /-- The thread that held the processor. -/
  running : ThreadId
  /-- Whether it was added to the policy's threads again. -/
  returned : Bool
  /-- The thread that was picked, which may be the same one. -/
  next : ThreadId
deriving DecidableEq, Repr

/-- The calls of a rotation that change the policy. -/
def Rotation.calls (r : Rotation) : List PolicyCall :=
  (if r.returned then [.addReady r.running] else []) ++ [.pickNext r.next]

/-- What a pulse said to the policy, and the policy afterwards. -/
structure Dialogue (π : Type) where
  /-- The woken threads that were added. -/
  admitted : List ThreadId
  /-- Whether the policy then had another thread that could run. -/
  busy : Bool
  rotation : Option Rotation
  policy : π
deriving DecidableEq, Repr

/-- The calls of a dialogue that change the policy, in their order. -/
def Dialogue.calls {π : Type} (d : Dialogue π) : List PolicyCall :=
  d.admitted.map .addReady ++ d.rotation.elim [] Rotation.calls

namespace Policy

variable {π : Type} [Policy π]

/-- Those of the threads that do not hold the processor. For each of them the policy is asked who
does. -/
def others (p : π) : List ThreadId → List ThreadId × π
  | [] => ([], p)
  | t :: ts =>
    let (running, p) := Policy.current p
    let (rest, p) := others p ts
    (if t = running then rest else t :: rest, p)

/-- The policy after threads have been added to it, one after the other. -/
def addAll (p : π) (ts : List ThreadId) : π := ts.foldl Policy.addReady p

/-- The running thread is added again, if it is awake, and the next one is picked. -/
def turn (p : π) (awake : ThreadId → Bool) : Rotation × π :=
  let (running, p) := Policy.current p
  let (next, p) := Policy.pickNext (if awake running then Policy.addReady p running else p)
  (⟨running, awake running, next⟩, p)

/-- The policy is asked whether another thread can run; if so, and if the quantum is over, it takes
its turn. -/
def consult (p : π) (quantumOver : Bool) (awake : ThreadId → Bool) :
    Bool × Option Rotation × π :=
  let (busy, p) := Policy.hasOtherRunnable p
  if busy && quantumOver then
    let (rotation, p) := turn p awake
    (busy, some rotation, p)
  else (busy, none, p)

/-- What a pulse that wakes these threads says to the policy. -/
def dialogue (p : π) (woken : List ThreadId) (quantumOver : Bool) (awake : ThreadId → Bool) :
    Dialogue π :=
  let (admitted, p) := others p woken
  let (busy, rotation, p) := consult (addAll p admitted) quantumOver awake
  ⟨admitted, busy, rotation, p⟩

theorem others_cons (p : π) (t : ThreadId) (ts : List ThreadId) :
    others p (t :: ts) =
      (if t = (Policy.current p).1 then (others (Policy.current p).2 ts).1
        else t :: (others (Policy.current p).2 ts).1,
      (others (Policy.current p).2 ts).2) := rfl

/-- The policy is asked for one thread after the other. -/
theorem others_append (p : π) (ts us : List ThreadId) :
    others p (ts ++ us) =
      ((others p ts).1 ++ (others (others p ts).2 us).1, (others (others p ts).2 us).2) := by
  induction ts generalizing p with
  | nil => rfl
  | cons t ts ih =>
    rw [List.cons_append, others_cons, others_cons, ih]
    split <;> rfl

@[simp] theorem addAll_nil (p : π) : addAll p [] = p := rfl

theorem addAll_cons (p : π) (t : ThreadId) (ts : List ThreadId) :
    addAll p (t :: ts) = addAll (Policy.addReady p t) ts := rfl

theorem addAll_append (p : π) (ts us : List ThreadId) :
    addAll p (ts ++ us) = addAll (addAll p ts) us := List.foldl_append

theorem consult_of_idle {p : π} (quantumOver : Bool) (awake : ThreadId → Bool)
    (hbusy : (Policy.hasOtherRunnable p).1 = false) :
    consult p quantumOver awake = (false, none, (Policy.hasOtherRunnable p).2) := by
  simp [consult, hbusy]

theorem consult_of_early (p : π) (awake : ThreadId → Bool) :
    consult p false awake =
      ((Policy.hasOtherRunnable p).1, none, (Policy.hasOtherRunnable p).2) := by
  simp [consult]

theorem consult_of_over {p : π} (awake : ThreadId → Bool)
    (hbusy : (Policy.hasOtherRunnable p).1 = true) :
    consult p true awake = (true, some (turn (Policy.hasOtherRunnable p).2 awake).1,
      (turn (Policy.hasOtherRunnable p).2 awake).2) := by
  simp [consult, hbusy]

/-- A dialogue ends in a rotation if another thread can run and the quantum is over. -/
theorem isSome_rotation_dialogue (p : π) (woken : List ThreadId) (quantumOver : Bool)
    (awake : ThreadId → Bool) :
    (dialogue p woken quantumOver awake).rotation.isSome =
      ((dialogue p woken quantumOver awake).busy && quantumOver) := by
  simp only [dialogue, consult]
  split
  · rename_i hturn
    exact hturn.symm
  · rename_i hturn
    exact (Bool.eq_false_iff.mpr hturn).symm

/-- A steady policy is asked for nothing new. -/
theorem others_of_steady [SteadyPolicy π] (p : π) (ts : List ThreadId) :
    others p ts = (ts.filter fun t => t ≠ (Policy.current p).1, p) := by
  induction ts with
  | nil => rfl
  | cons t ts ih =>
    rw [others_cons, SteadyPolicy.current_snd, ih]
    by_cases ht : t = (Policy.current p).1 <;> simp [ht]

end Policy

namespace Fifo

/-- A line grows by the threads that are added, and the running thread stays. -/
theorem addAll_eq (p : Fifo) (ts : List ThreadId) :
    Policy.addAll p ts = ⟨p.ready ++ ts, p.running⟩ := by
  induction ts generalizing p with
  | nil => simp
  | cons t ts ih =>
    rw [Policy.addAll_cons, ih]
    simp [Policy.addReady, Fifo.push]

/-- The line with the woken threads behind the others, apart from the one that is running. -/
def joinedBy (p : Fifo) (woken : List ThreadId) : Fifo :=
  ⟨p.ready ++ woken.filter fun t => t ≠ p.running, p.running⟩

theorem addAll_others (p : Fifo) (woken : List ThreadId) :
    Policy.addAll (Policy.others p woken).2 (Policy.others p woken).1 = p.joinedBy woken := by
  rw [Policy.others_of_steady, addAll_eq]
  rfl

/-- The line after the running thread, if it is awake, has gone to its end and the first in line has
got the processor. -/
def turned (p : Fifo) (awake : ThreadId → Bool) : Fifo :=
  (if awake p.running then p.push p.running else p).advance

theorem turn_eq (p : Fifo) (awake : ThreadId → Bool) :
    Policy.turn p awake =
      (⟨p.running, awake p.running, (p.turned awake).running⟩, p.turned awake) := rfl

/-- After the woken threads have joined the line, it stays or takes its turn. -/
theorem dialogue_cases (p : Fifo) (woken : List ThreadId) (quantumOver : Bool)
    (awake : ThreadId → Bool) :
    let d := Policy.dialogue p woken quantumOver awake
    d.rotation = none ∧ d.policy = p.joinedBy woken ∨
      d.rotation = some (Policy.turn (p.joinedBy woken) awake).1 ∧
        d.policy = (p.joinedBy woken).turned awake := by
  have hconsult : Policy.consult (p.joinedBy woken) quantumOver awake =
      if !(p.joinedBy woken).ready.isEmpty && quantumOver then
        (!(p.joinedBy woken).ready.isEmpty, some (Policy.turn (p.joinedBy woken) awake).1,
          (p.joinedBy woken).turned awake)
      else (!(p.joinedBy woken).ready.isEmpty, none, p.joinedBy woken) := rfl
  simp only [Policy.dialogue, addAll_others, hconsult]
  split
  · exact Or.inr ⟨rfl, rfl⟩
  · exact Or.inl ⟨rfl, rfl⟩

end Fifo

namespace Recorded

variable {π : Type} [Policy π]

theorem calls_others (r : Recorded π) (ts : List ThreadId) :
    (Policy.others r ts).2.calls = r.calls := by
  induction ts generalizing r with
  | nil => rfl
  | cons t ts ih => exact ih (Policy.current r).2

theorem calls_addAll (r : Recorded π) (ts : List ThreadId) :
    (Policy.addAll r ts).calls = r.calls ++ ts.map .addReady := by
  induction ts generalizing r with
  | nil => simp
  | cons t ts ih => rw [Policy.addAll_cons, ih, calls_addReady]; simp

/-- A turn is a rotation, and nothing else is recorded. -/
theorem calls_turn (r : Recorded π) (awake : ThreadId → Bool) :
    (Policy.turn r awake).2.calls = r.calls ++ (Policy.turn r awake).1.calls := by
  have hcurrent : (Policy.current r).2.calls = r.calls := rfl
  cases hawake : awake (Policy.current r).1 with
  | true =>
    simp only [Policy.turn, Rotation.calls, hawake, if_true]
    rw [calls_pickNext, calls_addReady, hcurrent, List.append_assoc]
  | false =>
    simp only [Policy.turn, Rotation.calls, hawake, Bool.false_eq_true, if_false]
    rw [calls_pickNext, hcurrent, List.nil_append]

theorem calls_consult (r : Recorded π) (quantumOver : Bool) (awake : ThreadId → Bool) :
    (Policy.consult r quantumOver awake).2.2.calls =
      r.calls ++ (Policy.consult r quantumOver awake).2.1.elim [] Rotation.calls := by
  have hasked : (Policy.hasOtherRunnable r).2.calls = r.calls := rfl
  simp only [Policy.consult]
  split
  · rw [calls_turn, hasked]
    rfl
  · rw [hasked, Option.elim_none, List.append_nil]

/-- A recorder sees the calls of the dialogue, and nothing else. -/
theorem calls_dialogue (r : Recorded π) (woken : List ThreadId) (quantumOver : Bool)
    (awake : ThreadId → Bool) :
    (Policy.dialogue r woken quantumOver awake).policy.calls =
      r.calls ++ (Policy.dialogue r woken quantumOver awake).calls := by
  calc (Policy.dialogue r woken quantumOver awake).policy.calls
      = (Policy.addAll (Policy.others r woken).2 (Policy.others r woken).1).calls ++
          (Policy.dialogue r woken quantumOver awake).rotation.elim [] Rotation.calls :=
        calls_consult _ quantumOver awake
    _ = r.calls ++ (Policy.others r woken).1.map .addReady ++
          (Policy.dialogue r woken quantumOver awake).rotation.elim [] Rotation.calls := by
        rw [calls_addAll, calls_others]
    _ = r.calls ++ (Policy.dialogue r woken quantumOver awake).calls := by
        rw [Dialogue.calls, List.append_assoc]
        rfl

end Recorded

end PulseKernel
