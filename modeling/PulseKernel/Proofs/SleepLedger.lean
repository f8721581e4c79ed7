/-
# The ledger of sleeps

The scheduler counts what it does, and here its counts are set against what it was
seen to do. A history is the list of the steps taken, each with the scheduler before
and after it and the answer (`Scheduler.History`); nothing is asked of the policy,
and between two steps its owner may change it. In every history the counts balance
(`Scheduler.Balanced`): who fell asleep has been woken by the deadline, has been
taken out before it, or still sleeps, and nobody twice; every plan, every rotation
and every thread added to the policy has its cause.

Each step moves the counts by what the step was (`Moment.Booked`), and the history
adds the steps up.

Key definitions: `Policy.inPlace`, `Moment.ended`, `Moment.admitted`,
`Moment.Booked`, `Scheduler.History`, `Scheduler.Balanced`.
Key theorems: `Policy.length_others`, `Scheduler.Effect.exists_calls`,
`Scheduler.Effect.booked`, `Scheduler.History.balanced`.
-/
import PulseKernel.Proofs.StepEffect

namespace PulseKernel

/-- Whether a thread is added. -/
def PolicyCall.adds : PolicyCall → Bool
  | .addReady _ => true
  | .pickNext _ => false

/-- Whether a thread is chosen. -/
def PolicyCall.picks : PolicyCall → Bool
  | .addReady _ => false
  | .pickNext _ => true

theorem PolicyCall.filter_adds_map (ts : List ThreadId) :
    (ts.map PolicyCall.addReady).filter (·.adds) = ts.map .addReady := by
  refine List.filter_eq_self.mpr fun c hc => ?_
  obtain ⟨t, -, rfl⟩ := List.mem_map.mp hc
  rfl

theorem PolicyCall.countP_picks_map (ts : List ThreadId) :
    (ts.map PolicyCall.addReady).countP (·.picks) = 0 := by
  rw [List.countP_map]
  exact List.countP_eq_zero.mpr fun _ _ => Bool.false_ne_true

/-! ### Threads that are woken in place -/

namespace Policy

variable {π : Type} [Policy π]

/-- Those of the threads that hold the processor. For each of them the policy is asked who does. -/
def inPlace (p : π) : List ThreadId → List ThreadId
  | [] => []
  | t :: ts =>
    let (running, p) := Policy.current p
    if t = running then t :: inPlace p ts else inPlace p ts

/-- A woken thread holds the processor, or it is added to the policy. -/
theorem length_others (p : π) (ts : List ThreadId) :
    (others p ts).1.length + (inPlace p ts).length = ts.length := by
  induction ts generalizing p with
  | nil => rfl
  | cons t ts ih =>
    have hrest := ih (Policy.current p).2
    rw [others_cons, inPlace, List.length_cons]
    by_cases ht : t = (Policy.current p).1
    · simp only [ht, if_true, List.length_cons]
      omega
    · simp only [ht, if_false, List.length_cons]
      omega

end Policy

namespace Dialogue

variable {π : Type}

theorem countP_picks_calls (d : Dialogue π) :
    d.calls.countP (·.picks) = d.rotation.isSome.toNat := by
  rw [calls, List.countP_append, PolicyCall.countP_picks_map, Nat.zero_add]
  cases d.rotation with
  | none => rfl
  | some r => cases hr : r.returned <;> simp [Rotation.calls, hr, PolicyCall.picks]

end Dialogue

/-! ### Who is added -/

theorem Rotation.filter_adds_calls (r : Rotation) :
    r.calls.filter (·.adds) = if r.returned then [.addReady r.running] else [] := by
  cases hr : r.returned <;> simp [calls, hr, PolicyCall.adds]

namespace Policy

variable {π : Type} [Policy π]

/-- At a rotation the running thread is added again if it is awake. -/
theorem returned_of_dialogue {p : π} {woken : List ThreadId} {quantumOver : Bool}
    {awake : ThreadId → Bool} {r : Rotation}
    (h : (dialogue p woken quantumOver awake).rotation = some r) :
    r.returned = awake r.running := by
  simp only [dialogue, consult] at h
  split at h
  · obtain rfl := Option.some.inj h
    rfl
  · cases h

/-- A pulse adds the woken threads to the policy and then the running one, if it goes on. -/
theorem filter_adds_dialogue (p : π) (woken : List ThreadId) (quantumOver : Bool)
    (awake : ThreadId → Bool) :
    let d := dialogue p woken quantumOver awake
    d.calls.filter (·.adds) = (d.admitted ++
      (d.rotation.toList.filter fun r => awake r.running).map (·.running)).map .addReady := by
  intro d
  rw [Dialogue.calls, List.filter_append, PolicyCall.filter_adds_map, List.map_append]
  congr 1
  cases hrotation : d.rotation with
  | none => rfl
  | some r =>
    have hreturned : r.returned = awake r.running := returned_of_dialogue hrotation
    rw [Option.elim_some, r.filter_adds_calls, hreturned]
    cases hawake : awake r.running <;> simp [hawake]

end Policy

/-! ### What a step was -/

namespace Moment

variable {π : Type}

/-- A thread fell asleep. -/
def fellAsleep (m : Moment π) : Bool :=
  match m.answer with
  | .slept (.ok _) => true
  | _ => false

def isPulse (m : Moment π) : Bool :=
  match m.step with
  | .call (.tick _ _) => true
  | _ => false

/-- It was a pulse before the system had booted. -/
def isEarly (m : Moment π) : Bool :=
  match m.step with
  | .call (.tick _ booted) => !booted
  | _ => false

/-- A thread was woken before its deadline. -/
def cancelled (m : Moment π) : Bool :=
  match m.answer with
  | .served (.woken (some _)) => true
  | _ => false

/-- The sleepers that have left the sleep queue. -/
def ended (m : Moment π) : List Sleeper :=
  m.before.sleepers.heap.toList.filter fun e => e ∉ m.after.sleepers.heap.toList

/-- Those that left it at a pulse. -/
def expired (m : Moment π) : List Sleeper := if m.isPulse then m.ended else []

/-- Those that left it at another step. -/
def withdrawn (m : Moment π) : List Sleeper := if m.isPulse then [] else m.ended

/-- Who left the sleep queue has left it at a pulse or at another step. -/
theorem length_ended (past : List (Moment π)) : (past.flatMap (·.ended)).length =
    (past.flatMap (·.expired)).length + (past.flatMap (·.withdrawn)).length := by
  induction past with
  | nil => rfl
  | cons m past ih =>
    have hm : m.ended.length = m.expired.length + m.withdrawn.length := by
      unfold Moment.expired Moment.withdrawn
      cases m.isPulse <;> simp
    simp only [List.flatMap_cons, List.length_append]
    omega

/-- The threads that were made ready, in their order: those that were due, or the one whose sleep
was cancelled. -/
def wakes (m : Moment π) : List ThreadId :=
  match m.step, m.answer with
  | .call (.tick now true), .pulsed _ => (m.before.sleepers.due now).map (·.thread)
  | _, .served (.woken (some t)) => [t]
  | _, _ => []

/-- A request that changes nothing wakes nobody. -/
theorem wakes_of_idle {s s' : Scheduler π} {request : Request} {response : Response}
    (hidle : response.acts = false) :
    (⟨s, .call (.serve request), .served response, s'⟩ : Moment π).wakes = [] := by
  cases response with
  | woken t =>
    cases t with
    | none => rfl
    | some t => cases hidle
  | _ => rfl

/-- The calls that the scheduler made to its policy. -/
def calls (m : Moment (Recorded π)) : List PolicyCall :=
  m.after.policy.calls.drop m.before.policy.calls.length

/-- Those that it made at a pulse. -/
def pulseCalls (m : Moment (Recorded π)) : List PolicyCall := if m.isPulse then m.calls else []

variable [Policy π]

/-- The woken threads that held the processor. -/
def inPlace (m : Moment π) : List ThreadId := Policy.inPlace m.before.policy m.wakes

/-- The change of the running thread at a pulse. -/
def rotation (m : Moment π) : Option Rotation :=
  match m.step with
  | .call (.tick now true) => (m.before.heard now m.after.clock.ticks).rotation
  | _ => none

/-- A pulse gave the processor to the next thread, and the one that held it was registered and
awake. -/
def rotatedAwake (m : Moment π) : Bool := m.rotation.any fun r => m.after.awake r.running

/-- The woken threads that did not hold the processor. -/
def admitted (m : Moment π) : List ThreadId := (Policy.others m.before.policy m.wakes).1

/-- The thread that held the processor at a rotation, if it was registered and awake. -/
def returned (m : Moment π) : List ThreadId :=
  (m.rotation.toList.filter fun r => m.after.awake r.running).map (·.running)

theorem length_returned (m : Moment π) : m.returned.length = m.rotatedAwake.toNat := by
  unfold returned rotatedAwake
  cases m.rotation with
  | none => rfl
  | some r => cases hawake : m.after.awake r.running <;> simp [hawake]

/-- The step has moved the counts, the calls to the policy and the sleepers by what it was. -/
structure Booked (m : Moment (Recorded π)) : Prop where
  pulses : m.after.stats.pulses = m.before.stats.pulses + m.isPulse.toNat
  earlyPulses : m.after.stats.earlyPulses = m.before.stats.earlyPulses + m.isEarly.toNat
  contextSwitches :
    m.after.stats.contextSwitches = m.before.stats.contextSwitches + m.plan?.isSome.toNat
  rotations : m.after.stats.rotations = m.before.stats.rotations + m.pulseCalls.countP (·.picks)
  expirations : m.after.stats.expirations = m.before.stats.expirations + m.expired.length
  cancellations : m.after.stats.cancellations = m.before.stats.cancellations + m.withdrawn.length
  additions : m.after.policy.calls.countP (·.adds) + m.inPlace.length =
    m.before.policy.calls.countP (·.adds) + m.expired.length + m.cancelled.toNat +
      m.rotatedAwake.toNat
  nextSeq : m.after.sleepers.nextSeq = m.before.sleepers.nextSeq + m.fellAsleep.toNat
  /-- Who slept before, and who has fallen asleep, has left or sleeps. -/
  sleepers : ((m.ended ++ m.after.sleepers.heap.toList).map (·.seq)).Perm
    (m.before.sleepers.heap.toList.map (·.seq) ++
      if m.fellAsleep then [m.before.sleepers.nextSeq] else [])
  causes : ∀ e ∈ m.ended, m.Ends e.deadline e.thread

end Moment

namespace Scheduler

/-! ### The sleepers that leave -/

/-- Those of a list of sleepers that are not in another one. -/
def leavers (naps naps' : List Sleeper) : List Sleeper := naps.filter fun e => e ∉ naps'

theorem leavers_eq_nil {naps naps' : List Sleeper} (h : ∀ e ∈ naps, e ∈ naps') :
    leavers naps naps' = [] := by
  refine List.filter_eq_nil_iff.mpr fun e he => ?_
  simpa using h e he

@[simp] theorem leavers_self (naps : List Sleeper) : leavers naps naps = [] :=
  leavers_eq_nil fun _ he => he

@[simp] theorem leavers_append (naps new : List Sleeper) : leavers naps (naps ++ new) = [] :=
  leavers_eq_nil fun _ he => List.mem_append_left new he

theorem leavers_filter (naps : List Sleeper) (p : Sleeper → Bool) :
    leavers naps (naps.filter p) = naps.filter fun e => !p e := by
  refine List.filter_congr fun e he => ?_
  cases hp : p e <;> simp [he, hp]

theorem leavers_erase {naps : List Sleeper} (hnodup : naps.Nodup) {e : Sleeper} (he : e ∈ naps) :
    leavers naps (naps.erase e) = [e] := by
  have hthis : (fun a => !(a != e)) = fun a : Sleeper => a == e := by
    funext a
    simp [bne]
  rw [hnodup.erase_eq_filter, leavers_filter, hthis, List.filter_beq,
    List.count_eq_one_of_mem hnodup he, List.replicate_one]

/-- Who leaves and who stays are together everybody. -/
theorem leavers_append_filter_perm (naps : List Sleeper) (p : Sleeper → Bool) :
    (leavers naps (naps.filter p) ++ naps.filter p).Perm naps := by
  rw [leavers_filter]
  exact List.perm_append_comm.trans (List.filter_append_perm p naps)

/-- Those that leave at a pulse were due. -/
theorem leavers_perm_due {q : SleepQueue} {naps : List Sleeper} (hlists : q.Lists naps)
    (now : Nat) :
    (leavers naps (naps.filter fun e => now < e.deadline)).Perm (q.due now) := by
  have hdue : (fun e : Sleeper => !decide (now < e.deadline)) =
      fun e => decide (e.deadline ≤ now) := by
    funext e
    rw [← decide_not]
    exact decide_eq_decide.mpr Nat.not_lt
  rw [leavers_filter, hdue]
  exact (hlists.perm_due now).symm

section

variable {π : Type} {s s' : Scheduler π} {naps naps' : List Sleeper} {step : SchedulerStep}
  {answer : StepAnswer}

theorem ended_perm {m : Moment π} (hlists : m.before.sleepers.Lists naps)
    (hlists' : m.after.sleepers.Lists naps') : m.ended.Perm (leavers naps naps') := by
  have hmem : ∀ e, e ∈ m.after.sleepers.heap.toList ↔ e ∈ naps' := fun e => hlists'.perm.mem_iff
  simp only [Moment.ended, hmem]
  exact hlists.perm.filter _

namespace Effect

variable [Policy π]

/-- The running thread falls asleep behind the other sleepers, or sleepers leave. -/
theorem sleepers_cases (h : s.Effect naps step answer s' naps') (hlists : s.sleepers.Lists naps) :
    (∃ deadline t, naps' = naps ++ [⟨deadline, t, s.sleepers.nextSeq⟩]) ∧
        h.moment.fellAsleep = true ∨
      (∃ p, naps' = naps.filter p) ∧ h.moment.fellAsleep = false := by
  have hnodup : naps.Nodup := .of_map _ hlists.distinct
  cases h with
  | dozed => exact Or.inl ⟨⟨_, _, rfl⟩, rfl⟩
  | woken | removed => exact Or.inr ⟨⟨_, hnodup.erase_eq_filter _⟩, rfl⟩
  | pulse => exact Or.inr ⟨⟨_, rfl⟩, rfl⟩
  | unchanged | registered | released | refused | early | resumes | alone | handed =>
    exact Or.inr ⟨⟨fun _ => true, (List.filter_eq_self.mpr fun _ _ => rfl).symm⟩, rfl⟩

/-- Who slept before, and who has fallen asleep, has left or sleeps. -/
theorem perm_seq (h : s.Effect naps step answer s' naps') (hlists : s.sleepers.Lists naps) :
    ((leavers naps naps' ++ naps').map (·.seq)).Perm (naps.map (·.seq) ++
      if h.moment.fellAsleep then [s.sleepers.nextSeq] else []) := by
  rcases h.sleepers_cases hlists with ⟨⟨deadline, t, rfl⟩, hslept⟩ | ⟨⟨p, rfl⟩, hslept⟩
  · simp [hslept]
  · rw [hslept]
    simpa using (leavers_append_filter_perm naps p).map (·.seq)

/-! ### The counts -/

theorem pulses (h : s.Effect naps step answer s' naps') :
    s'.stats.pulses = s.stats.pulses + h.moment.isPulse.toNat := by
  cases h <;> rfl

theorem earlyPulses (h : s.Effect naps step answer s' naps') :
    s'.stats.earlyPulses = s.stats.earlyPulses + h.moment.isEarly.toNat := by
  cases h <;> rfl

theorem nextSeq (h : s.Effect naps step answer s' naps') :
    s'.sleepers.nextSeq = s.sleepers.nextSeq + h.moment.fellAsleep.toNat := by
  cases h <;> rfl

theorem contextSwitches (h : s.Effect naps step answer s' naps') :
    s'.stats.contextSwitches = s.stats.contextSwitches + h.moment.plan?.isSome.toNat := by
  cases h with
  | handed =>
    rw [Moment.plan?, StepAnswer.plan?_decided]
    rfl
  | _ => rfl

/-- A pulse counts the sleepers that leave as expired. -/
theorem expirations (h : s.Effect naps step answer s' naps') (hlists : s.sleepers.Lists naps) :
    s'.stats.expirations = s.stats.expirations +
      if h.moment.isPulse then (leavers naps naps').length else 0 := by
  cases h with
  | pulse =>
    rename_i now clock heap hclock
    rw [(leavers_perm_due hlists now).length_eq]
    rfl
  | early => simp [Moment.isPulse]
  | _ => rfl

/-- Every other step counts them as cancelled. -/
theorem cancellations (h : s.Effect naps step answer s' naps') (hlists : s.sleepers.Lists naps) :
    s'.stats.cancellations = s.stats.cancellations +
      if h.moment.isPulse then 0 else (leavers naps naps').length := by
  have hnodup : naps.Nodup := .of_map _ hlists.distinct
  cases h with
  | woken he | removed he =>
    rw [leavers_erase hnodup (List.mem_of_find?_eq_some he)]
    rfl
  | pulse | early => rfl
  | _ => simp [Moment.isPulse, handedOver, dozing, current, hasOtherRunnable]

end Effect
end

/-! ### The calls to the policy -/

section

variable {π : Type} [Policy π] {s s' : Scheduler (Recorded π)} {naps naps' : List Sleeper}
  {step : SchedulerStep} {answer : StepAnswer}

theorem calls_afterPulse (s : Scheduler (Recorded π)) (now : Nat) (clock : TickClock)
    (heap : Array Sleeper) :
    (s.afterPulse now clock heap).policy.calls =
      s.policy.calls ++ (s.heard now clock.ticks).calls := by
  show (s.heard now clock.ticks).policy.calls = _
  unfold heard
  exact s.policy.calls_dialogue _ _ _

namespace Effect

/-- A pulse has the policy choose as often as it counts a rotation. -/
theorem rotations (h : s.Effect naps step answer s' naps') :
    s'.stats.rotations = s.stats.rotations + h.moment.pulseCalls.countP (·.picks) := by
  cases h with
  | pulse =>
    rename_i now clock heap hclock
    simp only [Moment.pulseCalls, Moment.isPulse, Moment.calls, calls_afterPulse, List.drop_left,
      Dialogue.countP_picks_calls, if_true]
    rfl
  | early => simp [Moment.pulseCalls, Moment.isPulse, Moment.calls]
  | _ => rfl

/-- The policy is told of the threads that were made ready, in their order, and of no others. -/
theorem exists_calls (h : s.Effect naps step answer s' naps') :
    ∃ calls, s'.policy.calls = s.policy.calls ++ calls ∧
      calls.filter (·.adds) = (h.moment.admitted ++ h.moment.returned).map .addReady := by
  cases h with
  | pulse =>
    rename_i now clock heap hclock
    exact ⟨_, calls_afterPulse s now clock heap, Policy.filter_adds_dialogue _ _ _ _⟩
  | woken he =>
    rename_i deadline e heap
    have hcalls : (Policy.addAll (Policy.others s.policy [e.thread]).2
        (Policy.others s.policy [e.thread]).1).calls =
        s.policy.calls ++ (Policy.others s.policy [e.thread]).1.map .addReady := by
      rw [Recorded.calls_addAll, Recorded.calls_others]
    refine ⟨_, hcalls, ?_⟩
    rw [PolicyCall.filter_adds_map]
    simp [Moment.admitted, Moment.returned, Moment.wakes, Moment.rotation]
  | dozed => exact ⟨_, Recorded.calls_pickNext _, rfl⟩
  | handed => exact ⟨_, Recorded.calls_pickNext _, rfl⟩
  | unchanged hidle =>
    refine ⟨[], (List.append_nil _).symm, ?_⟩
    simp [Moment.admitted, Moment.returned, Moment.rotation, Moment.wakes_of_idle hidle,
      Policy.others]
  | early | registered | released | resumes | removed | refused | alone =>
    refine ⟨[], (List.append_nil _).symm, ?_⟩
    simp [Moment.admitted, Moment.returned, Moment.rotation, Moment.wakes, Policy.others]

/-- At a pulse those are woken that leave, and by a cancellation one thread is. -/
theorem length_wakes (h : s.Effect naps step answer s' naps') (hlists : s.sleepers.Lists naps) :
    h.moment.wakes.length =
      (if h.moment.isPulse then (leavers naps naps').length else 0) +
        h.moment.cancelled.toNat := by
  cases h with
  | pulse =>
    rw [(leavers_perm_due hlists _).length_eq]
    exact List.length_map _
  | unchanged hidle =>
    rename_i response
    cases response with
    | woken t =>
      cases t with
      | none => rfl
      | some t => cases hidle
    | _ => rfl
  | early => simp [Moment.isPulse, Moment.wakes, Moment.cancelled]
  | _ => rfl

/-- Who is woken and does not hold the processor is added, and the running thread at a rotation. -/
theorem additions (h : s.Effect naps step answer s' naps') (hlists : s.sleepers.Lists naps) :
    s'.policy.calls.countP (·.adds) + h.moment.inPlace.length =
      s.policy.calls.countP (·.adds) +
        (if h.moment.isPulse then (leavers naps naps').length else 0) +
        h.moment.cancelled.toNat + h.moment.rotatedAwake.toNat := by
  obtain ⟨calls, hcalls, hadds⟩ := h.exists_calls
  have hadded : calls.countP (·.adds) =
      h.moment.admitted.length + h.moment.rotatedAwake.toNat := by
    rw [List.countP_eq_length_filter, hadds, List.length_map, List.length_append,
      h.moment.length_returned]
  have hwoken : h.moment.admitted.length + h.moment.inPlace.length = h.moment.wakes.length :=
    Policy.length_others _ _
  rw [h.length_wakes hlists] at hwoken
  rw [hcalls, List.countP_append, hadded]
  omega

/-- Every step books what it was. -/
theorem booked (h : s.Effect naps step answer s' naps') (hlists : s.sleepers.Lists naps)
    (hlists' : s'.sleepers.Lists naps') : h.moment.Booked := by
  have hended : h.moment.ended.Perm (leavers naps naps') := ended_perm hlists hlists'
  have hexpired : h.moment.expired.length =
      if h.moment.isPulse then (leavers naps naps').length else 0 := by
    rw [Moment.expired, ← hended.length_eq, apply_ite List.length, List.length_nil]
  have hwithdrawn : h.moment.withdrawn.length =
      if h.moment.isPulse then 0 else (leavers naps naps').length := by
    rw [Moment.withdrawn, ← hended.length_eq, apply_ite List.length, List.length_nil]
  refine ⟨h.pulses, h.earlyPulses, h.contextSwitches, h.rotations, ?_, ?_, ?_, h.nextSeq, ?_, ?_⟩
  · rw [hexpired]
    exact h.expirations hlists
  · rw [hwithdrawn]
    exact h.cancellations hlists
  · rw [hexpired]
    exact h.additions hlists
  · have hslept := (hlists.perm.symm.map (·.seq)).append_right
      (if h.moment.fellAsleep then [s.sleepers.nextSeq] else [])
    exact (((hended.append hlists'.perm).map _).trans (h.perm_seq hlists)).trans hslept
  · intro e he
    have hleft := List.mem_filter.mp (hended.mem_iff.mp he)
    by_contra hends
    exact of_decide_eq_true hleft.2 ((h.mem_iff hlists hleft.1).mpr hends)

end Effect

/-! ### Histories -/

/-- The steps that were taken since boot. Between two steps contexts are saved, and the owner of the
policy may change it. -/
inductive History (settings : Settings) :
    List (Moment (Recorded π)) → Scheduler (Recorded π) → Prop
  | boot (policy : π) (handoff : QueueId) :
      History settings [] (ofSettings settings ⟨policy, []⟩ handoff)
  | step {past : List (Moment (Recorded π))} {s s' : Scheduler (Recorded π)} {answer : StepAnswer}
      (step : SchedulerStep) :
      History settings past s → (s.take step).result = .ok (answer, s') →
      History settings (past ++ [⟨s, step, answer, s'⟩]) s'
  | save {past : List (Moment (Recorded π))} {s : Scheduler (Recorded π)} {threads : ThreadTable}
      (t : ThreadId) (context : SavedContext) :
      History settings past s → s.threads.setContext t context = .ok threads →
      History settings past { s with threads := threads }
  | govern {past : List (Moment (Recorded π))} {s : Scheduler (Recorded π)} (policy : π) :
      History settings past s →
      History settings past { s with policy := { s.policy with policy := policy } }

/-- The counts of a scheduler are what its steps were. -/
structure Balanced (past : List (Moment (Recorded π))) (s : Scheduler (Recorded π)) : Prop where
  pulses : s.stats.pulses = past.countP (·.isPulse)
  earlyPulses : s.stats.earlyPulses = past.countP (·.isEarly)
  contextSwitches : s.stats.contextSwitches = past.countP (·.plan?.isSome)
  rotations : s.stats.rotations = (past.flatMap (·.pulseCalls)).countP (·.picks)
  expirations : s.stats.expirations = (past.flatMap (·.expired)).length
  cancellations : s.stats.cancellations = (past.flatMap (·.withdrawn)).length
  /-- Who was woken was added to the policy unless it held the processor, and so was the running
  thread at a rotation, if it was awake. -/
  additions : s.policy.calls.countP (·.adds) + (past.flatMap (·.inPlace)).length =
    s.stats.expirations + past.countP (·.cancelled) + past.countP (·.rotatedAwake)
  /-- Who fell asleep was woken by the deadline, or taken out before it, or still sleeps. -/
  sleeps : past.countP (·.fellAsleep) =
    s.stats.expirations + s.stats.cancellations + s.sleepers.size
  nextSeq : s.sleepers.nextSeq = past.countP (·.fellAsleep)
  /-- Every sleep has ended once or lasts; the numbers of the sleeps are in the order in which they
  began. -/
  once : ((past.flatMap (·.ended) ++ s.sleepers.heap.toList).map (·.seq)).Perm
    (List.range (past.countP (·.fellAsleep)))
  /-- None has ended without a cause. -/
  causes : ∀ m ∈ past, ∀ e ∈ m.ended, m.Ends e.deadline e.thread

theorem countP_snoc {α : Type} (l : List α) (a : α) (p : α → Bool) :
    (l ++ [a]).countP p = l.countP p + (p a).toNat := by
  rw [List.countP_append, List.countP_singleton]
  cases p a <;> rfl

namespace Balanced

variable {past : List (Moment (Recorded π))}

theorem boot (settings : Settings) (policy : π) (handoff : QueueId) :
    Balanced [] (ofSettings settings (⟨policy, []⟩ : Recorded π) handoff) where
  pulses := rfl
  earlyPulses := rfl
  contextSwitches := rfl
  rotations := rfl
  expirations := rfl
  cancellations := rfl
  additions := rfl
  sleeps := rfl
  nextSeq := rfl
  once := List.Perm.nil
  causes _ hm := by cases hm

/-- What a step has booked keeps the balance. -/
theorem snoc {m : Moment (Recorded π)} (h : Balanced past m.before) (hm : m.Booked) :
    Balanced (past ++ [m]) m.after := by
  have hexpirations : m.after.stats.expirations = ((past ++ [m]).flatMap (·.expired)).length := by
    rw [List.flatMap_append, List.length_append, hm.expirations, h.expirations,
      List.flatMap_singleton]
  have hcancellations : m.after.stats.cancellations =
      ((past ++ [m]).flatMap (·.withdrawn)).length := by
    rw [List.flatMap_append, List.length_append, hm.cancellations, h.cancellations,
      List.flatMap_singleton]
  have honce : (((past ++ [m]).flatMap (·.ended) ++ m.after.sleepers.heap.toList).map (·.seq)).Perm
      (List.range ((past ++ [m]).countP (·.fellAsleep))) := by
    have hnew : List.range (past.countP (·.fellAsleep)) ++
        (if m.fellAsleep then [m.before.sleepers.nextSeq] else []) =
        List.range ((past ++ [m]).countP (·.fellAsleep)) := by
      rw [countP_snoc, h.nextSeq]
      cases m.fellAsleep with
      | true => exact List.range_succ.symm
      | false => exact List.append_nil _
    have hstep := hm.sleepers.append_left ((past.flatMap (·.ended)).map (·.seq))
    rw [← hnew]
    refine (List.Perm.of_eq ?_).trans (hstep.trans ((List.Perm.of_eq ?_).trans
      (h.once.append_right _)))
    · rw [List.flatMap_append, List.flatMap_singleton, List.append_assoc, List.map_append]
    · rw [List.map_append, List.append_assoc]
  refine ⟨?_, ?_, ?_, ?_, hexpirations, hcancellations, ?_, ?_, ?_, honce, ?_⟩
  · rw [hm.pulses, h.pulses, countP_snoc]
  · rw [hm.earlyPulses, h.earlyPulses, countP_snoc]
  · rw [hm.contextSwitches, h.contextSwitches, countP_snoc]
  · rw [hm.rotations, h.rotations, List.flatMap_append, List.countP_append, List.flatMap_singleton]
  · have hmoved := hm.additions
    have hbefore := h.additions
    rw [countP_snoc, countP_snoc, List.flatMap_append, List.length_append, List.flatMap_singleton,
      hm.expirations]
    omega
  · have hlength := honce.length_eq
    rw [List.length_map, List.length_append, Moment.length_ended, ← hexpirations, ← hcancellations,
      List.length_range, Array.length_toList] at hlength
    exact hlength.symm
  · rw [hm.nextSeq, h.nextSeq, countP_snoc]
  · intro m' hm'
    rcases List.mem_append.mp hm' with hm' | hm'
    · exact h.causes m' hm'
    · obtain rfl := List.mem_singleton.mp hm'
      exact hm.causes

end Balanced

variable {settings : Settings} {past : List (Moment (Recorded π))}

theorem History.balanced_and_sound (hcheck : settings.check = .ok ())
    (h : History settings past s) :
    Balanced past s ∧ ∃ (L : Layout Unit Unit) (naps : List Sleeper), s.Sound L [] naps := by
  induction h with
  | boot policy handoff => exact ⟨.boot settings policy handoff, _, [], sound_ofSettings hcheck _ _⟩
  | step step _ hs ih =>
    obtain ⟨hbalanced, L, naps, hsound⟩ := ih
    obtain ⟨naps', heffect, hsound'⟩ := (hsound.take_effect step).of_result hs
    exact ⟨hbalanced.snoc (heffect.booked hsound.lists hsound'.lists), L, naps', hsound'⟩
  | save t context _ hs ih =>
    obtain ⟨hbalanced, L, naps, hsound⟩ := ih
    exact ⟨{ hbalanced with }, L, naps, hsound.setContext hs⟩
  | govern policy _ ih =>
    obtain ⟨hbalanced, L, naps, hsound⟩ := ih
    exact ⟨{ hbalanced with }, L, naps, hsound.withPolicy _⟩

/-- In a history every step can be taken. -/
theorem History.exists_take (hcheck : settings.check = .ok ()) (h : History settings past s)
    (step : SchedulerStep) : ∃ answer s', (s.take step).result = .ok (answer, s') := by
  obtain ⟨-, L, naps, hsound⟩ := h.balanced_and_sound hcheck
  obtain ⟨⟨answer, s'⟩, hs, -⟩ := hsound.take_effect step
  exact ⟨answer, s', hs⟩

/-- In every history the counts are what the steps were, each sleep has ended once or lasts, and
every step can be taken. -/
theorem History.balanced (hcheck : settings.check = .ok ()) (h : History settings past s) :
    Balanced past s ∧ ∀ step, ∃ answer s', (s.take step).result = .ok (answer, s') :=
  ⟨(h.balanced_and_sound hcheck).1, h.exists_take hcheck⟩

end

/-- Whatever steps are to be taken, there is a history that goes on with them. -/
theorem History.takeAll {π : Type} [Policy π] {settings : Settings}
    (hcheck : settings.check = .ok ()) : ∀ (steps : List SchedulerStep)
    {past : List (Moment (Recorded π))} {s : Scheduler (Recorded π)}, History settings past s →
    (s.takeAll steps).Gives fun a => History settings (past ++ a.1) a.2
  | [], past, s, h => .pure (by rwa [List.append_nil])
  | next :: steps, past, s, h => by
    obtain ⟨answer, s', hs⟩ := h.exists_take hcheck next
    refine .bind ⟨_, hs, rfl⟩ fun a ha => ?_
    subst ha
    refine .bind (History.takeAll hcheck steps (h.step next hs)) fun b hb => .pure ?_
    rwa [List.append_assoc] at hb

/-- Two threads fall asleep. The second still holds the processor when it is woken; the first is
added to the policy when it is woken, and so is the second, from which it takes the processor. -/
theorem History.balanced_two_sleepers :
    ∃ (settings : Settings) (past : List (Moment (Recorded Fifo))) (s : Scheduler (Recorded Fifo)),
      settings.check = .ok () ∧ History settings past s ∧ past.countP (·.fellAsleep) = 2 ∧
      (past.flatMap (·.expired)).length = 2 ∧ (past.flatMap (·.inPlace)).length = 1 ∧
      past.countP (·.rotatedAwake) = 1 ∧ past.countP (·.plan?.isSome) = 2 ∧ Balanced past s := by
  have hcheck : ({ maxThreads := 2, sleepSlots := 2, quantum := 1 } : Settings).check = .ok () := by
    decide
  obtain ⟨⟨past, s⟩, hs, hhistory⟩ := History.takeAll hcheck
    [.call (.serve (.register {})), .call (.serve (.register {})), .call (.beginSleep 9),
      .call (.beginSleep 5), .call (.tick 5 true), .call (.tick 9 true)]
    (.boot (⟨[⟨1⟩], ⟨0⟩⟩ : Fifo) ⟨1⟩)
  have hcounts := Logged.eq_of_map_result
    (f := fun a => (a.1.countP (·.fellAsleep), (a.1.flatMap (·.expired)).length,
      (a.1.flatMap (·.inPlace)).length, a.1.countP (·.rotatedAwake), a.1.countP (·.plan?.isSome)))
    (b := (2, 2, 1, 1, 2)) hs (by decide +kernel)
  simp only [Prod.mk.injEq] at hcounts
  obtain ⟨hslept, hexpired, hinPlace, hawake, hplans⟩ := hcounts
  exact ⟨_, past, s, hcheck, hhistory, hslept, hexpired, hinPlace, hawake, hplans,
    (History.balanced hcheck hhistory).1⟩

end Scheduler
end PulseKernel
