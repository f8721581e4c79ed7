/-
# Nobody is turned away on the way to the policy

A thread that is made ready stands in the hand-off queue before it is passed to the policy,
and a ready queue turns a thread away if some structure still owns it. This does not happen
to a registered thread: a sleeper loses its tag before it is staged, nobody is due twice,
and the queue has been emptied when the running thread is to go back. What is turned away
is the running thread of a rotation that has no slot any more, and this is what the
scheduler counts (`Scheduler.History.never_rejected`).

A ready queue that turns a thread away leaves a notice (`ReadyQueue.joined_iff`), so it is
the notices of a step that are looked through (`Logged.rejections`): no part of the
scheduler leaves such a notice apart from the enqueueing itself.

Key definitions: `Notice.rejects`, `Logged.rejections`, `Moment.refused`,
`Moment.Staged`.
Key theorems: `ReadyQueue.joined_iff`, `Scheduler.Sound.rejections_expireDue`,
`Scheduler.Sound.rejections_rotate`, `Scheduler.Effect.staged`,
`Scheduler.History.never_rejected`.
-/
import PulseKernel.Proofs.SleepLedger

namespace PulseKernel

/-- Whether the notice says that a thread was not put on a ready queue. -/
def Notice.rejects : Notice → Bool
  | .enqueueRefused _ | .enqueueSkipped .. => true
  | _ => false

namespace Logged

variable {α β : Type} {x : Logged α} {f : α → Logged β}

/-- The notices of a step about threads that were not put on a ready queue. -/
def rejections (x : Logged α) : List Notice := x.notices.filter Notice.rejects

@[simp] theorem rejections_pure (a : α) : (pure a : Logged α).rejections = [] := rfl

@[simp] theorem rejections_lift (x : Except Fault α) : (liftM x : Logged α).rejections = [] := rfl

@[simp] theorem rejections_ofExcept (x : Except Fault α) : (ofExcept x).rejections = [] := rfl

@[simp] theorem rejections_fail (fault : Fault) : (fail fault : Logged α).rejections = [] := rfl

theorem rejections_bind_of_ok (f : α → Logged β) {a : α} (h : x.result = .ok a) :
    (x >>= f).rejections = x.rejections ++ (f a).rejections := by
  rw [bind_of_ok f h, rejections, rejections, rejections, List.filter_append]

/-- Steps without rejections have none together. -/
theorem rejections_bind (hx : x.rejections = [])
    (hf : ∀ a, x.result = .ok a → (f a).rejections = []) : (x >>= f).rejections = [] := by
  cases h : x.result with
  | error fault =>
    rw [bind_of_error f h]
    exact hx
  | ok a => rw [rejections_bind_of_ok f h, hx, hf a h, List.nil_append]

/-- What comes without rejections after a step adds none to it. -/
theorem rejections_bind_of_silent (hf : ∀ a, (f a).rejections = []) :
    (x >>= f).rejections = x.rejections := by
  cases h : x.result with
  | error fault =>
    rw [bind_of_error f h]
    rfl
  | ok a => rw [rejections_bind_of_ok f h, hf a, List.append_nil]

@[simp] theorem rejections_violate (component reason : String) (dump : Except Fault String) :
    (violate component reason dump : Logged α).rejections = [] := by
  refine rejections_bind rfl fun _ _ => rejections_bind rfl fun _ _ => ?_
  exact rejections_bind rfl fun _ _ => rfl

@[simp] theorem rejections_ensure (condition : Bool) (component reason : String)
    (dump : Except Fault String) : (ensure condition component reason dump).rejections = [] := by
  cases condition with
  | true => rfl
  | false => exact rejections_violate component reason dump

end Logged

open Logged

/-! ### Queues -/

namespace ReadyQueue

variable {q : ReadyQueue} {table : ThreadTable} {t : ThreadId}

theorem rejections_enqueue_of_free (q : ReadyQueue) (hg : table.tag t = .ok .unqueued) :
    (q.enqueue table t).rejections = [] := by
  unfold enqueue
  rw [hg]
  refine rejections_bind rfl fun table _ => ?_
  split
  · exact rejections_bind rfl fun _ _ => rfl
  · rfl

/-- A thread has joined a queue if no notice tells that it was turned away. -/
theorem joined_iff {joined : Bool} {q' : ReadyQueue} {table' : ThreadTable}
    (h : (q.enqueue table t).result = .ok (joined, q', table')) :
    joined = true ↔ (q.enqueue table t).rejections = [] := by
  cases hg : table.tag t with
  | error refusal =>
    rw [enqueue_of_refused q hg] at h ⊢
    cases h
    simp [rejections, Notice.rejects]
  | ok tag =>
    cases hq : tag.isQueued with
    | true =>
      rw [enqueue_of_queued q hg hq] at h ⊢
      cases h
      simp [rejections, Notice.rejects]
    | false =>
      obtain rfl := Tag.isQueued_eq_false_iff.mp hq
      refine iff_of_true ?_ (q.rejections_enqueue_of_free hg)
      unfold enqueue at h
      rw [hg] at h
      obtain ⟨table₁, -, h⟩ := result_bind_eq_ok.mp h
      split at h
      · obtain ⟨table₂, -, h⟩ := result_bind_eq_ok.mp h
        cases h
        rfl
      · cases h
        rfl

theorem rejections_dequeue (q : ReadyQueue) (table : ThreadTable) :
    (q.dequeue table).rejections = [] := by
  unfold dequeue
  split
  · rfl
  · refine rejections_bind rfl fun slot _ => ?_
    split
    · exact rejections_violate _ _ _
    · dsimp only
      split
      · exact rejections_bind rfl fun _ _ => rejections_bind rfl fun _ _ =>
          rejections_bind rfl fun _ _ => rejections_bind rfl fun _ _ => rfl
      · exact rejections_bind rfl fun _ _ => rejections_bind rfl fun _ _ =>
          rejections_bind rfl fun _ _ => rfl

end ReadyQueue

namespace SleepQueue

theorem rejections_take (q : SleepQueue) (table : ThreadTable) (i : Fin q.heap.size) :
    (q.take table i).rejections = [] := by
  unfold take
  refine rejections_bind rfl fun slot _ => ?_
  split
  · exact rejections_violate _ _ _
  · exact rejections_bind rfl fun _ _ => rfl

theorem rejections_insert (q : SleepQueue) (table : ThreadTable) (deadline : Nat) (t : ThreadId) :
    (q.insert table deadline t).rejections = [] := by
  unfold insert
  split
  · rfl
  · exact rejections_bind rfl fun _ _ => rfl

theorem rejections_removeThread (q : SleepQueue) (table : ThreadTable) (t : ThreadId) :
    (q.removeThread table t).rejections = [] := by
  unfold removeThread
  split
  · rfl
  · exact rejections_bind (q.rejections_take table _) fun _ _ => rfl

end SleepQueue

/-- A thread without a slot has no tag. -/
theorem ThreadTable.tag_of_not_contains {table : ThreadTable} {t : ThreadId}
    (h : table.contains t = false) : table.tag t = .error (.notRegistered t) := by
  cases hg : table.tag t with
  | error refusal => rw [(tag_eq_error.mp hg).1]
  | ok g =>
    rw [contains_iff.mpr ⟨g, hg⟩] at h
    cases h

/-- What a ready queue says of the running thread of a rotation, if it has no slot. -/
def Rotation.refusals (r : Rotation) (table : ThreadTable) : List Notice :=
  if table.contains r.running then [] else [.enqueueRefused (.notRegistered r.running)]

/-! ### The scheduler -/

namespace Scheduler

variable {π : Type} {L : Layout Unit Unit} {s s' : Scheduler π} {staged : List ThreadId}
  {naps naps' : List Sleeper} {t : ThreadId}

theorem rejections_handOff_of_free (hg : s.threads.tag t = .ok .unqueued) :
    (s.handOff t).rejections = [] := by
  refine rejections_bind (s.handoff.rejections_enqueue_of_free hg) fun a _ => ?_
  obtain ⟨joined, handoff, threads⟩ := a
  cases joined <;> rfl

theorem rejections_handOff_of_not_contains (h : s.threads.contains t = false) :
    (s.handOff t).rejections = [.enqueueRefused (.notRegistered t)] := by
  rw [Scheduler.handOff,
    ReadyQueue.enqueue_of_refused s.handoff (ThreadTable.tag_of_not_contains h)]
  rfl

theorem rejections_planSwitch (s : Scheduler π) (source target : ThreadId) :
    (s.planSwitch source target).rejections = [] := by
  unfold Scheduler.planSwitch
  split
  · rfl
  · rfl
  · exact rejections_bind rfl fun _ _ => rfl

theorem rejections_cancelThreadSleep (s : Scheduler π) (t : ThreadId) :
    (s.cancelThreadSleep t).rejections = [] := by
  refine rejections_bind (s.sleepers.rejections_removeThread s.threads t) fun a _ => ?_
  obtain ⟨_ | deadline, sleepers, threads⟩ := a <;> rfl

theorem rejections_audit (s : Scheduler π) : s.audit.rejections = [] :=
  rejections_bind (rejections_ensure _ _ _ _) fun _ _ =>
    rejections_bind (rejections_ensure _ _ _ _) fun _ _ =>
      rejections_bind rfl fun _ _ => rejections_ensure _ _ _ _

variable [Policy π]

theorem rejections_flushUpTo : ∀ (most : Nat) (s : Scheduler π), (s.flushUpTo most).rejections = []
  | 0, _ => rfl
  | most + 1, s => by
    refine rejections_bind (s.handoff.rejections_dequeue s.threads) fun a _ => ?_
    obtain ⟨_ | t, handoff, threads⟩ := a
    · rfl
    · exact rejections_flushUpTo most _

theorem rejections_flushHandoff (s : Scheduler π) : s.flushHandoff.rejections = [] :=
  rejections_flushUpTo _ s

/-- A thread that no structure owns any more is woken without being turned away. -/
theorem rejections_wake (hg : s.threads.tag t = .ok .unqueued) : (s.wake t).rejections = [] := by
  have hwake : s.wake t = if t = s.current.1 then
      (do Logged.note (.resumesInPlace t); return s.current.2) else s.current.2.handOff t := rfl
  rw [hwake]
  split
  · exact rejections_bind rfl fun _ _ => rfl
  · exact rejections_handOff_of_free hg

theorem rejections_tick_early (s : Scheduler π) (now : Nat) :
    (s.tick now false).rejections = [] := by
  refine rejections_bind ?_ fun _ _ => rfl
  unfold Scheduler.countPulse
  split <;> rfl

theorem rejections_beginSleep (s : Scheduler π) (deadline : Nat) :
    (s.beginSleep deadline).rejections = [] := by
  refine rejections_bind (s.current.2.sleepers.rejections_insert _ _ _) fun a _ => ?_
  obtain ⟨refusal | ⟨⟩, sleepers, threads⟩ := a
  · rfl
  · exact rejections_bind rfl fun _ _ =>
      rejections_bind (rejections_planSwitch _ _ _) fun _ _ => rfl

theorem rejections_reconsider (s : Scheduler π) (me : ThreadId) :
    (s.reconsider me).rejections = [] := by
  unfold Scheduler.reconsider
  dsimp only
  split
  · rfl
  split
  · rfl
  · refine rejections_bind (rejections_planSwitch _ _ _) fun a _ => ?_
    obtain ⟨_ | plan, s'⟩ := a <;> rfl

namespace Sound

theorem rejections_cancelSleep (h : s.Sound L [] naps) (deadline : Nat) :
    (s.cancelSleep deadline).rejections = [] := by
  unfold Scheduler.cancelSleep
  cases he : naps.find? (·.deadline == deadline) with
  | none =>
    rw [h.lists.remove_none he, pure_bind]
    exact rejections_bind rfl fun _ _ => rfl
  | some e =>
    obtain ⟨hq, -, hg⟩ := h.remove_eq he
    rw [hq, pure_bind]
    exact rejections_bind (rejections_wake hg) fun s' _ =>
      rejections_bind s'.rejections_flushHandoff fun _ _ => rfl

/-- Who is due has lost its tag before it is staged. -/
theorem rejections_expireUpTo (now : Nat) : ∀ (most : Nat) {s : Scheduler π}
    {staged : List ThreadId} {naps : List Sleeper}, s.Sound L staged naps →
    (s.expireUpTo now most).rejections = []
  | 0, _, _, _, _ => rfl
  | most + 1, s, staged, naps, h => by
    cases hdue : s.sleepers.due now with
    | nil =>
      rw [h.expireUpTo_of_nil hdue]
      rfl
    | cons e due =>
      obtain ⟨hsound, hg, -⟩ := h.expired hdue
      obtain ⟨s₁, hs₁, table, -, hsound₁, -⟩ := hsound.wake_eq hg
      rw [h.expireUpTo_of_cons hdue]
      refine rejections_bind rfl fun _ _ => rejections_bind (rejections_wake hg) fun s' hs' => ?_
      obtain rfl := Except.ok.inj (hs₁.symm.trans hs')
      exact rejections_expireUpTo now most hsound₁

theorem rejections_expireDue (h : s.Sound L [] naps) (now : Nat) :
    (s.expireDue now).rejections = [] := by
  unfold Scheduler.expireDue
  split
  · rfl
  · exact rejections_bind (rejections_expireUpTo now _ h) fun s' _ =>
      rejections_bind s'.rejections_flushHandoff fun _ _ => rfl

/-- Who goes back to the policy is turned away if it has no slot. -/
theorem rejections_sendBack (h : s.Sound L [] naps) (t : ThreadId) :
    (s.sendBack t).rejections =
      if s.threads.contains t then [] else [.enqueueRefused (.notRegistered t)] := by
  unfold Scheduler.sendBack
  cases hsleep : s.isSleeping t with
  | true =>
    have hcontains : s.threads.contains t = true :=
      ThreadTable.contains_iff.mpr ⟨_, ThreadTable.hasTag_iff.mp hsleep⟩
    rw [if_pos rfl, if_pos hcontains]
    rfl
  | false =>
    rw [if_neg Bool.false_ne_true]
    cases hcontains : s.threads.contains t with
    | true =>
      have hawake : s.awake t = true := by simp [awake, hsleep, hcontains]
      rw [if_pos rfl]
      exact rejections_bind (rejections_handOff_of_free (h.awake_iff.mp hawake)) fun s' _ =>
        s'.rejections_flushHandoff
    | false =>
      have hg : s.threads.tag t ≠ .ok .unqueued := by
        rw [ThreadTable.tag_of_not_contains hcontains]
        simp
      rw [if_neg Bool.false_ne_true, rejections_bind_of_ok _ (handOff_of_not_free hg),
        rejections_handOff_of_not_contains hcontains, rejections_flushHandoff, List.append_nil]

theorem rejections_turn (h : s.Sound L [] naps) :
    s.turn.rejections = (Policy.turn s.policy s.awake).1.refusals s.threads := by
  rw [Scheduler.turn, rejections_bind_of_ok _ (h.current.sendBack_eq s.current.1),
    rejections_planSwitch, List.append_nil, h.current.rejections_sendBack]
  rfl

theorem rejections_rotate (h : s.Sound L [] naps) :
    s.rotate.rejections =
      (Policy.consult s.policy (s.clock.ticks % s.quantum = 0) s.awake).2.1.elim []
        (·.refusals s.threads) := by
  cases hbusy : s.hasOtherRunnable.1 with
  | false =>
    rw [rotate_of_idle hbusy, Policy.consult_of_idle _ _ hbusy]
    rfl
  | true =>
    by_cases hover : s.clock.ticks % s.quantum = 0
    · rw [rotate_of_over h.quantum hbusy hover, h.hasOtherRunnable.rejections_turn,
        decide_eq_true hover, Policy.consult_of_over _ hbusy]
      rfl
    · rw [rotate_of_early h.quantum hover, decide_eq_false hover, Policy.consult_of_early]
      rfl

/-- Of a pulse only the rotation can turn a thread away. -/
theorem rejections_tick (h : s.Sound L [] naps) (now : Nat) {clock : TickClock}
    (hclock : s.clock.advance? = some clock) :
    (s.tick now true).rejections = (s.heard now clock.ticks).rotation.elim []
      (·.refusals (s.threads.freed ((s.sleepers.due now).map (·.thread)))) := by
  obtain ⟨clock', hclock', hcount, h₁⟩ := h.countPulse_eq
  obtain rfl := Option.some.inj (hclock.symm.trans hclock')
  obtain ⟨a, ha, heq, h₂⟩ := h₁.expireDue_eq now
  rw [Scheduler.tick, hcount, pure_bind, if_neg (by simp), rejections_bind_of_ok _ ha,
    h₁.rejections_expireDue, List.nil_append, rejections_bind_of_ok _ h₂.rotate_eq,
    h₂.rejections_rotate, rejections_pure, List.append_nil, heq]
  rfl

end Sound

end Scheduler

/-! ### What a step admits -/

namespace Moment

variable {π : Type}

/-- A thread was taken out of the sleep queue by its name, and not woken. -/
def takenOut (m : Moment π) : Bool :=
  match m.answer with
  | .served (.removed (some _)) => true
  | _ => false

variable [Policy π]

/-- The notices of the step about threads that were not put on the hand-off queue. -/
def rejections (m : Moment π) : List Notice := (m.before.take m.step).rejections

/-- What the hand-off queue says of the thread that held the processor at a rotation, if it was not
registered. -/
def refused (m : Moment π) : List Notice := m.rotation.elim [] (·.refusals m.after.threads)

/-- A pulse gave the processor to the next thread, and the one that held it was not registered. -/
def rotatedUnregistered (m : Moment π) : Bool :=
  m.rotation.any fun r => !m.after.threads.contains r.running

/-- Every thread that the step made ready came to the policy, and the hand-off queue turned away
none but the running thread of a rotation that was not registered. -/
structure Staged (m : Moment (Recorded π)) : Prop where
  /-- Who left the sleep queue was woken, unless it was taken out by its name. -/
  wakes : m.wakes.Perm ((if m.takenOut then [] else m.ended).map (·.thread))
  /-- Those that were woken were added to the policy if they did not hold the processor, and then
  the one that held it, if it was to go on. -/
  additions : m.calls.filter (·.adds) = (m.admitted ++ m.returned).map .addReady
  rejections : m.rejections = m.refused
  redundantEnqueues : m.after.stats.redundantEnqueues =
    m.before.stats.redundantEnqueues + m.rotatedUnregistered.toNat

end Moment

namespace Scheduler

section

variable {π : Type} [Policy π] {s s' : Scheduler (Recorded π)} {L : Layout Unit Unit}
  {naps naps' : List Sleeper} {step : SchedulerStep} {answer : StepAnswer}

namespace Effect

/-- Who leaves the sleep queue is woken, unless it is taken out by its name. -/
theorem wakes_perm (h : s.Effect naps step answer s' naps') (hlists : s.sleepers.Lists naps) :
    h.moment.wakes.Perm
      ((if h.moment.takenOut then [] else leavers naps naps').map (·.thread)) := by
  have hnodup : naps.Nodup := .of_map _ hlists.distinct
  cases h with
  | pulse => exact ((leavers_perm_due hlists _).map _).symm
  | woken he =>
    rw [leavers_erase hnodup (List.mem_of_find?_eq_some he)]
    exact List.Perm.refl _
  | removed he => exact List.Perm.refl _
  | unchanged hidle =>
    rw [leavers_self, ite_self, Moment.wakes_of_idle hidle]
    exact List.Perm.refl _
  | dozed | registered | released | refused | early | resumes | alone | handed =>
    simp [Moment.wakes, Moment.takenOut]

/-- The policy is told of the threads that were made ready, in their order, and of no others. -/
theorem filter_adds_calls (h : s.Effect naps step answer s' naps') :
    h.moment.calls.filter (·.adds) = (h.moment.admitted ++ h.moment.returned).map .addReady := by
  obtain ⟨calls, hcalls, hadds⟩ := h.exists_calls
  have hmoment : h.moment.calls = calls := by
    rw [Moment.calls, hcalls, List.drop_left]
  rw [hmoment, hadds]

theorem redundantEnqueues (h : s.Effect naps step answer s' naps') :
    s'.stats.redundantEnqueues =
      s.stats.redundantEnqueues + h.moment.rotatedUnregistered.toNat := by
  cases h <;> rfl

end Effect

namespace Sound

theorem rejections_serve (h : s.Sound L [] naps) (request : Request) :
    (s.serve request).rejections = [] := by
  cases request with
  | register context =>
    refine rejections_bind ?_ fun _ _ => rfl
    unfold Scheduler.register
    generalize s.threads.register context = a
    obtain ⟨refusal | t, threads⟩ := a
    · rfl
    · exact rejections_bind rfl fun _ _ => rfl
  | release t =>
    refine rejections_bind ?_ fun _ _ => rfl
    unfold Scheduler.release
    generalize s.threads.release t = a
    obtain ⟨refusal | ⟨⟩, threads⟩ := a
    · rfl
    · exact rejections_bind rfl fun _ _ => rfl
  | cancelSleep deadline =>
    exact rejections_bind (h.rejections_cancelSleep deadline) fun _ _ => rfl
  | cancelThreadSleep t =>
    exact rejections_bind (s.rejections_cancelThreadSleep t) fun _ _ => rfl
  | audit => exact rejections_bind s.rejections_audit fun _ _ => rfl
  | ticks | uptime | stats | isSleeping => rfl

/-- No step turns a thread away apart from a rotation. -/
theorem rejections_take (h : s.Sound L [] naps) (heffect : s.Effect naps step answer s' naps') :
    heffect.moment.rejections = heffect.moment.refused := by
  cases heffect with
  | pulse hclock =>
    exact (rejections_bind_of_silent fun _ => rfl).trans (h.rejections_tick _ hclock)
  | early => exact rejections_bind (s.rejections_tick_early _) fun _ _ => rfl
  | unchanged | registered | released | woken | removed =>
    exact rejections_bind (h.rejections_serve _) fun _ _ => rfl
  | refused | dozed => exact rejections_bind (s.rejections_beginSleep _) fun _ _ => rfl
  | resumes | alone | handed => exact rejections_bind (s.rejections_reconsider _) fun _ _ => rfl

end Sound

/-- What a step makes ready comes to the policy. -/
theorem Effect.staged (h : s.Effect naps step answer s' naps') (hsound : s.Sound L [] naps)
    (hlists' : s'.sleepers.Lists naps') : h.moment.Staged where
  wakes := by
    have hended : h.moment.ended.Perm (leavers naps naps') := ended_perm hsound.lists hlists'
    refine (h.wakes_perm hsound.lists).trans (List.Perm.map _ ?_)
    split
    · exact List.Perm.refl _
    · exact hended.symm
  additions := h.filter_adds_calls
  rejections := hsound.rejections_take h
  redundantEnqueues := h.redundantEnqueues

theorem History.staged_and_counted {settings : Settings} {past : List (Moment (Recorded π))}
    (hcheck : settings.check = .ok ()) (h : History settings past s) :
    (∀ m ∈ past, m.Staged) ∧
      s.stats.redundantEnqueues = past.countP (·.rotatedUnregistered) := by
  induction h with
  | boot policy handoff => exact ⟨fun _ hm => (nomatch hm), rfl⟩
  | step step hbefore hs ih =>
    obtain ⟨hstaged, hcount⟩ := ih
    obtain ⟨-, L, naps, hsound⟩ := hbefore.balanced_and_sound hcheck
    obtain ⟨naps', heffect, hsound'⟩ := (hsound.take_effect step).of_result hs
    have hlast := heffect.staged hsound hsound'.lists
    refine ⟨fun m hm => ?_, ?_⟩
    · rcases List.mem_append.mp hm with hm | hm
      · exact hstaged m hm
      · obtain rfl := List.mem_singleton.mp hm
        exact hlast
    · rw [countP_snoc, ← hcount]
      exact hlast.redundantEnqueues
  | save t context _ _ ih => exact ih
  | govern policy _ ih => exact ih

/-- In every history each step passes to the policy whom it makes ready, no registered thread is
turned away by the hand-off queue, and what the scheduler counts as redundant are the rotations
whose running thread was not registered; and every step can be taken. -/
theorem History.never_rejected {settings : Settings} {past : List (Moment (Recorded π))}
    (hcheck : settings.check = .ok ()) (h : History settings past s) :
    (∀ m ∈ past, m.Staged) ∧
    s.stats.redundantEnqueues = past.countP (·.rotatedUnregistered) ∧
    ∀ step, ∃ answer s', (s.take step).result = .ok (answer, s') := by
  obtain ⟨hstaged, hcount⟩ := h.staged_and_counted hcheck
  exact ⟨hstaged, hcount, h.exists_take hcheck⟩

end

/-- The first rotation finds the running thread awake, and the second one finds that it has been
released. -/
theorem History.never_rejected_released :
    ∃ (settings : Settings) (past : List (Moment (Recorded Fifo))) (s : Scheduler (Recorded Fifo)),
      settings.check = .ok () ∧ History settings past s ∧
      past.map (·.returned) = [[], [], [⟨0⟩], [], []] ∧
      past.map (·.rejections) = [[], [], [], [], [.enqueueRefused (.notRegistered ⟨1⟩)]] ∧
      (∀ m ∈ past, m.Staged) ∧ s.stats.redundantEnqueues = 1 ∧
      past.countP (·.rotatedUnregistered) = 1 := by
  have hcheck : ({ maxThreads := 2, sleepSlots := 2, quantum := 1 } : Settings).check = .ok () := by
    decide
  obtain ⟨⟨past, s⟩, hs, hhistory⟩ := History.takeAll hcheck
    [.call (.serve (.register {})), .call (.serve (.register {})), .call (.tick 5 true),
      .call (.serve (.release ⟨1⟩)), .call (.tick 9 true)]
    (.boot (⟨[⟨1⟩], ⟨0⟩⟩ : Fifo) ⟨1⟩)
  have hseen := Logged.eq_of_map_result
    (f := fun a => (a.1.map (·.returned), a.1.map (·.rejections), a.2.stats.redundantEnqueues))
    (b := ([[], [], [⟨0⟩], [], []], [[], [], [], [], [.enqueueRefused (.notRegistered ⟨1⟩)]], 1))
    hs (by decide +kernel)
  simp only [Prod.mk.injEq] at hseen
  obtain ⟨hreturned, hrejections, hcount⟩ := hseen
  obtain ⟨hstaged, hcounted, -⟩ := History.never_rejected hcheck hhistory
  exact ⟨_, past, s, hcheck, hhistory, hreturned, hrejections, hstaged, hcount,
    hcounted.symm.trans hcount⟩

end Scheduler
end PulseKernel
