/-
# The states of a scheduler

A scheduler is made by accepted settings. From then on it is called, its waiting
sleepers reconsider, contexts are saved when the processor changes hands, and the
policy, which the scheduler does not own, changes as it likes (`Scheduler.Reached`).
What is proved of every reached scheduler is proved from what every such step keeps
up: nobody waits in the hand-off queue, and the accounts of the table and the sleep
queue are in order (`Scheduler.Reached.sound`).

Key definitions: `Scheduler.Reached`.
Key theorems: `Scheduler.Reached.sound`, `Scheduler.Reached.exists_callAll`.
-/
import PulseKernel.Proofs.SchedulerSafety

namespace PulseKernel
namespace Scheduler

variable {π : Type} {L : Layout Unit Unit} {s : Scheduler π} {staged : List ThreadId}
  {naps : List Sleeper}

/-- The states that a scheduler can come to, with any policy. -/
inductive Reached [Policy π] : Scheduler π → Prop where
  | boot {settings : Settings} (hcheck : settings.check = .ok ()) (policy : π)
      (handoff : QueueId) : Reached (ofSettings settings policy handoff)
  | call {s s' : Scheduler π} (c : SchedulerCall) :
      Reached s → (s.call c).result = .ok s' → Reached s'
  /-- A sleeper that waits looked at what it is to do. -/
  | reconsider {s s' : Scheduler π} {verdict : IdleVerdict} (me : ThreadId) :
      Reached s → (s.reconsider me).result = .ok (verdict, s') → Reached s'
  /-- The context of a thread that gave up the processor was saved. -/
  | save {s : Scheduler π} {threads : ThreadTable} (t : ThreadId) (context : SavedContext) :
      Reached s → s.threads.setContext t context = .ok threads →
      Reached { s with threads := threads }
  /-- The policy was changed by its owner. -/
  | govern {s : Scheduler π} (policy : π) : Reached s → Reached { s with policy := policy }

namespace Sound

theorem setContext (h : s.Sound L staged naps) {t : ThreadId} {context : SavedContext}
    {threads : ThreadTable} (hq : s.threads.setContext t context = .ok threads) :
    ({ s with threads := threads } : Scheduler π).Sound L staged naps :=
  ⟨h.accounts.setContext hq, h.pending, h.remainder, h.quantum⟩

variable [Policy π]

theorem reconsider (h : s.Sound L staged naps) (me : ThreadId) :
    (s.reconsider me).Gives fun a => a.2.Sound L staged naps := by
  unfold Scheduler.reconsider
  split
  · exact .pure h
  · have h₁ := h.hasOtherRunnable
    generalize s.hasOtherRunnable = a at h₁
    obtain ⟨other, s₁⟩ := a
    cases other with
    | false => exact .pure h₁
    | true =>
      refine .bind (h₁.pickNext.planSwitch me _) fun b h₂ => ?_
      obtain ⟨plan, s₂⟩ := b
      cases plan <;> exact .pure h₂

end Sound

/-- The accounts of a reached scheduler are in order, and its hand-off queue is empty. -/
theorem Reached.sound [Policy π] (h : s.Reached) :
    ∃ (L : Layout Unit Unit) (naps : List Sleeper), s.Sound L [] naps := by
  induction h with
  | boot hcheck policy handoff => exact ⟨_, [], sound_ofSettings hcheck policy handoff⟩
  | call c _ hs ih =>
    obtain ⟨L, naps, h⟩ := ih
    obtain ⟨naps', h'⟩ := (h.call c).of_result hs
    exact ⟨L, naps', h'⟩
  | reconsider me _ hs ih =>
    obtain ⟨L, naps, h⟩ := ih
    exact ⟨L, naps, (h.reconsider me).of_result hs⟩
  | save t context _ hs ih =>
    obtain ⟨L, naps, h⟩ := ih
    exact ⟨L, naps, h.setContext hs⟩
  | govern policy _ ih =>
    obtain ⟨L, naps, h⟩ := ih
    exact ⟨L, naps, h.withPolicy policy⟩

theorem Reached.callAll [Policy π] : ∀ (calls : List SchedulerCall) {s s' : Scheduler π},
    s.Reached → (s.callAll calls).result = .ok s' → s'.Reached
  | [], s, s', h, hs => by
    obtain rfl : s = s' := Except.ok.inj hs
    exact h
  | c :: calls, s, s', h, hs => by
    obtain ⟨s₁, hs₁, hs'⟩ := Logged.result_bind_eq_ok.mp hs
    exact Reached.callAll calls (.call c h hs₁) hs'

/-- Calls after boot come to an end, in a reached state. -/
theorem Reached.exists_callAll [Policy π] {settings : Settings} (hcheck : settings.check = .ok ())
    (policy : π) (handoff : QueueId) (calls : List SchedulerCall) :
    ∃ s, ((ofSettings settings policy handoff).callAll calls).result = .ok s ∧ s.Reached := by
  obtain ⟨s, hs, -⟩ := (sound_ofSettings hcheck policy handoff).callAll calls
  exact ⟨s, hs, .callAll calls (.boot hcheck policy handoff) hs⟩

end Scheduler
end PulseKernel
