/-
# The scheduler is safe with any policy

Everything that can be asked of a scheduler with accepted settings, in any order
and with any arguments, it does without a fault: requests, sleeps and pulses.
Between two of them nobody waits in the hand-off queue, the sleepers are the
threads tagged asleep, and an audit finds nothing (`Scheduler.Safe`). The policy
may answer whatever it likes.

Key definitions: `SchedulerCall`, `Scheduler.callAll`, `Scheduler.Safe`.
Key theorems: `Scheduler.Sound.callAll`, `Scheduler.callAll_safe`.
-/
import PulseKernel.Policy.Fifo
import PulseKernel.Proofs.Audit

namespace PulseKernel

/-- Something that the scheduler is called for. -/
inductive SchedulerCall where
  /-- A thread's request: registering, releasing, cancelling, a question or an audit. -/
  | serve (request : Request)
  /-- The running thread falls asleep. -/
  | beginSleep (deadline : Nat)
  /-- A pulse of the timer, at the time that the monotonic clock would show. -/
  | tick (now : Nat) (booted : Bool)

namespace Scheduler

variable {π : Type} {L : Layout Unit Unit} {s : Scheduler π} {naps : List Sleeper}

/-- What is true of the scheduler whenever nobody is in it. -/
structure Safe (s : Scheduler π) : Prop where
  /-- Nobody waits in the hand-off queue. -/
  handoff_head : s.handoff.head = none
  handoff_tail : s.handoff.tail = none
  handoff_size : s.handoff.size = 0
  /-- The sleepers are registered threads that are tagged asleep. -/
  asleep : ∀ e ∈ s.sleepers.heap, s.threads.tag e.thread = .ok .asleep
  /-- No thread is tagged with a ready queue. -/
  not_ready : ∀ t q, s.threads.tag t ≠ .ok (.ready q)
  audit : s.audit.result = .ok ()

theorem Sound.safe (h : s.Sound L [] naps) : s.Safe where
  handoff_head := by rw [h.queue]; rfl
  handoff_tail := by rw [h.queue]; rfl
  handoff_size := by rw [h.queue]; rfl
  asleep e he :=
    h.accounts.asleep () e.thread (List.mem_map_of_mem (h.lists.mem_heap_iff.mp he))
  not_ready t q hg := by
    obtain ⟨-, -, ht⟩ := h.accounts.ready_of_tag t q hg
    cases ht
  audit := by
    obtain ⟨⟨⟩, hresult, -⟩ := h.audit
    exact hresult

/-- The scheduler's part of the table is laid out by the settings. -/
def layout (settings : Settings) (handoff : QueueId) : Layout Unit Unit where
  slots := settings.maxThreads
  id _ := handoff
  distinct := Function.injective_of_subsingleton _
  room _ := settings.sleepSlots

theorem sound_ofSettings {settings : Settings} (hcheck : settings.check = .ok ()) (policy : π)
    (handoff : QueueId) :
    (ofSettings settings policy handoff).Sound (layout settings handoff) [] [] := by
  obtain ⟨hquantum, hremainder, -⟩ := Settings.check_eq_ok.mp hcheck
  have hpending : 0 < nanosPerTick := by decide
  refine ⟨SharedTable.Accounts.fresh (layout settings handoff), hpending, hremainder, fun e => ?_⟩
  exact hquantum (UInt32.toNat_inj.mp e)

/-! ### Calls -/

variable [Policy π]

/-- The scheduler after a call. -/
def call (s : Scheduler π) : SchedulerCall → Logged (Scheduler π)
  | .serve request => do return (← s.serve request).2
  | .beginSleep deadline => do return (← s.beginSleep deadline).2
  | .tick now booted => do return (← s.tick now booted).2

/-- The scheduler after one call upon the other. -/
def callAll (s : Scheduler π) : List SchedulerCall → Logged (Scheduler π)
  | [] => return s
  | c :: calls => do
    let s ← s.call c
    s.callAll calls

theorem Sound.serve (h : s.Sound L [] naps) (request : Request) :
    (s.serve request).Gives fun a => ∃ naps', a.2.Sound L [] naps' := by
  cases request with
  | register context => exact .bind (h.register context) fun a h' => .pure ⟨naps, h'⟩
  | release t => exact .bind (h.release t) fun a h' => .pure ⟨naps, h'⟩
  | cancelSleep deadline => exact .bind (h.cancelSleep deadline) fun a h' => .pure h'
  | cancelThreadSleep t => exact .bind (h.cancelThreadSleep t) fun a h' => .pure h'
  | ticks => exact .pure ⟨naps, h⟩
  | uptime => exact .pure ⟨naps, h⟩
  | stats => exact .pure ⟨naps, h⟩
  | isSleeping t => exact .pure ⟨naps, h⟩
  | audit => exact .bind h.audit fun _ _ => .pure ⟨naps, h⟩

theorem Sound.call (h : s.Sound L [] naps) (c : SchedulerCall) :
    (s.call c).Gives fun s' => ∃ naps', s'.Sound L [] naps' := by
  cases c with
  | serve request => exact .bind (h.serve request) fun a h' => .pure h'
  | beginSleep deadline => exact .bind (h.beginSleep deadline) fun a h' => .pure h'
  | tick now booted => exact .bind (h.tick now booted) fun a h' => .pure h'

theorem Sound.callAll : ∀ (calls : List SchedulerCall) {s : Scheduler π} {naps : List Sleeper},
    s.Sound L [] naps → (s.callAll calls).Gives fun s' => ∃ naps', s'.Sound L [] naps'
  | [], s, naps, h => .pure ⟨naps, h⟩
  | c :: calls, s, naps, h => by
    refine .bind (h.call c) fun s' hs' => ?_
    obtain ⟨naps', h'⟩ := hs'
    exact Sound.callAll calls h'

/-- A scheduler with accepted settings never comes to a fault, and is safe after every call. -/
theorem callAll_safe {settings : Settings} (hcheck : settings.check = .ok ()) (policy : π)
    (handoff : QueueId) (calls : List SchedulerCall) :
    ∃ s, ((ofSettings settings policy handoff).callAll calls).result = .ok s ∧ s.Safe := by
  obtain ⟨s, hs, naps, h⟩ := (sound_ofSettings hcheck policy handoff).callAll calls
  exact ⟨s, hs, h.safe⟩

theorem callAll_safe_default :
    ({} : Settings).check = .ok () ∧
      ∃ s, ((ofSettings {} (⟨[], ⟨0⟩⟩ : Fifo) ⟨1⟩).callAll
        [.serve (.register {}), .beginSleep 5, .tick 7 true]).result = .ok s ∧ s.Safe :=
  ⟨Settings.check_default, callAll_safe Settings.check_default _ _ _⟩

end Scheduler
end PulseKernel
