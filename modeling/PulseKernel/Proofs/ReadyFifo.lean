/-
# First in, first out

In every state that queues over one table can come to, a ready queue is a list
of threads: it shows that list (`SharedTable.ShowsLine`), a thread joins it at
the end and leaves it at the front or from wherever it stands, a refusal changes
nothing, and no other operation changes the list (`SharedTable.ActsFifo`).

Key definitions: `ThreadTable.Free`, `SharedTable.ShowsLine`,
`SharedTable.ActsFifo`.
Key theorems: `Layout.run_actsFifo`.
-/
import PulseKernel.Proofs.Ownership

namespace PulseKernel

/-- The thread is registered, no queue owns it, and its slot has no links. -/
def ThreadTable.Free (table : ThreadTable) (t : ThreadId) : Prop :=
  ∃ slot, table.slot? t = some slot ∧ slot.inUse = true ∧ slot.tag = .unqueued ∧
    slot.next = none ∧ slot.prev = none

theorem ThreadTable.Tidy.free {table : ThreadTable} {t : ThreadId} (h : table.Tidy)
    (hg : table.tag t = .ok .unqueued) : table.Free t := by
  obtain ⟨slot, hslot, hused, htag⟩ := ThreadTable.tag_eq_ok.mp hg
  exact ⟨slot, hslot, hused, htag, h.unlinked t slot hslot (by simp [htag])⟩

namespace SharedTable

variable {ρ σ : Type} {L : Layout ρ σ} {s : SharedTable ρ σ} {lines : ρ → List ThreadId}
  {naps : σ → List Sleeper} {l : List ThreadId} {r : ρ} {t : ThreadId}

/-- Whatever is asked of the ready queue, it answers as this list of threads would. -/
structure ShowsLine (s : SharedTable ρ σ) (r : ρ) (l : List ThreadId) : Prop where
  walk : s.walk r = .ok l
  nodup : l.Nodup
  head : (s.ready r).head = l.head?
  tail : (s.ready r).tail = l.getLast?
  size : (s.ready r).size = l.length
  isEmpty : (s.ready r).isEmpty = l.isEmpty
  isQueued : ∀ t, (s.ready r).isQueued s.table t = true ↔ t ∈ l
  /-- The slot of a member links it to the member before it and the one behind it. -/
  links : ∀ x t y, l = x ++ t :: y → ∃ slot, s.table.slot? t = some slot ∧
    slot.prev = x.getLast? ∧ slot.next = y.head?

theorem Accounts.showsLine (h : Accounts L s lines naps) (hl : lines r = l) : s.ShowsLine r l := by
  subst hl
  constructor
  case walk => exact h.walk_eq r
  case nodup => exact (h.linedUp r).nodup
  case head => rw [h.queue r]; rfl
  case tail => rw [h.queue r]; rfl
  case size => rw [h.queue r]; rfl
  case isEmpty => rw [h.queue r, ReadyQueue.isEmpty_ofList]
  case isQueued =>
    intro t
    rw [ReadyQueue.isQueued, ThreadTable.hasTag_iff, h.queue r]
    exact h.mem_line_iff.symm
  case links =>
    intro x t y hxy
    obtain ⟨context, hs⟩ := (h.linedUp r).slot x t y hxy
    exact ⟨_, hs, rfl, rfl⟩

variable [DecidableEq ρ] [DecidableEq σ]

/-- The ready queue shows this list, and every operation changes it as it should. -/
structure ActsFifo (s : SharedTable ρ σ) (r : ρ) (l : List ThreadId) : Prop extends
    s.ShowsLine r l where
  /-- A free thread joins at the end. -/
  enqueue : ∀ t, s.table.tag t = .ok .unqueued →
    ∃ s', (s.enqueue r t).result = .ok (true, s') ∧ s'.ShowsLine r (l ++ [t])
  enqueue_refused : ∀ t, s.table.tag t ≠ .ok .unqueued →
    (s.enqueue r t).result = .ok (false, s)
  dequeue_nil : l = [] → (s.dequeue r).result = .ok (none, s)
  /-- The first thread leaves, and is free. -/
  dequeue_cons : ∀ t l', l = t :: l' →
    ∃ s', (s.dequeue r).result = .ok (some t, s') ∧ s'.ShowsLine r l' ∧ s'.table.Free t
  /-- A member leaves from where it stands, and is free. -/
  remove : ∀ t ∈ l,
    ∃ s', (s.remove r t).result = .ok (true, s') ∧ s'.ShowsLine r (l.erase t) ∧ s'.table.Free t
  remove_refused : ∀ t, t ∉ l → (s.remove r t).result = .ok (false, s)
  /-- No operation on the table or on another queue changes the list. -/
  other : ∀ op : Operation ρ σ, op.ready? ≠ some r →
    ∃ s', (s.step op).result = .ok s' ∧ s'.ShowsLine r l

theorem Accounts.actsFifo (h : Accounts L s lines naps) (r : ρ) : s.ActsFifo r (lines r) where
  toShowsLine := h.showsLine rfl
  enqueue t hg := by
    obtain ⟨s', hs, h'⟩ := h.enqueue r hg
    exact ⟨s', hs, h'.showsLine (Function.update_self r _ lines)⟩
  enqueue_refused t hg := enqueue_of_not_free r hg
  dequeue_nil hl := h.dequeue_nil hl
  dequeue_cons t l' hl := by
    obtain ⟨s', hs, h', hg⟩ := h.dequeue_cons hl
    exact ⟨s', hs, h'.showsLine (Function.update_self r _ lines), h'.tidy.free hg⟩
  remove t ht := by
    obtain ⟨s', hs, h', hg⟩ := h.remove_of_mem ht
    exact ⟨s', hs, h'.showsLine (Function.update_self r _ lines), h'.tidy.free hg⟩
  remove_refused t ht := h.remove_of_notMem ht
  other op hop := by
    obtain ⟨s', lines', naps', hs, h', hlines, -⟩ := h.step op
    exact ⟨s', hs, h'.showsLine (hlines r hop)⟩

end SharedTable

/-- The ready queues are empty at first, and whatever has been done with a table and its queues,
each of them is a list of threads, first in, first out. -/
theorem Layout.run_actsFifo {ρ σ : Type} [DecidableEq ρ] [DecidableEq σ] (L : Layout ρ σ)
    (ops : List (Operation ρ σ)) :
    (∀ r, L.fresh.walk r = .ok []) ∧
      ∃ s, (L.fresh.run ops).result = .ok s ∧ ∀ r, ∃ l, s.ActsFifo r l := by
  obtain ⟨s, lines, naps, hs, h⟩ := L.exists_accounts ops
  exact ⟨(SharedTable.Accounts.fresh L).walk_eq, s, hs, fun r => ⟨lines r, h.actsFifo r⟩⟩

end PulseKernel
