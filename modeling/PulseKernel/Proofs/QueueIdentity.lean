/-
# What an id tells

All that a ready queue knows of a thread is its tag, and the tag names the queue by its id. So two
queues keep off each other's threads (`ReadyQueue.KeepsOff`) exactly if their ids differ.

Ids come from a counter of 16 bits, which nobody stops when it has gone round
(`QueueIds.nth_eq`). Two queues differ in their ids exactly if 65536 does not divide the number of
queues made from one to the other (`QueueIds.nth_eq_iff`): the first 65536 queues are safe from
each other, and the next one has the id of the first.

Key definitions: `QueueIds.nth`, `ReadyQueue.KeepsOff`.
Key theorems: `QueueIds.nth_eq_iff`, `ReadyQueue.keepsOff_iff`,
`QueueIds.keepsOff_iff_not_modEq`, `QueueIds.two_queues_one_id`.
-/
import Mathlib.Data.Nat.ModEq
import PulseKernel.Proofs.RemoveOutcome

namespace PulseKernel

/-! ### The ids, one after the other -/

namespace QueueIds

/-- The id of the queue that is made after so many others. -/
def nth (s : QueueIds) : Nat → QueueId
  | 0 => s.fresh.1
  | n + 1 => s.fresh.2.nth n

/-- The counter goes on in its 16 bits. -/
theorem nth_eq (s : QueueIds) (n : Nat) : s.nth n = ⟨s.next + UInt16.ofNat n⟩ := by
  induction n generalizing s with
  | zero => simp [nth, fresh]
  | succ n ih =>
    rw [nth, ih, fresh, UInt16.ofNat_add, UInt16.add_assoc, UInt16.add_comm 1]
    rfl

/-- Two queues have one id exactly if the counter went round between them, once or more often. -/
theorem nth_eq_iff (s : QueueIds) {i j : Nat} : s.nth i = s.nth j ↔ i ≡ j [MOD 65536] := by
  rw [nth_eq, nth_eq, QueueId.mk.injEq, UInt16.add_right_inj, ← UInt16.toNat_inj,
    UInt16.toNat_ofNat', UInt16.toNat_ofNat']
  rfl

end QueueIds

/-! ### Queues with different ids -/

namespace ReadyQueue

/-- Of a thread that is linked on the first queue, the second one says that it is not on it, does
not remove it, and does not take it for its first one. -/
structure KeepsOff (q q' : ReadyQueue) : Prop where
  isQueued : ∀ table t, q.isQueued table t = true → q'.isQueued table t = false
  remove : ∀ table t, q.isQueued table t = true → q'.remove table t = pure (false, q', table)
  dequeue : ∀ table t, q.isQueued table t = true →
    ∀ first q₁ table₁, (q'.dequeue table).result = .ok (first, q₁, table₁) → first ≠ some t

variable {q q' : ReadyQueue} {table : ThreadTable} {t : ThreadId}

theorem isQueued_iff : q.isQueued table t = true ↔ table.tag t = .ok (.ready q.id) :=
  ThreadTable.hasTag_iff

/-- A queue takes a first thread off only if the tag of the thread names it. -/
theorem dequeue_named (q : ReadyQueue) (table : ThreadTable) :
    (q.dequeue table).Only fun r => ∀ t, r.1 = some t →
      ∃ slot, table.slot? t = some slot ∧ slot.tag = .ready q.id := by
  unfold dequeue
  split
  · exact .pure (by simp)
  · rename_i first _
    refine .bind (fun slot (h : table.link first = .ok slot) => ThreadTable.link_eq_ok.mp h)
      fun slot hslot => ?_
    split
    · exact Logged.only_violate _ _ _
    · rename_i htag
      have hfirst : ∀ t, some first = some t →
          ∃ slot, table.slot? t = some slot ∧ slot.tag = .ready q.id := by
        intro t ht
        obtain rfl := Option.some.inj ht
        exact ⟨slot, hslot, not_not.mp htag⟩
      -- what is done to the links does not change who is first
      simp only [pure_bind]
      split
      · exact .bind (Logged.only_true _) fun _ _ => .bind (Logged.only_true _) fun _ _ =>
          .bind (Logged.only_true _) fun _ _ => .pure hfirst
      · exact .bind (Logged.only_true _) fun _ _ =>
          .bind (Logged.only_true _) fun _ _ => .pure hfirst

theorem keepsOff_iff : q.KeepsOff q' ↔ q.id ≠ q'.id := by
  constructor
  · intro h hid
    -- a table whose only thread is on the first queue
    have hq : q.isQueued ⟨#[{ inUse := true, tag := .ready q.id }], 1⟩ ⟨0⟩ = true :=
      isQueued_iff.mpr rfl
    have hq' := h.isQueued _ _ hq
    rw [isQueued, ← hid] at hq'
    exact absurd hq (by rw [isQueued, hq']; exact Bool.false_ne_true)
  · intro hid
    have hoff : ∀ table t, q.isQueued table t = true → q'.isQueued table t = false := by
      intro table t hq
      rw [Bool.eq_false_iff]
      intro hq'
      have htag := (isQueued_iff.mp hq).symm.trans (isQueued_iff.mp hq')
      exact hid (by simpa using htag)
    refine ⟨hoff, fun table t hq => remove_of_not_isQueued (hoff table t hq), ?_⟩
    rintro table t hq first q₁ table₁ hdequeue rfl
    obtain ⟨slot, hslot, htag⟩ := q'.dequeue_named table _ hdequeue t rfl
    obtain ⟨slot', hslot', -, htag'⟩ := ThreadTable.tag_eq_ok.mp (isQueued_iff.mp hq)
    rw [hslot] at hslot'
    obtain rfl := Option.some.inj hslot'
    rw [htag] at htag'
    exact hid (by simpa using htag'.symm)

end ReadyQueue

namespace QueueIds

/-- The queue that is made after so many others. -/
def made (s : QueueIds) (n : Nat) : ReadyQueue := { id := s.nth n }

theorem id_made (s : QueueIds) (n : Nat) : (s.made n).id = s.nth n := rfl

/-- Queues that were made as number `i` and as number `j`, whatever they hold by now, keep off
each other's threads exactly if the counter did not come round from one to the other. If it did,
they take the same threads for their own. -/
theorem keepsOff_iff_not_modEq (s : QueueIds) (i j : Nat) (q q' : ReadyQueue)
    (hq : q.id = s.nth i) (hq' : q'.id = s.nth j) :
    (q.id = q'.id ↔ i ≡ j [MOD 65536]) ∧ (q.KeepsOff q' ↔ ¬ i ≡ j [MOD 65536]) ∧
      (i ≡ j [MOD 65536] → ∀ table t, q.isQueued table t = q'.isQueued table t) := by
  have hid : q.id = q'.id ↔ i ≡ j [MOD 65536] := by rw [hq, hq', nth_eq_iff]
  refine ⟨hid, ReadyQueue.keepsOff_iff.trans (not_congr hid), fun h table t => ?_⟩
  rw [ReadyQueue.isQueued, ReadyQueue.isQueued, hid.mpr h]

/-- The first queue and the last one before the counter comes round keep off each other. -/
theorem keepsOff_iff_not_modEq_last :
    (({} : QueueIds).made 0).id = ({} : QueueIds).nth 0 ∧
      (({} : QueueIds).made 65535).id = ({} : QueueIds).nth 65535 ∧
      (({} : QueueIds).made 0).KeepsOff (({} : QueueIds).made 65535) := by
  have hfirst := id_made {} 0
  have hlast := id_made {} 65535
  obtain ⟨-, hkeeps, -⟩ := keepsOff_iff_not_modEq {} 0 65535 _ _ hfirst hlast
  exact ⟨hfirst, hlast, hkeeps.mpr (by decide)⟩

/-- The queue made after 65536 others takes the thread that is on the first one for its own: it
says so, and finds itself corrupted when it is to remove the thread. -/
theorem two_queues_one_id :
    (({} : QueueIds).made 0).id = (({} : QueueIds).made 65536).id ∧
      ∃ registered table first dump,
        (ThreadTable.ofCapacity 1).register {} = (.ok ⟨0⟩, registered) ∧
        ((({} : QueueIds).made 0).enqueue registered ⟨0⟩).result = .ok (true, first, table) ∧
        first.isQueued table ⟨0⟩ = true ∧
        (({} : QueueIds).made 65536).isQueued table ⟨0⟩ = true ∧
        ((({} : QueueIds).made 65536).remove table ⟨0⟩).result =
          .error (.violation ⟨"ready queue", "tagged thread missing from list", dump⟩) := by
  have hlate : ({} : QueueIds).made 65536 = { id := ⟨1⟩ } := by
    rw [made, nth_eq]
    rfl
  rw [hlate]
  let registered : ThreadTable := ⟨#[{ inUse := true }], 1⟩
  let table : ThreadTable := ⟨#[{ inUse := true, tag := .ready ⟨1⟩ }], 1⟩
  let first : ReadyQueue := { id := ⟨1⟩, head := some ⟨0⟩, tail := some ⟨0⟩, size := 1 }
  have hremove : ReadyQueue.remove { id := ⟨1⟩ } table ⟨0⟩ = _ :=
    ReadyQueue.remove_of_notMem rfl .here List.not_mem_nil rfl
  have hregister : (ThreadTable.ofCapacity 1).register {} = (.ok ⟨0⟩, registered) := by
    simp [ThreadTable.register, ThreadTable.ofCapacity, Slot.vacant, registered]
  exact ⟨rfl, registered, table, first, _, hregister, rfl, rfl, rfl, by rw [hremove]⟩

end QueueIds
end PulseKernel
