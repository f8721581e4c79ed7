/-
# What an audit can tell

An audit looks up each thread that is tagged asleep in the heap, and beyond that it only counts.
For the sleepers this is enough, whatever state they are in: an entry that is there twice, or
that nobody is tagged for, makes the heap longer than the list of the tags.

On the hand-off queue no thread is looked up, and three numbers are compared. A walk that goes
in a circle is seen by its number. But a member that some other queue owns is counted like any
other, and makes up for a tagged thread that the walk does not meet (`Scheduler.swapped`). That
is the only thing that an audit overlooks: where the walk meets no thread with another tag, it
meets all of those that are tagged.

Key theorems: `Scheduler.audit_eq_ok_iff_sleepersAccord`, `Scheduler.audit_of_sleepersAccord`.
-/
import PulseKernel.Proofs.Audit

namespace PulseKernel
namespace Scheduler

variable {π : Type} {s : Scheduler π} {l : List ThreadId}

/-! ### The sleepers -/

/-- While the hand-off queue is empty, an audit passes exactly the states in which the heap holds
the threads that are tagged asleep. -/
theorem audit_eq_ok_iff_sleepersAccord (hhead : s.handoff.head = none) (hsize : s.handoff.size = 0)
    (htags : ∀ t, s.threads.tag t ≠ .ok (.ready s.handoff.id)) :
    s.audit.result = .ok () ↔ s.SleepersAccord := by
  have hnobody : s.tagged (.ready s.handoff.id) = [] :=
    List.eq_nil_iff_forall_not_mem.mpr fun t ht => htags t (mem_tagged_iff.mp ht)
  have hcounted : s.HandoffCounted [] :=
    { leads := hhead ▸ .here
      length := hsize.symm
      tagged := by rw [hnobody, hsize, List.length_nil] }
  rw [audit_eq_ok]
  exact and_iff_left ⟨[], hcounted⟩

/-- Two threads are tagged asleep. The heap has two entries, but both are of the same thread. -/
def twiceAsleep : Scheduler Unit where
  clock := .stopped 0
  sleepers := { heap := #[⟨500, ⟨0⟩, 0⟩, ⟨700, ⟨0⟩, 1⟩], capacity := 2, nextSeq := 2 }
  handoff := { id := ⟨1⟩ }
  threads := ⟨#[{ inUse := true, tag := .asleep }, { inUse := true, tag := .asleep }], 2⟩
  policy := ()
  quantum := 10

/-- The numbers of the entries and of the tags are the same, but the audit does not pass. -/
theorem audit_ne_ok_twiceAsleep :
    twiceAsleep.handoff.head = none ∧ twiceAsleep.handoff.size = 0 ∧
      (∀ t, twiceAsleep.threads.tag t ≠ .ok (.ready twiceAsleep.handoff.id)) ∧
      (twiceAsleep.tagged .asleep).length = twiceAsleep.sleepers.size ∧
      twiceAsleep.audit.result ≠ .ok () := by
  have hnobody : twiceAsleep.tagged (.ready ⟨1⟩) = [] := by decide
  have htags : ∀ t, twiceAsleep.threads.tag t ≠ .ok (.ready ⟨1⟩) := fun t ht =>
    List.not_mem_nil (hnobody ▸ mem_tagged_iff.mpr ht)
  have htwice : ¬ twiceAsleep.sleepers.threads.Nodup := by decide
  refine ⟨rfl, rfl, htags, by decide, fun haudit => ?_⟩
  exact htwice ((audit_eq_ok_iff_sleepersAccord rfl rfl htags).mp haudit).nodup

/-! ### The hand-off queue -/

/-- If as many threads are met as are tagged, and none of them has another tag, then all that are
tagged are met. -/
theorem HandoffCounted.accord (h : s.HandoffCounted l)
    (hmembers : ∀ t ∈ l, s.threads.tag t = .ok (.ready s.handoff.id)) : s.HandoffAccord l := by
  have hsub : l ⊆ s.tagged (.ready s.handoff.id) := fun t ht => mem_tagged_iff.mpr (hmembers t ht)
  have hlength : (s.tagged (.ready s.handoff.id)).length ≤ l.length := by
    rw [h.tagged, h.length]
  have hperm : l.Perm (s.tagged (.ready s.handoff.id)) :=
    (List.subperm_of_subset h.leads.nodup hsub).perm_of_length_le hlength
  exact ⟨h.leads, h.length, fun t => by rw [hperm.mem_iff, mem_tagged_iff]⟩

/-- While the sleepers accord, an audit passes exactly the states in which the walk over the
hand-off queue ends, and meets as many threads as the queue says and as are tagged with it. So
it passes every state that accords, and of the others it passes those in which the numbers are
right and some thread that is met is not tagged with the queue. -/
theorem audit_of_sleepersAccord (hsleepers : s.SleepersAccord) :
    (s.audit.result = .ok () ↔ ∃ l, s.HandoffCounted l) ∧
      ((∃ l, s.HandoffAccord l) ↔ s.audit.result = .ok () ∧
        ∀ l, s.threads.Leads none s.handoff.head l →
          ∀ t ∈ l, s.threads.tag t = .ok (.ready s.handoff.id)) := by
  have hpasses : s.audit.result = .ok () ↔ ∃ l, s.HandoffCounted l := by
    rw [audit_eq_ok]
    exact and_iff_right hsleepers
  refine ⟨hpasses, ?_⟩
  constructor
  · rintro ⟨l, hl⟩
    refine ⟨hpasses.mpr ⟨l, hl.counted⟩, fun l' hl' t ht => ?_⟩
    obtain rfl := hl.leads.unique hl'
    exact (hl.mem_iff t).mp ht
  · rintro ⟨haudit, hmembers⟩
    obtain ⟨l, hl⟩ := hpasses.mp haudit
    exact ⟨l, hl.accord (hmembers l hl.leads)⟩

/-- Threads 0 and 1 are tagged with the hand-off queue, and the link behind thread 0 leads to
thread 1. Thread 2 is tagged with another queue. -/
def inLine : Scheduler Unit where
  clock := .stopped 0
  sleepers := { capacity := 1 }
  handoff := { id := ⟨1⟩, head := some ⟨0⟩, tail := some ⟨1⟩, size := 2 }
  threads := ⟨#[{ inUse := true, tag := .ready ⟨1⟩, next := some ⟨1⟩ },
    { inUse := true, tag := .ready ⟨1⟩, prev := some ⟨0⟩ },
    { inUse := true, tag := .ready ⟨2⟩ }], 3⟩
  policy := ()
  quantum := 10

/-- Both that the audit passes and that it is right to. -/
theorem audit_inLine :
    inLine.SleepersAccord ∧ inLine.audit.result = .ok () ∧ ∃ l, inLine.HandoffAccord l := by
  have hwalk : inLine.threads.Leads none inLine.handoff.head [⟨0⟩, ⟨1⟩] :=
    .step (by decide) rfl (.step (by decide) rfl .here)
  have hsleepers : inLine.SleepersAccord := sleepersAccord_iff.mpr (by decide)
  obtain ⟨hpasses, haccord⟩ := audit_of_sleepersAccord hsleepers
  have haudit : inLine.audit.result = .ok () := hpasses.mpr ⟨_, hwalk, rfl, by decide⟩
  refine ⟨hsleepers, haudit, haccord.mpr ⟨haudit, fun l hl => ?_⟩⟩
  obtain rfl := hwalk.unique hl
  simp only [List.forall_mem_cons, List.not_mem_nil, IsEmpty.forall_iff, implies_true, and_true]
  exact ⟨rfl, rfl⟩

/-- The same, but the link behind thread 0 leads to thread 2. -/
def swapped : Scheduler Unit :=
  { inLine with
    threads := ⟨#[{ inUse := true, tag := .ready ⟨1⟩, next := some ⟨2⟩ },
      { inUse := true, tag := .ready ⟨1⟩, prev := some ⟨0⟩ },
      { inUse := true, tag := .ready ⟨2⟩, prev := some ⟨0⟩ }], 3⟩ }

/- A second queue comes to write in the table of the first one when it is used with another table
before. -/
example : (do
    let registered (n : Nat) : ThreadTable := ⟨.replicate n { inUse := true }, n⟩
    let (_, handoff, threads) ← ReadyQueue.enqueue { id := ⟨1⟩ } (registered 3) ⟨0⟩
    let (_, handoff, threads) ← handoff.enqueue threads ⟨1⟩
    let (_, stranger, _) ← ReadyQueue.enqueue { id := ⟨2⟩ } (registered 1) ⟨0⟩
    let (_, _, threads) ← stranger.enqueue threads ⟨2⟩
    return (handoff, threads) : Logged _).result = .ok (swapped.handoff, swapped.threads) := by
  rfl

/-- The walk meets threads 0 and 2, and threads 0 and 1 are tagged. The audit passes, for it finds
two of each. -/
theorem audit_overlooks_swapped :
    swapped.SleepersAccord ∧ swapped.threads.LinksInRange ∧
      swapped.threads.InRange swapped.handoff.head ∧ swapped.audit.result = .ok () ∧
      ¬ ∃ l, swapped.HandoffAccord l := by
  have hwalk : swapped.threads.Leads none swapped.handoff.head [⟨0⟩, ⟨2⟩] :=
    .step (by decide) rfl (.step (by decide) rfl .here)
  have hsleepers : swapped.SleepersAccord := sleepersAccord_iff.mpr (by decide)
  have hcounted : swapped.HandoffCounted [⟨0⟩, ⟨2⟩] := ⟨hwalk, rfl, by decide⟩
  refine ⟨hsleepers, by decide, by decide, audit_eq_ok.mpr ⟨hsleepers, _, hcounted⟩, ?_⟩
  rintro ⟨l, hl⟩
  obtain rfl := hwalk.unique hl.leads
  have hmissed : (⟨1⟩ : ThreadId) ∈ [⟨0⟩, ⟨2⟩] := (hl.mem_iff ⟨1⟩).mpr rfl
  revert hmissed
  decide

end Scheduler
end PulseKernel
