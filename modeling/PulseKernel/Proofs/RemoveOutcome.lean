/-
# How taking a thread out of a ready queue ends

A thread that is not tagged with the queue is not looked for. Otherwise the links are followed
from the head of the queue until the thread is met or the list ends, and where the links lead
is not asked. There are three ways for this to go, and which one it is depends on the links
alone: the walk comes to the thread, it ends without having met it, or it goes in a circle that
the thread is not on. On the first two ways it follows no more links than there are slots.

The third way does not end: no bound stands on this walk, as it stands on those of a dump and
of an audit. Two queues are not needed for it, and no slot has to be written from outside. A
queue that is used with two tables writes the links of the one by the ends it has in the other
(`ReadyQueue.remove_endless_crossed`).

Key definitions: `ReadyQueue.RemoveOutcome`.
Key theorems: `ReadyQueue.remove_outcome`.
-/
import PulseKernel.Proofs.LinkWalks

namespace PulseKernel
namespace ReadyQueue

open ThreadTable

variable {q : ReadyQueue} {table : ThreadTable} {t : ThreadId} {x : List ThreadId}

/-- What becomes of taking a thread out of a queue, and when. -/
inductive RemoveOutcome (q : ReadyQueue) (table : ThreadTable) (t : ThreadId) :
    Logged (Bool × ReadyQueue × ThreadTable) → Prop where
  /-- The thread is not registered, or is not tagged with the queue; nothing changes. -/
  | notMember (htag : table.tag t ≠ .ok (.ready q.id)) :
      RemoveOutcome q table t (pure (false, q, table))
  /-- The walk comes to the thread, which is taken out. -/
  | taken {x : List ThreadId} {s : Slot} {n : Nat} (htag : table.tag t = .ok (.ready q.id))
      (hs : table.slot? t = some s) (hwalk : table.Leads (some t) q.head x)
      (hlength : x.length < table.capacity) (hsize : q.size = n + 1) :
      RemoveOutcome q table t
        (pure (true, q.unhooked x.getLast? s.next n, table.unhooked x.getLast? t s.next))
  /-- The walk comes to the thread, but by its length the queue has no members. -/
  | miscounted {x : List ThreadId} (htag : table.tag t = .ok (.ready q.id))
      (hwalk : table.Leads (some t) q.head x) (hlength : x.length < table.capacity)
      (hsize : q.size = 0) : RemoveOutcome q table t (Logged.fail .lengthUnderflow)
  /-- The walk ends and has not met the thread; the run ends with what the queue looks like. -/
  | missing {x : List ThreadId} {dump : String} (htag : table.tag t = .ok (.ready q.id))
      (hwalk : table.Leads none q.head x) (ht : t ∉ x) (hlength : x.length ≤ table.capacity)
      (hdump : q.dump table = .ok dump) :
      RemoveOutcome q table t
        ⟨[.removeFailed t q.id,
            .corrupted "ready queue" "tagged thread missing from list", .dumped dump],
          .error (.violation ⟨"ready queue", "tagged thread missing from list", dump⟩)⟩
  /-- The walk goes on for ever and never meets the thread. -/
  | endless (htag : table.tag t = .ok (.ready q.id))
      (hwalk : ∀ n, ∃ u, u ≠ t ∧ table.behind^[n] q.head = some u) :
      RemoveOutcome q table t (Logged.fail .endlessWalk)

/-! ### The three ways -/

/-- A thread that is not tagged with the queue is not one of its members. -/
theorem remove_of_tag_ne (htag : table.tag t ≠ .ok (.ready q.id)) :
    q.remove table t = pure (false, q, table) := by
  have hqueued : q.isQueued table t = false :=
    Bool.eq_false_iff.mpr fun h => htag (hasTag_iff.mp h)
  exact remove_of_not_isQueued hqueued

theorem remove_of_notMem {dump : String} (htag : table.tag t = .ok (.ready q.id))
    (hwalk : table.Leads none q.head x) (ht : t ∉ x) (hdump : q.dump table = .ok dump) :
    q.remove table t =
      ⟨[.removeFailed t q.id, .corrupted "ready queue" "tagged thread missing from list",
          .dumped dump],
        .error (.violation ⟨"ready queue", "tagged thread missing from list", dump⟩)⟩ := by
  have hqueued : q.isQueued table t = true := hasTag_iff.mpr htag
  have hlocate : locate table t (table.capacity + 1) none q.head = .ok none :=
    locate_of_notMem hwalk ht none (Nat.le_succ_of_le hwalk.length_le)
  rw [remove, hqueued, hlocate, hdump]
  rfl

theorem remove_of_endless (htag : table.tag t = .ok (.ready q.id)) (hlinks : table.LinksInRange)
    (hhead : table.InRange q.head) (ht : ∀ n, table.behind^[n] q.head ≠ some t)
    (hend : ∀ n, table.behind^[n] q.head ≠ none) :
    q.remove table t = Logged.fail .endlessWalk := by
  have hqueued : q.isQueued table t = true := hasTag_iff.mpr htag
  rw [remove, hqueued, locate_of_endless hlinks _ none hhead ht hend]
  rfl

/-- Whatever the links of a table are, if they do not leave it: a thread is left alone, or taken
out, or missed by a walk that ends, and then no more links are followed than there are slots; or
the walk does not end. -/
theorem remove_outcome (hlinks : table.LinksInRange) (hhead : table.InRange q.head) :
    q.RemoveOutcome table t (q.remove table t) := by
  by_cases htag : table.tag t = .ok (.ready q.id)
  swap
  · rw [remove_of_tag_ne htag]
    exact .notMember htag
  obtain ⟨s, hs, -⟩ := tag_eq_ok.mp htag
  rcases leads_or_never hlinks hhead (some t) with ⟨x, hwalk⟩ | hnever
  · -- the walk comes to the thread
    have hlength := hwalk.length_lt hs
    rw [remove_of_leads htag hs (hlinks t s hs) hwalk]
    cases hsize : q.size with
    | zero =>
      have hshrink : q.shrink = .error .lengthUnderflow := by rw [shrink, hsize]
      rw [hshrink]
      exact .miscounted htag hwalk hlength hsize
    | succ n =>
      have hshrink : q.shrink = .ok n := by rw [shrink, hsize]
      rw [hshrink]
      exact .taken htag hs hwalk hlength hsize
  rcases leads_or_never hlinks hhead none with ⟨x, hwalk⟩ | hend
  · -- the walk comes to an end instead
    have ht : t ∉ x := fun hmem => by
      obtain ⟨y, hy⟩ := hwalk.of_mem hmem
      exact hnever y.length hy.iterate_behind
    obtain ⟨dump, hdump⟩ := exists_dump hlinks hhead
    rw [remove_of_notMem htag hwalk ht hdump]
    exact .missing htag hwalk ht hwalk.length_le hdump
  · rw [remove_of_endless htag hlinks hhead hnever hend]
    refine .endless htag fun n => ?_
    obtain ⟨u, hu⟩ := Option.ne_none_iff_exists'.mp (hend n)
    exact ⟨u, fun e => hnever n (e ▸ hu), hu⟩

/-! ### A queue between two tables -/

/-- A queue that has been given two threads of one table and two of another, in turns. -/
def shared : ReadyQueue := { id := ⟨1⟩, head := some ⟨0⟩, tail := some ⟨1⟩, size := 4 }

/-- The second of the tables. Each thread that joined it came to stand behind itself, because the
queue had a thread of the same index from the first table at its end. -/
def crossed : ThreadTable :=
  ⟨#[{ inUse := true, tag := .ready ⟨1⟩, next := some ⟨0⟩, prev := some ⟨0⟩ },
    { inUse := true, tag := .ready ⟨1⟩, next := some ⟨1⟩, prev := some ⟨1⟩ }], 2⟩

example : (do
    let registered : ThreadTable := ⟨.replicate 2 { inUse := true }, 2⟩
    let (_, q, first) ← enqueue { id := ⟨1⟩ } registered ⟨0⟩
    let (_, q, second) ← q.enqueue registered ⟨0⟩
    let (_, q, _) ← q.enqueue first ⟨1⟩
    let (_, q, second) ← q.enqueue second ⟨1⟩
    return (q, second) : Logged _).result = .ok (shared, crossed) := by
  rfl

/-- The thread at the head is taken out all the same. -/
theorem remove_outcome_crossed :
    crossed.LinksInRange ∧ crossed.InRange shared.head ∧
      shared.RemoveOutcome crossed ⟨0⟩ (shared.remove crossed ⟨0⟩) := by
  have hlinks : crossed.LinksInRange := by decide
  have hhead : crossed.InRange shared.head := by decide
  exact ⟨hlinks, hhead, remove_outcome hlinks hhead⟩

/-- Thread 1 is tagged with the queue, and the walk stays at thread 0. It is at thread 0 after any
number of links, so the search neither meets thread 1 nor finds that it is missing. -/
theorem remove_endless_crossed :
    crossed.LinksInRange ∧ crossed.InRange shared.head ∧
      crossed.tag ⟨1⟩ = .ok (.ready shared.id) ∧
      (∀ n, crossed.behind^[n] shared.head = some ⟨0⟩) ∧
      shared.remove crossed ⟨1⟩ = Logged.fail .endlessWalk := by
  have hlinks : crossed.LinksInRange := by decide
  have hhead : crossed.InRange shared.head := by decide
  have htag : crossed.tag ⟨1⟩ = .ok (.ready shared.id) := rfl
  have hstays : ∀ n, crossed.behind^[n] shared.head = some ⟨0⟩ := fun n =>
    Function.iterate_fixed rfl n
  refine ⟨hlinks, hhead, htag, hstays, remove_of_endless htag hlinks hhead ?_ ?_⟩
  · intro n
    rw [hstays n]
    decide
  · intro n
    rw [hstays n]
    decide

end ReadyQueue
end PulseKernel
