/-
# What an audit compares

An audit lists the registered threads with a tag and compares the list with the
queue that the tag names. The list holds each of these threads once
(`Scheduler.mem_tagged_iff`, `Scheduler.nodup_tagged`), and this is why so little has to
be compared. If the threads tagged asleep lie within the heap and are as many as its entries,
the list is the heap in another order (`Scheduler.sleepersAccord_iff`). And a walk over the
hand-off queue that meets as many threads as are tagged has come to its end, because it is
cut at more threads than there can be tags (`Scheduler.handoffCounted_iff`).

So the states that an audit passes can be told without it (`Scheduler.audit_eq_ok`). While
the accounts of the scheduler are in order the state is one of them.

Key definitions: `Scheduler.SleepersAccord`, `Scheduler.HandoffCounted`,
`Scheduler.HandoffAccord`.
Key theorems: `ThreadTable.mem_threads_iff`, `ThreadTable.nodup_threads`,
`Scheduler.audit_eq_ok`, `Scheduler.Sound.audit`.
-/
import PulseKernel.Proofs.LinkWalks
import PulseKernel.Proofs.SchedulerSound

namespace PulseKernel

namespace ThreadTable

variable {table : ThreadTable} {t : ThreadId} {g : Tag}

theorem mem_threads_iff : (t, g) ∈ table.threads ↔ table.tag t = .ok g := by
  rw [threads, List.mem_filterMap, tag_eq_ok]
  constructor
  · rintro ⟨⟨slot, index⟩, hslot, hused⟩
    rw [List.mk_mem_zipIdx_iff_getElem?, Array.getElem?_toList] at hslot
    simp only [Option.ite_none_right_eq_some, Option.some.injEq, Prod.mk.injEq] at hused
    obtain ⟨hinUse, rfl, rfl⟩ := hused
    exact ⟨slot, hslot, hinUse, rfl⟩
  · rintro ⟨slot, hslot, hused, rfl⟩
    refine ⟨(slot, t.index), ?_, by simp [hused]⟩
    rw [List.mk_mem_zipIdx_iff_getElem?, Array.getElem?_toList]
    exact hslot

/-- No thread is listed twice. -/
theorem nodup_threads (table : ThreadTable) : (table.threads.map (·.1)).Nodup := by
  have hindexes : (table.slots.toList.zipIdx.map (·.2)).Nodup := by
    rw [List.zipIdx_map_snd]
    exact List.nodup_range'
  refine List.pairwise_map.mpr (List.pairwise_filterMap.mpr ?_)
  refine (List.pairwise_map.mp hindexes).imp ?_
  rintro ⟨slot, i⟩ ⟨slot', j⟩ hij p hp p' hp'
  simp only [Option.ite_none_right_eq_some, Option.some.injEq] at hp hp'
  obtain ⟨-, rfl⟩ := hp
  obtain ⟨-, rfl⟩ := hp'
  exact fun e => hij (congrArg ThreadId.index e)

end ThreadTable

namespace SleepQueue

variable {q : SleepQueue} {t : ThreadId}

/-- The threads of the entries, in the order of the heap. -/
def threads (q : SleepQueue) : List ThreadId := q.heap.toList.map (·.thread)

@[simp] theorem length_threads (q : SleepQueue) : q.threads.length = q.size := by
  rw [threads, List.length_map, Array.length_toList, size]

theorem contains_iff_mem_threads : q.contains t = true ↔ t ∈ q.threads := by
  rw [contains, deadlineOf?, Option.isSome_map, Array.find?_isSome, threads, List.mem_map]
  simp only [beq_iff_eq, Array.mem_toList_iff]

end SleepQueue

namespace Scheduler

variable {π : Type} {L : Layout Unit Unit} {s : Scheduler π} {staged l : List ThreadId}
  {naps : List Sleeper} {t : ThreadId} {g : Tag}

/-- The heap has one entry for each registered thread that is tagged asleep, and no other entry. -/
structure SleepersAccord (s : Scheduler π) : Prop where
  nodup : s.sleepers.threads.Nodup
  mem_iff : ∀ t, t ∈ s.sleepers.threads ↔ s.threads.tag t = .ok .asleep

/-- The walk from the head of the hand-off queue meets these threads and ends. They are as many as
the queue says, and as many as are tagged with it. -/
structure HandoffCounted (s : Scheduler π) (l : List ThreadId) : Prop where
  leads : s.threads.Leads none s.handoff.head l
  length : l.length = s.handoff.size
  tagged : (s.tagged (.ready s.handoff.id)).length = s.handoff.size

/-- The walk from the head of the hand-off queue meets these threads, each once
(`ThreadTable.Leads.nodup`), and ends. They are as many as the queue says, and they are the
registered threads that are tagged with it. -/
structure HandoffAccord (s : Scheduler π) (l : List ThreadId) : Prop where
  leads : s.threads.Leads none s.handoff.head l
  length : l.length = s.handoff.size
  mem_iff : ∀ t, t ∈ l ↔ s.threads.tag t = .ok (.ready s.handoff.id)

/-! ### The threads with a tag -/

theorem mem_tagged_iff : t ∈ s.tagged g ↔ s.threads.tag t = .ok g := by
  rw [← ThreadTable.mem_threads_iff]
  simp [tagged]

theorem nodup_tagged (s : Scheduler π) (g : Tag) : (s.tagged g).Nodup :=
  s.threads.nodup_threads.sublist (List.filter_sublist.map _)

theorem tagged_perm (hnodup : l.Nodup) (hmem : ∀ t, t ∈ l ↔ s.threads.tag t = .ok g) :
    (s.tagged g).Perm l := by
  refine (List.perm_ext_iff_of_nodup (s.nodup_tagged g) hnodup).mpr fun t => ?_
  rw [mem_tagged_iff, hmem]

theorem length_tagged_le (s : Scheduler π) (g : Tag) : (s.tagged g).length ≤ s.threads.capacity :=
  ThreadTable.length_le_of_nodup (s.nodup_tagged g) fun _ ht =>
    ThreadTable.index_lt_of_tag (mem_tagged_iff.mp ht)

/-! ### The three checks -/

/-- One inclusion and one number decide whether the heap and the tags accord. -/
theorem sleepersAccord_iff : s.SleepersAccord ↔
    (∀ t ∈ s.tagged .asleep, s.sleepers.contains t = true) ∧
      (s.tagged .asleep).length = s.sleepers.size := by
  constructor
  · intro h
    have hperm : (s.tagged .asleep).Perm s.sleepers.threads := tagged_perm h.nodup h.mem_iff
    refine ⟨fun t ht => ?_, ?_⟩
    · exact SleepQueue.contains_iff_mem_threads.mpr (hperm.mem_iff.mp ht)
    · rw [hperm.length_eq, SleepQueue.length_threads]
  · rintro ⟨hentries, hsize⟩
    have hsub : s.tagged .asleep ⊆ s.sleepers.threads := fun t ht =>
      SleepQueue.contains_iff_mem_threads.mp (hentries t ht)
    have hlength : s.sleepers.threads.length ≤ (s.tagged .asleep).length := by
      rw [hsize, SleepQueue.length_threads]
    have hperm : (s.tagged .asleep).Perm s.sleepers.threads :=
      (List.subperm_of_subset (s.nodup_tagged _) hsub).perm_of_length_le hlength
    refine ⟨hperm.nodup (s.nodup_tagged _), fun t => ?_⟩
    rw [← hperm.mem_iff, mem_tagged_iff]

/-- A walk that has as many threads as are tagged has come to its end before it was cut. -/
theorem handoffCounted_iff : s.HandoffCounted l ↔
    s.handoff.members s.threads = .ok l ∧
      (s.tagged (.ready s.handoff.id)).length = s.handoff.size ∧
      l.length = (s.tagged (.ready s.handoff.id)).length := by
  constructor
  · intro h
    have hlimit : l.length ≤ s.threads.capacity + 1 := Nat.le_succ_of_le h.leads.length_le
    exact ⟨ReadyQueue.walk_of_leads h.leads hlimit, h.tagged, h.length.trans h.tagged.symm⟩
  · rintro ⟨hmembers, htagged, hlength⟩
    have hlimit : l.length < s.threads.capacity + 1 := by
      rw [hlength]
      exact Nat.lt_succ_of_le (s.length_tagged_le _)
    exact ⟨ReadyQueue.leads_of_walk hmembers hlimit, hlength.trans htagged, htagged⟩

/-- An audit passes a state exactly if the sleepers accord and the hand-off queue is counted
right, be the state reached or corrupted. -/
theorem audit_eq_ok :
    s.audit.result = .ok () ↔ s.SleepersAccord ∧ ∃ l, s.HandoffCounted l := by
  have hcounted (l : List ThreadId) : s.HandoffCounted l ↔
      s.handoff.members s.threads = .ok l ∧
        ((s.tagged (.ready s.handoff.id)).length == s.handoff.size &&
          l.length == (s.tagged (.ready s.handoff.id)).length) = true := by
    rw [handoffCounted_iff, Bool.and_eq_true, beq_iff_eq, beq_iff_eq]
  have hsleepers : s.SleepersAccord ↔ (s.tagged .asleep).all s.sleepers.contains = true ∧
      ((s.tagged .asleep).length == s.sleepers.size) = true := by
    rw [sleepersAccord_iff, List.all_eq_true, beq_iff_eq]
  simp only [audit, Logged.result_bind_eq_ok, Logged.result_ensure_eq_ok, Logged.ofExcept,
    exists_const, hsleepers, hcounted, and_assoc]

theorem HandoffAccord.counted (h : s.HandoffAccord l) : s.HandoffCounted l where
  leads := h.leads
  length := h.length
  tagged := (tagged_perm h.leads.nodup h.mem_iff).length_eq.trans h.length

/-! ### Accounts in order -/

namespace Sound

theorem sleepersAccord (h : s.Sound L staged naps) : s.SleepersAccord := by
  have hperm : s.sleepers.threads.Perm (naps.map (·.thread)) := h.lists.perm.map _
  refine ⟨hperm.symm.nodup h.lists.distinct, fun t => ?_⟩
  rw [hperm.mem_iff, h.tag_asleep_iff]

theorem handoffAccord (h : s.Sound L staged naps) : s.HandoffAccord staged := by
  refine ⟨?_, ?_, fun t => ?_⟩
  · rw [h.queue]
    exact h.linedUp.leads_none
  · rw [h.queue]
    rfl
  · rw [h.queue]
    exact h.accounts.mem_line_iff

theorem audit (h : s.Sound L staged naps) : s.audit.Gives fun _ => True :=
  ⟨(), audit_eq_ok.mpr ⟨h.sleepersAccord, staged, h.handoffAccord.counted⟩, trivial⟩

end Sound
end Scheduler
end PulseKernel
