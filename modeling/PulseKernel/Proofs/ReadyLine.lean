/-
# Ready queues are lists

The threads of a ready queue stand in a line: the slots of the table link each
one to the one before and the one behind it (`ThreadTable.LinedUp`), and the
queue has the ends and the length of that line (`ReadyQueue.ofList`). A walk
along the links meets the threads in order (`ThreadTable.LinedUp.leads`), and every
operation of the queue is an operation on lists: joining puts a thread at the
end, leaving takes it out of the middle, and both change only the slots of the
thread and its neighbours.

Key definitions: `ThreadTable.LinedUp`, `ReadyQueue.ofList`, `ThreadTable.joined`,
`ThreadTable.closed`.
Key theorems: `ReadyQueue.members_ofList`, `ReadyQueue.enqueue_ofList`,
`ReadyQueue.dequeue_ofList`, `ReadyQueue.remove_ofList`.
-/
import PulseKernel.Proofs.LinkWalks

namespace PulseKernel

namespace ThreadTable

variable {table : ThreadTable} {id : QueueId} {l x y : List ThreadId} {t : ThreadId}

/-- The slots of these threads link them to a ready queue in this order. -/
structure LinedUp (table : ThreadTable) (id : QueueId) (l : List ThreadId) : Prop where
  nodup : l.Nodup
  slot : ∀ x t y, l = x ++ t :: y → ∃ context, table.slot? t =
    some { inUse := true, tag := .ready id, next := y.head?, prev := x.getLast?, context := context }

theorem LinedUp.nil (table : ThreadTable) (id : QueueId) : table.LinedUp id [] where
  nodup := List.nodup_nil
  slot x t y h := by simp at h

theorem LinedUp.exists_slot (h : table.LinedUp id l) (ht : t ∈ l) :
    ∃ s, table.slot? t = some s ∧ s.inUse = true ∧ s.tag = .ready id := by
  obtain ⟨x, y, rfl⟩ := List.append_of_mem ht
  obtain ⟨context, hs⟩ := h.slot x t y rfl
  exact ⟨_, hs, rfl, rfl⟩

theorem LinedUp.tag (h : table.LinedUp id l) (ht : t ∈ l) : table.tag t = .ok (.ready id) := by
  obtain ⟨s, hs, hused, hg⟩ := h.exists_slot ht
  exact tag_eq_ok.mpr ⟨s, hs, hused, hg⟩

theorem LinedUp.index_lt (h : table.LinedUp id l) (ht : t ∈ l) : t.index < table.capacity :=
  index_lt_of_tag (h.tag ht)

/-- A line stays when its threads keep their slots. -/
theorem LinedUp.congr {table' : ThreadTable} (h : table.LinedUp id l)
    (hslot : ∀ t ∈ l, table'.slot? t = table.slot? t) : table'.LinedUp id l where
  nodup := h.nodup
  slot x t y hl := by
    rw [hslot t (by rw [hl]; simp)]
    exact h.slot x t y hl

/-- A line does not depend on the contexts of its threads. -/
theorem LinedUp.withContext (h : table.LinedUp id l) (t : ThreadId) (context : SavedContext) :
    (table.touch (some t) (Slot.withContext context)).LinedUp id l where
  nodup := h.nodup
  slot x u y hl := by
    obtain ⟨context', hu⟩ := h.slot x u y hl
    by_cases htu : t = u
    · exact ⟨context, by simp [slot?_touch, htu, hu, Slot.withContext]⟩
    · exact ⟨context', by simp [slot?_touch, htu, hu]⟩

/-- A walk along the links of a line meets its threads, in order. -/
theorem LinedUp.leads (h : table.LinedUp id l) : ∀ (a x y : List ThreadId), l = a ++ (x ++ y) →
    table.Leads y.head? (x ++ y).head? x
  | _, [], _, _ => .here
  | a, u :: x, y, hl => by
    obtain ⟨context, hu⟩ := h.slot a u (x ++ y) hl
    have huy : u ∉ y := fun hmem => by
      have hnodup := h.nodup
      simp [hl, List.nodup_append, hmem] at hnodup
    have hgoal : some u ≠ y.head? := fun e => huy (List.mem_of_head? e.symm)
    exact .step hgoal hu (h.leads (a ++ [u]) x y (by simp [hl]))

theorem LinedUp.leads_none (h : table.LinedUp id l) : table.Leads none l.head? l := by
  have hwalk := h.leads [] l [] (by simp)
  rwa [List.append_nil, List.head?_nil] at hwalk

/-- A line is not longer than the table. -/
theorem LinedUp.length_le (h : table.LinedUp id l) : l.length ≤ table.capacity :=
  length_le_of_nodup h.nodup fun _ ht => h.index_lt ht

/-! ### Joining and leaving a line -/

/-- The table after a thread has joined the end of a line. -/
def joined (table : ThreadTable) (id : QueueId) (l : List ThreadId) (t : ThreadId) : ThreadTable :=
  (table.touch (some t) (Slot.lastOn id l.getLast?)).touch l.getLast? (Slot.withNext (some t))

/-- The table after a thread has left the line between `x` and `y`, which closes behind it. -/
def closed (table : ThreadTable) (x : List ThreadId) (t : ThreadId) (y : List ThreadId) :
    ThreadTable :=
  ((table.touch x.getLast? (Slot.withNext y.head?)).touch y.head? (Slot.withPrev x.getLast?)).touch
    (some t) Slot.unlinked

theorem slot?_joined_of_notMem {u : ThreadId} (hu : u ∉ l) (hut : u ≠ t) :
    (table.joined id l t).slot? u = table.slot? u := by
  have hlast : l.getLast? ≠ some u := fun e => hu (List.mem_of_getLast? e)
  simp [joined, slot?_touch, hlast, hut.symm]

theorem slot?_closed_of_notMem {u : ThreadId} (hu : u ∉ x ++ t :: y) :
    (table.closed x t y).slot? u = table.slot? u := by
  have hx : x.getLast? ≠ some u := fun e => hu (by simp [List.mem_of_getLast? e])
  have hy : y.head? ≠ some u := fun e => hu (by simp [List.mem_of_head? e])
  have ht : t ≠ u := fun e => hu (by simp [e])
  simp [closed, slot?_touch, hx, hy, ht]

theorem slot?_closed_self (table : ThreadTable) (x : List ThreadId) (t : ThreadId)
    (y : List ThreadId) : (table.closed x t y).slot? t = (table.slot? t).map Slot.unlinked :=
  table.slot?_unhooked_self x.getLast? t y.head?

/-- In a list without repetition an entry with others behind it is not the last one. -/
theorem getLast?_ne_of_nodup {u w : ThreadId} (h : (x ++ u :: w :: y).Nodup) :
    (w :: y).getLast? ≠ some u := by
  have hu : u ∉ w :: y := (List.nodup_cons.mp (List.nodup_append.mp h).2.1).1
  exact fun e => hu (List.mem_of_getLast? e)

theorem LinedUp.joined {s : Slot} (h : table.LinedUp id l) (ht : t ∉ l)
    (hs : table.slot? t = some s) (hused : s.inUse = true) :
    (table.joined id l t).LinedUp id (l ++ [t]) where
  nodup := by simpa using h.nodup.concat ht
  slot x u y hl := by
    rcases List.eq_nil_or_concat' y with rfl | ⟨y, v, rfl⟩
    · -- the thread that joins
      obtain ⟨rfl, e⟩ := List.append_inj' hl rfl
      obtain rfl := List.singleton_inj.mp e
      have hlast : l.getLast? ≠ some t := fun e => ht (List.mem_of_getLast? e)
      exact ⟨s.context, by
        simp [ThreadTable.joined, slot?_touch, hlast, hs, hused, Slot.lastOn]⟩
    · obtain ⟨rfl, e⟩ := List.append_inj' (hl.trans (List.append_assoc x (u :: y) [v]).symm) rfl
      obtain rfl := List.singleton_inj.mp e
      obtain ⟨context, hu⟩ := h.slot x u y rfl
      have hut : t ≠ u := fun e => ht (by simp [e])
      cases y with
      | nil =>
        exact ⟨context, by simp [ThreadTable.joined, slot?_touch, hut, hu, Slot.withNext]⟩
      | cons w y =>
        have hlast := getLast?_ne_of_nodup h.nodup
        exact ⟨context, by simp [ThreadTable.joined, slot?_touch, hut, hlast, hu]⟩

/-- The line without `t` is the part before it and the part behind it. -/
theorem closed_cases {u : ThreadId} {a b : List ThreadId} (h : x ++ y = a ++ u :: b) :
    (∃ b', x = a ++ u :: b' ∧ b = b' ++ y) ∨ ∃ a', a = x ++ a' ∧ y = a' ++ u :: b := by
  rcases List.append_eq_append_iff.mp h with ⟨a', rfl, e⟩ | ⟨c, rfl, e⟩
  · exact Or.inr ⟨a', rfl, e⟩
  · rcases List.cons_eq_append_iff.mp e with ⟨rfl, rfl⟩ | ⟨b', rfl, rfl⟩
    · exact Or.inr ⟨[], by simp, rfl⟩
    · exact Or.inl ⟨b', rfl, rfl⟩

theorem LinedUp.closed (h : table.LinedUp id (x ++ t :: y)) :
    (table.closed x t y).LinedUp id (x ++ y) where
  nodup := h.nodup.sublist (List.Sublist.append_left (List.sublist_cons_self t y) x)
  slot a u b hl := by
    have hnodup := h.nodup
    rcases closed_cases hl with ⟨b', rfl, rfl⟩ | ⟨a', rfl, rfl⟩
    · obtain ⟨context, hu⟩ := h.slot a u (b' ++ t :: y) (by simp)
      have htu : t ≠ u := by rintro rfl; simp [List.nodup_append] at hnodup
      have hy : y.head? ≠ some u := fun e => by
        have := List.mem_of_head? e
        simp [List.nodup_append] at hnodup
        grind
      cases b' with
      | nil =>
        exact ⟨context, by simp [ThreadTable.closed, slot?_touch, htu, hy, hu, Slot.withNext]⟩
      | cons w b' =>
        have hlast := getLast?_ne_of_nodup (List.nodup_append.mp hnodup).1
        exact ⟨context, by simp [ThreadTable.closed, slot?_touch, htu, hlast, hy, hu]⟩
    · obtain ⟨context, hu⟩ := h.slot (x ++ t :: a') u b (by simp)
      have htu : t ≠ u := by rintro rfl; simp [List.nodup_append] at hnodup
      have hx : x.getLast? ≠ some u := fun e => by
        have := List.mem_of_getLast? e
        simp [List.nodup_append] at hnodup
        grind
      cases a' with
      | nil =>
        exact ⟨context, by simp [ThreadTable.closed, slot?_touch, htu, hx, hu, Slot.withPrev]⟩
      | cons w a' =>
        have hwu : w ≠ u := by rintro rfl; simp [List.nodup_append] at hnodup
        exact ⟨context, by simp [ThreadTable.closed, slot?_touch, htu, hx, hwu, hu]⟩

theorem tag_joined (h : table.tag t = .ok .unqueued) (u : ThreadId) :
    (table.joined id l t).tag u = if t = u then .ok (.ready id) else table.tag u := by
  rw [joined, tag_touch_withNext]
  exact tag_touch_of_tag h (f := Slot.lastOn id l.getLast?) (fun _ => rfl) (fun _ => rfl) u

theorem tag_closed (h : table.tag t = .ok (.ready id)) (u : ThreadId) :
    (table.closed x t y).tag u = if t = u then .ok .unqueued else table.tag u := by
  have ht : ((table.touch x.getLast? (Slot.withNext y.head?)).touch y.head?
      (Slot.withPrev x.getLast?)).tag t = .ok (.ready id) := by simpa using h
  rw [closed, tag_touch_unlinked ht]
  simp

/-- A table is tidy if it differs from a tidy one in the slots of a line and in slots that were
taken out of a queue. -/
theorem Tidy.of_linedUp {table' : ThreadTable} (h : table.Tidy) (hl : table'.LinedUp id l)
    (hslot : ∀ u, u ∉ l → table'.slot? u = table.slot? u ∨
      table'.slot? u = (table.slot? u).map Slot.unlinked) : table'.Tidy where
  unlinked u s hs hready := by
    by_cases hu : u ∈ l
    · obtain ⟨s', hs', -, hg⟩ := hl.exists_slot hu
      rw [hs] at hs'
      cases hs'
      exact absurd hg (hready id)
    · rcases hslot u hu with e | e
      · exact h.unlinked u s (e ▸ hs) hready
      · rw [e, Option.map_eq_some_iff] at hs
        obtain ⟨s, -, rfl⟩ := hs
        exact ⟨rfl, rfl⟩
  vacant u s hs hfree := by
    by_cases hu : u ∈ l
    · obtain ⟨s', hs', hused, -⟩ := hl.exists_slot hu
      rw [hs] at hs'
      cases hs'
      rw [hused] at hfree
      cases hfree
    · rcases hslot u hu with e | e
      · exact h.vacant u s (e ▸ hs) hfree
      · rw [e, Option.map_eq_some_iff] at hs
        obtain ⟨s, -, rfl⟩ := hs
        rfl

end ThreadTable

namespace ReadyQueue

variable {table : ThreadTable} {id : QueueId} {l : List ThreadId} {t : ThreadId}

/-- The queue over a line of threads. -/
def ofList (id : QueueId) (l : List ThreadId) : ReadyQueue where
  id := id
  head := l.head?
  tail := l.getLast?
  size := l.length

theorem isEmpty_ofList (id : QueueId) (l : List ThreadId) : (ofList id l).isEmpty = l.isEmpty := by
  cases l <;> rfl

/-- The walk along the links meets the threads of the line, in order. -/
theorem members_ofList (h : table.LinedUp id l) : (ofList id l).members table = .ok l :=
  walk_of_leads h.leads_none (Nat.le_succ_of_le h.length_le)

/-! ### Operations -/

/-- Joining puts a thread that no structure owns at the end of the line. -/
theorem enqueue_ofList (h : table.LinedUp id l) (hg : table.tag t = .ok .unqueued) :
    (ofList id l).enqueue table t = pure (true, ofList id (l ++ [t]), table.joined id l t) := by
  have ht := ThreadTable.index_lt_of_tag hg
  have hjoin : ∀ last, table.modifyLink t (fun s =>
      { s with tag := .ready id, next := none, prev := last }) =
        .ok (table.touch (some t) (Slot.lastOn id last)) :=
    fun last => ThreadTable.modifyLink_of_lt ht (Slot.lastOn id last)
  rcases List.eq_nil_or_concat' l with rfl | ⟨l, last, rfl⟩
  · simp [enqueue, hg, Tag.isQueued, ofList, hjoin, ThreadTable.joined]
  · have hlast : last.index < table.capacity := h.index_lt (by simp)
    simp [enqueue, hg, Tag.isQueued, ofList, hjoin, hlast, ThreadTable.joined]

/-- A thread that is not registered or that a queue owns already is left where it is. -/
theorem enqueue_of_not_free (q : ReadyQueue) (hg : table.tag t ≠ .ok .unqueued) :
    (q.enqueue table t).result = .ok (false, q, table) := by
  cases htag : table.tag t with
  | error refusal => rw [enqueue_of_refused q htag]
  | ok g =>
    have hqueued : g.isQueued = true := by
      cases g with
      | unqueued => exact absurd htag hg
      | asleep => rfl
      | ready id => rfl
    rw [enqueue_of_queued q htag hqueued]

/-- The first thread leaves the line. -/
theorem dequeue_ofList (h : table.LinedUp id (t :: l)) :
    (ofList id (t :: l)).dequeue table = pure (some t, ofList id l, table.closed [] t l) := by
  obtain ⟨context, hs⟩ := h.slot [] t l rfl
  have ht : t.index < table.capacity := h.index_lt (by simp)
  cases l with
  | nil =>
    simp [dequeue, ofList, ThreadTable.link_of_slot? hs, ht, shrink, ThreadTable.closed]
  | cons u l =>
    have hu : u.index < table.capacity := h.index_lt (by simp)
    simp [dequeue, ofList, ThreadTable.link_of_slot? hs, ht, hu, shrink, ThreadTable.closed]

/-- The queue over a line without `t` is the part before it and the part behind it. -/
theorem unhooked_ofList (id : QueueId) (x y : List ThreadId) (t : ThreadId) :
    (ofList id (x ++ t :: y)).unhooked x.getLast? y.head? (x ++ y).length = ofList id (x ++ y) := by
  have hhead : (if x.getLast?.isSome then (x ++ t :: y).head? else y.head?) = (x ++ y).head? := by
    cases x <;> simp
  have htail : (if y.head?.isSome then (x ++ t :: y).getLast? else x.getLast?) =
      (x ++ y).getLast? := by
    cases y <;> simp
  simp only [unhooked, ofList, hhead, htail]

/-- A thread leaves the line wherever it stands. -/
theorem remove_ofList {x y : List ThreadId} (h : table.LinedUp id (x ++ t :: y)) :
    (ofList id (x ++ t :: y)).remove table t =
      pure (true, ofList id (x ++ y), table.closed x t y) := by
  obtain ⟨context, hs⟩ := h.slot x t y rfl
  have hnext : table.InRange y.head? := fun u hu =>
    h.index_lt (List.mem_append_right x (List.mem_cons_of_mem t (List.mem_of_head? hu)))
  have hshrink : (ofList id (x ++ t :: y)).shrink = .ok (x ++ y).length := by
    have hsize : (ofList id (x ++ t :: y)).size = (x ++ y).length + 1 := by
      simp [ofList, Nat.add_assoc]
    rw [shrink, hsize]
  have hwalk : table.Leads (some t) (ofList id (x ++ t :: y)).head x := h.leads [] x (t :: y) rfl
  have hremove := remove_of_leads (h.tag (by simp)) hs hnext hwalk
  rw [hshrink] at hremove
  simp only [Except.map, unhooked_ofList] at hremove
  exact hremove

end ReadyQueue
end PulseKernel
