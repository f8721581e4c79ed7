/-
# Nobody is lost

With a line as the policy every registered thread has one place: it holds the
processor, it stands in line once, or it sleeps with one entry in the heap. Only the
running thread may do two of these, when it sleeps and nobody else can run.

What carries this is that the line is known from the table: in it stand exactly the
threads that no structure owns, each once, but for the one that is running
(`Fifo.LinesUp`). While the running thread gives up the processor, it is one of
them (`Fifo.Waits`). Pulses, sleeps and cancellations move threads in or out of both
at once, as long as whoever cancels a sleep by name also releases the thread, and
whoever registers a thread also adds it to the line (`Errand`).

Key definitions: `Errand`, `Scheduler.errands`, `Scheduler.Conserved`,
`Fifo.LinesUp`, `Fifo.Waits`.
Key theorems: `Scheduler.LinedUp.errand`, `Scheduler.errands_conserved`.
-/
import PulseKernel.Proofs.CallEffect

namespace PulseKernel

namespace Fifo

variable {p : Fifo} {table : ThreadTable}

/-- In line stand, once each, the threads that no structure owns, apart from the running one. -/
structure LinesUp (p : Fifo) (table : ThreadTable) : Prop where
  nodup : p.ready.Nodup
  mem_iff : ∀ t, t ∈ p.ready ↔ table.tag t = .ok .unqueued ∧ t ≠ p.running
  running : table.contains p.running = true

/-- In line stand, once each, the threads that no structure owns. -/
structure Waits (p : Fifo) (table : ThreadTable) : Prop where
  nodup : p.ready.Nodup
  mem_iff : ∀ t, t ∈ p.ready ↔ table.tag t = .ok .unqueued
  running : table.contains p.running = true

/-- The first in line gets the processor; the running thread keeps it if nobody stands in line. -/
theorem Waits.advance (h : p.Waits table) : p.advance.LinesUp table := by
  obtain ⟨ready, running⟩ := p
  cases ready with
  | nil =>
    refine ⟨h.nodup, fun t => ?_, h.running⟩
    have hnone : table.tag t ≠ .ok .unqueued :=
      fun hg => List.not_mem_nil ((h.mem_iff t).mpr hg)
    exact ⟨fun ht => absurd ht List.not_mem_nil, fun ht => absurd ht.1 hnone⟩
  | cons first rest =>
    obtain ⟨hfirst, hrest⟩ := List.nodup_cons.mp h.nodup
    refine ⟨hrest, fun t => ?_, ?_⟩
    · show t ∈ rest ↔ table.tag t = .ok .unqueued ∧ t ≠ first
      rw [← h.mem_iff t]
      constructor
      · intro ht
        refine ⟨List.mem_cons_of_mem _ ht, ?_⟩
        rintro rfl
        exact hfirst ht
      · rintro ⟨ht, hne⟩
        exact (List.mem_cons.mp ht).resolve_left hne
    · exact ThreadTable.contains_iff.mpr ⟨_, (h.mem_iff first).mp List.mem_cons_self⟩

namespace LinesUp

/-- Nobody's tag has changed. -/
theorem congr (h : p.LinesUp table) {table' : ThreadTable}
    (htag : ∀ t, table'.tag t = table.tag t) : p.LinesUp table' := by
  refine ⟨h.nodup, fun t => ?_, ?_⟩
  · rw [htag]
    exact h.mem_iff t
  · exact (ThreadTable.contains_congr (htag _)).trans h.running

/-- A running thread that goes to the end of the line waits, and so does one that sleeps. -/
theorem turned (h : p.LinesUp table) {awake : ThreadId → Bool}
    (hawake : awake p.running = true ↔ table.tag p.running = .ok .unqueued) :
    (p.turned awake).LinesUp table := by
  have hrunning : p.running ∉ p.ready := fun ht => ((h.mem_iff _).mp ht).2 rfl
  cases hcase : awake p.running with
  | true =>
    have hfree := hawake.mp hcase
    have hwaits : (p.push p.running).Waits table := by
      refine ⟨?_, fun t => ?_, h.running⟩
      · exact List.nodup_append'.mpr ⟨h.nodup, List.nodup_singleton _, by simpa using hrunning⟩
      · show t ∈ p.ready ++ [p.running] ↔ _
        rw [List.mem_append, List.mem_singleton, h.mem_iff t]
        by_cases ht : t = p.running
        · subst ht
          simp [hfree]
        · simp [ht]
    rw [Fifo.turned, hcase, if_pos rfl]
    exact hwaits.advance
  | false =>
    have hbusy : table.tag p.running ≠ .ok .unqueued := fun hg => by
      rw [hawake.mpr hg] at hcase
      cases hcase
    have hwaits : p.Waits table := by
      refine ⟨h.nodup, fun t => ?_, h.running⟩
      rw [h.mem_iff t]
      refine ⟨And.left, fun ht => ⟨ht, ?_⟩⟩
      rintro rfl
      exact hbusy ht
    rw [Fifo.turned, hcase, if_neg Bool.false_ne_true]
    exact hwaits.advance

/-- Sleepers are woken, and those that do not hold the processor join the line. -/
theorem joinedBy (h : p.LinesUp table) {woken : List ThreadId} (hnodup : woken.Nodup)
    (hasleep : ∀ t ∈ woken, table.tag t = .ok .asleep) :
    (p.joinedBy woken).LinesUp (table.freed woken) := by
  refine ⟨?_, fun t => ?_, ?_⟩
  · refine List.nodup_append'.mpr ⟨h.nodup, hnodup.filter _, fun t ht ht' => ?_⟩
    have hg := hasleep t (List.mem_of_mem_filter ht')
    rw [((h.mem_iff t).mp ht).1] at hg
    cases hg
  · show t ∈ p.ready ++ woken.filter (fun t => t ≠ p.running) ↔ _ ∧ t ≠ p.running
    rw [List.mem_append, List.mem_filter, h.mem_iff t, decide_eq_true_eq, ← or_and_right]
    refine and_congr_left fun _ => ?_
    rw [ThreadTable.tag_freed_eq_unqueued]
    by_cases ht : t ∈ woken
    · simp [ht, ThreadTable.contains_iff.mpr ⟨_, hasleep t ht⟩]
    · simp [ht]
  · rw [ThreadTable.contains_freed]
    exact h.running

/-- The running thread sleeps no more. -/
theorem resumed (h : p.LinesUp table) {t : ThreadId} (ht : t = p.running)
    (hg : table.tag t = .ok .asleep) : p.LinesUp (table.freed [t]) := by
  have hjoined := h.joinedBy (List.nodup_singleton t) (by simpa using hg)
  have hsame : p.joinedBy [t] = p := by
    rw [Fifo.joinedBy, List.filter_cons_of_neg (by simp [ht]), List.filter_nil, List.append_nil]
  rwa [hsame] at hjoined

/-- The running thread falls asleep. -/
theorem doze (h : p.LinesUp table) (hg : table.tag p.running = .ok .unqueued) :
    p.Waits (table.touch (some p.running) Slot.dormant) := by
  refine ⟨h.nodup, fun t => ?_, ?_⟩
  · rw [h.mem_iff t, ThreadTable.tag_touch_dormant hg]
    by_cases ht : p.running = t
    · simp [ht]
    · simp [ht, Ne.symm ht]
  · rw [ThreadTable.contains_touch_dormant hg]
    exact h.running

/-- A thread that does not stand in line has lost its slot. -/
theorem released (h : p.LinesUp table) {t : ThreadId} {table' : ThreadTable}
    (ht : t ≠ p.running) (hline : t ∉ p.ready) (hgone : table'.contains t = false)
    (htag : ∀ u, u ≠ t → table'.tag u = table.tag u) : p.LinesUp table' := by
  refine ⟨h.nodup, fun u => ?_, ?_⟩
  · by_cases hut : u = t
    · subst hut
      refine ⟨fun hu => absurd hu hline, fun hu => ?_⟩
      rw [ThreadTable.contains_iff.mpr ⟨_, hu.1⟩] at hgone
      cases hgone
    · rw [htag u hut]
      exact h.mem_iff u
  · exact (ThreadTable.contains_congr (htag _ (Ne.symm ht))).trans h.running

/-- A new thread has joined the line. -/
theorem registered (h : p.LinesUp table) {t : ThreadId} {table' : ThreadTable}
    (hnew : table.contains t = false)
    (htag : ∀ u, table'.tag u = if u = t then .ok .unqueued else table.tag u) :
    (p.push t).LinesUp table' := by
  have hrunning : t ≠ p.running := by
    rintro rfl
    rw [h.running] at hnew
    cases hnew
  have hline : t ∉ p.ready := fun ht => by
    rw [ThreadTable.contains_iff.mpr ⟨_, ((h.mem_iff t).mp ht).1⟩] at hnew
    cases hnew
  refine ⟨?_, fun u => ?_, ?_⟩
  · exact List.nodup_append'.mpr ⟨h.nodup, List.nodup_singleton _, by simpa using hline⟩
  · show u ∈ p.ready ++ [t] ↔ table'.tag u = .ok .unqueued ∧ u ≠ p.running
    rw [List.mem_append, List.mem_singleton, h.mem_iff u, htag u]
    by_cases hut : u = t
    · subst hut
      simp [hrunning]
    · simp [hut]
  · have hkept : table'.tag p.running = table.tag p.running := by
      rw [htag, if_neg (Ne.symm hrunning)]
    exact (ThreadTable.contains_congr hkept).trans h.running

end LinesUp
end Fifo

/-- Something done with a scheduler that loses no thread. -/
inductive Errand where
  | tick (now : Nat) (booted : Bool)
  | beginSleep (deadline : Nat)
  | cancelSleep (deadline : Nat)
  /-- The end of a thread's sleep, and at once the end of the thread if it does not hold the
  processor. -/
  | cancelThreadSleep (t : ThreadId)
  /-- A new thread, which is added to the line at once. -/
  | register (context : SavedContext)

namespace Scheduler

/-- Ends a thread's sleep, and releases the thread unless it holds the processor. -/
def dismiss (s : Scheduler Fifo) (t : ThreadId) : Logged (Scheduler Fifo) := do
  let (deadline, s) ← s.cancelThreadSleep t
  if deadline.isSome ∧ t ≠ s.policy.running then
    let (_, s) ← s.release t
    return s
  else return s

/-- The scheduler after an errand. -/
def errand (s : Scheduler Fifo) : Errand → Logged (Scheduler Fifo)
  | .tick now booted => do return (← s.tick now booted).2
  | .beginSleep deadline => do return (← s.beginSleep deadline).2
  | .cancelSleep deadline => do return (← s.cancelSleep deadline).2
  | .cancelThreadSleep t => s.dismiss t
  | .register context => do
    let (outcome, s) ← s.register context
    match outcome with
    | .ok t => return { s with policy := s.policy.push t }
    | .error _ => return s

/-- The scheduler after one errand upon the other. -/
def errands (s : Scheduler Fifo) : List Errand → Logged (Scheduler Fifo)
  | [] => return s
  | e :: es => do
    let s ← s.errand e
    s.errands es

/-- The entries that a thread has in the heap of the sleep queue. -/
def entries (s : Scheduler Fifo) (t : ThreadId) : Nat :=
  (s.sleepers.heap.toList.map (·.thread)).count t

/-- Every registered thread has its place. -/
structure Conserved (s : Scheduler Fifo) : Prop where
  running : s.threads.contains s.policy.running = true
  ready_nodup : s.policy.ready.Nodup
  /-- Who stands in line is registered and awake, and does not hold the processor. -/
  ready : ∀ t ∈ s.policy.ready,
    s.threads.contains t = true ∧ s.isSleeping t = false ∧ t ≠ s.policy.running
  /-- A registered thread holds the processor, or stands in line, or sleeps. -/
  placed : ∀ t, s.threads.contains t = true →
    t = s.policy.running ∨ s.policy.ready.count t = 1 ∨ s.isSleeping t = true
  /-- Who sleeps has one entry, and nobody else has any. -/
  entries : ∀ t, s.entries t = if s.isSleeping t then 1 else 0

/-- The accounts of the scheduler are in order, and the line is known from the table. -/
def LinedUp (s : Scheduler Fifo) : Prop :=
  (∃ (L : Layout Unit Unit) (naps : List Sleeper), s.Sound L [] naps) ∧ s.policy.LinesUp s.threads

namespace LinedUp

variable {s : Scheduler Fifo}

theorem conserved (h : s.LinedUp) : s.Conserved := by
  obtain ⟨⟨L, naps, hsound⟩, hline⟩ := h
  have hsleeping : ∀ t, s.isSleeping t = true ↔ s.threads.tag t = .ok .asleep :=
    fun t => ThreadTable.hasTag_iff
  refine ⟨hline.running, hline.nodup, fun t ht => ?_, fun t ht => ?_, fun t => ?_⟩
  · obtain ⟨hg, hne⟩ := (hline.mem_iff t).mp ht
    refine ⟨ThreadTable.contains_iff.mpr ⟨_, hg⟩, ?_, hne⟩
    rw [← Bool.not_eq_true, hsleeping, hg]
    simp
  · by_cases hrunning : t = s.policy.running
    · exact Or.inl hrunning
    · obtain ⟨g, hg⟩ := ThreadTable.contains_iff.mp ht
      cases g with
      | unqueued =>
        have hmem := (hline.mem_iff t).mpr ⟨hg, hrunning⟩
        exact Or.inr (Or.inl (List.count_eq_one_of_mem hline.nodup hmem))
      | asleep => exact Or.inr (Or.inr ((hsleeping t).mpr hg))
      | ready q =>
        obtain ⟨-, -, hnone⟩ := hsound.accounts.ready_of_tag t q hg
        cases hnone
  · have hcount : s.entries t = (naps.map (·.thread)).count t :=
      (hsound.lists.perm.map _).count_eq t
    rw [hcount, hsound.lists.distinct.count]
    exact if_congr (by rw [hsleeping, hsound.tag_asleep_iff]) rfl rfl

/-- A thread whose sleep is cancelled holds the processor or is released. -/
theorem dismiss (h : s.LinedUp) (t : ThreadId) : (s.dismiss t).Gives LinedUp := by
  obtain ⟨⟨L, naps, hsound⟩, hline⟩ := h
  refine .bind (hsound.cancelThreadSleep_eq t) fun a ha => ?_
  obtain ⟨deadline?, s'⟩ := a
  dsimp only at ha ⊢
  rcases ha with ⟨heq, -⟩ | ⟨deadline, naps', hg, rfl, hthreads, hpolicy, h'⟩
  · obtain ⟨rfl, rfl⟩ := Prod.mk.inj heq
    exact .pure ⟨⟨L, naps, hsound⟩, hline⟩
  rw [hpolicy]
  by_cases ht : t = s.policy.running
  · rw [if_neg fun hand => hand.2 ht]
    refine .pure ⟨⟨L, naps', h'⟩, ?_⟩
    rw [hthreads, hpolicy]
    exact hline.resumed ht hg
  · rw [if_pos ⟨rfl, ht⟩]
    refine .bind (h'.release_eq t) fun b hb => .pure ?_
    have hfree : s'.threads.tag t = .ok .unqueued := by
      rw [hthreads, ThreadTable.tag_freed hg, if_pos (List.mem_singleton_self t)]
    rcases hb with ⟨refusal, herror, -⟩ | ⟨-, hgone, htag, hpolicy', h''⟩
    · rw [ThreadTable.release_eq_ok.mpr ⟨hfree, rfl⟩] at herror
      cases herror
    · have hline' : t ∉ s.policy.ready := fun hmem => by
        rw [((hline.mem_iff t).mp hmem).1] at hg
        cases hg
      refine ⟨⟨L, naps', h''⟩, ?_⟩
      rw [hpolicy', hpolicy]
      refine hline.released ht hline' hgone fun u hu => ?_
      rw [htag u hu, hthreads]
      exact s.threads.tag_freed_of_notMem (by simpa using hu)

/-- An errand comes to an end, and the line is known from the table again. -/
theorem errand (h : s.LinedUp) (e : Errand) : (s.errand e).Gives LinedUp := by
  obtain ⟨⟨L, naps, hsound⟩, hline⟩ := h
  cases e with
  | tick now booted =>
    cases booted with
    | false =>
      refine .bind (hsound.tick_early_effect now) fun a ha => .pure ?_
      obtain ⟨-, hthreads, hpolicy, naps', h'⟩ := ha
      exact ⟨⟨L, naps', h'⟩, by rw [hthreads, hpolicy]; exact hline⟩
    | true =>
      refine .bind (hsound.tick_booted_effect now) fun a ha => .pure ?_
      obtain ⟨d, woken, quantumOver, naps', rfl, hnodup, hasleep, -, hthreads, hpolicy, h'⟩ := ha
      refine ⟨⟨L, naps', h'⟩, ?_⟩
      have hjoined := hline.joinedBy hnodup hasleep
      rw [← hthreads] at hjoined
      rw [hpolicy]
      rcases s.policy.dialogue_cases woken quantumOver a.2.awake with ⟨-, hd⟩ | ⟨-, hd⟩
      · rw [hd]
        exact hjoined
      · rw [hd]
        exact hjoined.turned h'.awake_iff
  | beginSleep deadline =>
    refine .bind (hsound.beginSleep_eq deadline) fun a ha => .pure ?_
    rcases ha with ⟨refusal, rfl⟩ | ⟨naps', hg, -, hthreads, hpolicy, h'⟩
    · exact ⟨⟨L, naps, hsound⟩, hline⟩
    · refine ⟨⟨L, naps', h'⟩, ?_⟩
      rw [hthreads, hpolicy]
      exact (hline.doze hg).advance
  | cancelSleep deadline =>
    refine .bind (hsound.cancelSleep_eq deadline) fun a ha => .pure ?_
    rcases ha with rfl | ⟨t, naps', hg, -, hthreads, hpolicy, h'⟩
    · exact ⟨⟨L, naps, hsound⟩, hline⟩
    · refine ⟨⟨L, naps', h'⟩, ?_⟩
      rw [hthreads, hpolicy, Fifo.addAll_others]
      exact hline.joinedBy (List.nodup_singleton t) (by simpa using hg)
  | cancelThreadSleep t => exact LinedUp.dismiss ⟨⟨L, naps, hsound⟩, hline⟩ t
  | register context =>
    refine .bind (hsound.register_eq context) fun a ha => ?_
    obtain ⟨outcome, s'⟩ := a
    rcases ha with ⟨refusal, heq⟩ | ⟨t, rfl, hnew, htag, hpolicy, h'⟩
    · obtain ⟨rfl, rfl⟩ := Prod.mk.inj heq
      exact .pure ⟨⟨L, naps, hsound⟩, hline⟩
    · refine .pure ⟨⟨L, naps, h'.withPolicy _⟩, ?_⟩
      rw [← show s'.policy = s.policy from hpolicy] at hline
      exact hline.registered hnew htag

theorem errands : ∀ (es : List Errand) {s : Scheduler Fifo}, s.LinedUp →
    (s.errands es).Gives LinedUp
  | [], _, h => .pure h
  | e :: es, _, h => .bind (h.errand e) fun _ h' => LinedUp.errands es h'

end LinedUp

variable {s : Scheduler Fifo}

/-- While nobody sleeps, every registered thread has no owner. -/
theorem Reached.linedUp (h : s.Reached) (hawake : s.sleepers.isEmpty = true)
    (hplaces : (s.policy.running :: s.policy.ready).Perm (s.threads.threads.map (·.1))) :
    s.LinedUp := by
  obtain ⟨L, naps, hsound⟩ := h.sound
  have hnaps : naps = [] := by rwa [hsound.lists.isEmpty_eq, List.isEmpty_iff] at hawake
  have hfree : ∀ t g, s.threads.tag t = .ok g → g = .unqueued := by
    intro t g hg
    cases g with
    | unqueued => rfl
    | asleep =>
      have ht := hsound.tag_asleep_iff.mp hg
      rw [hnaps] at ht
      cases ht
    | ready q =>
      obtain ⟨-, -, ht⟩ := hsound.accounts.ready_of_tag t q hg
      cases ht
  have hmem : ∀ t, t ∈ s.policy.running :: s.policy.ready ↔ s.threads.tag t = .ok .unqueued := by
    intro t
    rw [hplaces.mem_iff, List.mem_map]
    constructor
    · rintro ⟨⟨u, g⟩, hug, rfl⟩
      have hg := ThreadTable.mem_threads_iff.mp hug
      rwa [hfree u g hg] at hg
    · exact fun hg => ⟨(t, .unqueued), ThreadTable.mem_threads_iff.mpr hg, rfl⟩
  obtain ⟨hrunning, hnodup⟩ :=
    List.nodup_cons.mp (hplaces.nodup_iff.mpr s.threads.nodup_threads)
  refine ⟨⟨L, naps, hsound⟩, hnodup, fun t => ?_, ?_⟩
  · rw [← hmem t, List.mem_cons]
    constructor
    · intro ht
      refine ⟨Or.inr ht, ?_⟩
      rintro rfl
      exact hrunning ht
    · rintro ⟨ht, hne⟩
      exact ht.resolve_left hne
  · exact ThreadTable.contains_iff.mpr ⟨_, (hmem _).mp List.mem_cons_self⟩

/-- If nobody sleeps at first, and the running thread and those in line are the registered threads,
each once, then whatever errands come, every registered thread has its place. -/
theorem errands_conserved (h : s.Reached) (hawake : s.sleepers.isEmpty = true)
    (hplaces : (s.policy.running :: s.policy.ready).Perm (s.threads.threads.map (·.1)))
    (es : List Errand) : ∃ s', (s.errands es).result = .ok s' ∧ s'.Conserved := by
  obtain ⟨s', hs', h'⟩ := LinedUp.errands es (h.linedUp hawake hplaces)
  exact ⟨s', hs', h'.conserved⟩

/-- One of three threads sleeps past its deadline, another one is dismissed, and a fourth comes. -/
theorem errands_conserved_three_threads :
    ∃ s : Scheduler Fifo, s.Reached ∧ s.sleepers.isEmpty = true ∧
      (s.policy.running :: s.policy.ready).Perm (s.threads.threads.map (·.1)) ∧
      ∃ s', (s.errands [.beginSleep 5, .tick 7 true, .beginSleep 9, .cancelThreadSleep ⟨1⟩,
        .register {}]).result = .ok s' ∧ s'.Conserved := by
  have hcheck : ({ maxThreads := 3, sleepSlots := 2, quantum := 3 } : Settings).check = .ok () := by
    decide
  obtain ⟨s, hs, h⟩ := Reached.exists_callAll hcheck (⟨[⟨1⟩, ⟨2⟩], ⟨0⟩⟩ : Fifo) ⟨1⟩
    [.serve (.register {}), .serve (.register {}), .serve (.register {})]
  have hawake := Logged.eq_of_map_result (f := fun s => s.sleepers.isEmpty) (b := true) hs
    (by decide +kernel)
  have hplaces := Logged.eq_of_map_result
    (f := fun s => decide ((s.policy.running :: s.policy.ready).Perm (s.threads.threads.map (·.1))))
    (b := true) hs (by decide +kernel)
  exact ⟨s, h, hawake, of_decide_eq_true hplaces,
    errands_conserved h hawake (of_decide_eq_true hplaces) _⟩

end Scheduler
end PulseKernel
