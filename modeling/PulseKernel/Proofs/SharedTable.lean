/-
# Queues over one table

Any number of ready queues and sleep queues share one thread table. A thread
that joins a queue changes the slots of the threads beside it, and nothing but
its tag keeps the other queues from taking it as well. So what is kept up is a
statement about all of them together (`SharedTable.Accounts`): every ready queue
is the line of its threads, every sleep queue holds its sleepers, and the tags
tell the same story.

Each operation is a move of one thread between these lists. What a step keeps
up (`Accounts.step`), every run from empty queues keeps up
(`Layout.exists_accounts`).

Key definitions: `Layout`, `SharedTable`, `Operation`, `SharedTable.step`,
`SharedTable.run`, `SharedTable.Accounts`.
Key theorems: `SharedTable.Accounts.step`, `Layout.exists_accounts`.
-/
import Mathlib.Logic.Function.Basic
import PulseKernel.Proofs.ReadyLine
import PulseKernel.Proofs.SleepOrder

namespace PulseKernel

/-- What is fixed when the queues are made: the slots of the table, the ids of the ready queues,
which are distinct, and the room of the sleep queues. -/
structure Layout (ρ σ : Type) where
  slots : Nat
  id : ρ → QueueId
  distinct : Function.Injective id
  room : σ → Nat

/-- A thread table and the queues that are used with it. -/
structure SharedTable (ρ σ : Type) where
  table : ThreadTable
  ready : ρ → ReadyQueue
  sleep : σ → SleepQueue

/-- Something done to the table or to one of the queues. -/
inductive Operation (ρ σ : Type) where
  | register (context : SavedContext)
  | release (t : ThreadId)
  | setContext (t : ThreadId) (context : SavedContext)
  | enqueue (r : ρ) (t : ThreadId)
  | dequeue (r : ρ)
  | remove (r : ρ) (t : ThreadId)
  | insert (w : σ) (deadline : Nat) (t : ThreadId)
  /-- Takes out the oldest sleeper with the deadline. -/
  | expire (w : σ) (deadline : Nat)
  | removeThread (w : σ) (t : ThreadId)

namespace Operation

variable {ρ σ : Type}

/-- The ready queue that the operation is about. -/
def ready? : Operation ρ σ → Option ρ
  | enqueue r _ | dequeue r | remove r _ => some r
  | _ => none

/-- The sleep queue that the operation is about. -/
def sleep? : Operation ρ σ → Option σ
  | insert w _ _ | expire w _ | removeThread w _ => some w
  | _ => none

end Operation

/-- Empty queues over a table without threads. -/
def Layout.fresh {ρ σ : Type} (L : Layout ρ σ) : SharedTable ρ σ where
  table := .ofCapacity L.slots
  ready r := { id := L.id r }
  sleep w := { capacity := L.room w }

namespace SharedTable

variable {ρ σ : Type}

/-! ### Operations -/

def register (s : SharedTable ρ σ) (context : SavedContext) :
    Except Refusal ThreadId × SharedTable ρ σ :=
  let (outcome, table) := s.table.register context
  (outcome, { s with table := table })

def release (s : SharedTable ρ σ) (t : ThreadId) : Except Refusal Unit × SharedTable ρ σ :=
  let (outcome, table) := s.table.release t
  (outcome, { s with table := table })

def setContext (s : SharedTable ρ σ) (t : ThreadId) (context : SavedContext) :
    Except Refusal (SharedTable ρ σ) := do
  let table ← s.table.setContext t context
  return { s with table := table }

section Ready

variable [DecidableEq ρ]

/-- The same queues but for one ready queue and the table. -/
def putReady (s : SharedTable ρ σ) (r : ρ) (q : ReadyQueue) (table : ThreadTable) :
    SharedTable ρ σ :=
  { s with table := table, ready := Function.update s.ready r q }

@[simp] theorem putReady_self (s : SharedTable ρ σ) (r : ρ) :
    s.putReady r (s.ready r) s.table = s := by
  simp [putReady]

def enqueue (s : SharedTable ρ σ) (r : ρ) (t : ThreadId) : Logged (Bool × SharedTable ρ σ) := do
  let (joined, q, table) ← (s.ready r).enqueue s.table t
  return (joined, s.putReady r q table)

def dequeue (s : SharedTable ρ σ) (r : ρ) : Logged (Option ThreadId × SharedTable ρ σ) := do
  let (first, q, table) ← (s.ready r).dequeue s.table
  return (first, s.putReady r q table)

def remove (s : SharedTable ρ σ) (r : ρ) (t : ThreadId) : Logged (Bool × SharedTable ρ σ) := do
  let (removed, q, table) ← (s.ready r).remove s.table t
  return (removed, s.putReady r q table)

end Ready

section Sleep

variable [DecidableEq σ]

/-- The same queues but for one sleep queue and the table. -/
def putSleep (s : SharedTable ρ σ) (w : σ) (q : SleepQueue) (table : ThreadTable) :
    SharedTable ρ σ :=
  { s with table := table, sleep := Function.update s.sleep w q }

@[simp] theorem putSleep_self (s : SharedTable ρ σ) (w : σ) :
    s.putSleep w (s.sleep w) s.table = s := by
  simp [putSleep]

def insert (s : SharedTable ρ σ) (w : σ) (deadline : Nat) (t : ThreadId) :
    Logged (Except Refusal Unit × SharedTable ρ σ) := do
  let (outcome, q, table) ← (s.sleep w).insert s.table deadline t
  return (outcome, s.putSleep w q table)

def expire (s : SharedTable ρ σ) (w : σ) (deadline : Nat) :
    Logged (Option ThreadId × SharedTable ρ σ) := do
  let (woken, q, table) ← (s.sleep w).remove s.table deadline
  return (woken, s.putSleep w q table)

def removeThread (s : SharedTable ρ σ) (w : σ) (t : ThreadId) :
    Logged (Option Nat × SharedTable ρ σ) := do
  let (deadline, q, table) ← (s.sleep w).removeThread s.table t
  return (deadline, s.putSleep w q table)

end Sleep

section Run

variable [DecidableEq ρ] [DecidableEq σ]

/-- Carries out an operation, whatever its answer is. -/
def step (s : SharedTable ρ σ) : Operation ρ σ → Logged (SharedTable ρ σ)
  | .register context => return (s.register context).2
  | .release t => return (s.release t).2
  | .setContext t context =>
    match s.setContext t context with
    | .ok s => return s
    | .error _ => return s
  | .enqueue r t => do return (← s.enqueue r t).2
  | .dequeue r => do return (← s.dequeue r).2
  | .remove r t => do return (← s.remove r t).2
  | .insert w deadline t => do return (← s.insert w deadline t).2
  | .expire w deadline => do return (← s.expire w deadline).2
  | .removeThread w t => do return (← s.removeThread w t).2

/-- Carries out one operation after the other. -/
def run (s : SharedTable ρ σ) : List (Operation ρ σ) → Logged (SharedTable ρ σ)
  | [] => return s
  | op :: ops => do
    let s ← s.step op
    s.run ops

end Run

/-! ### The accounts -/

/-- The ready queues are these lines, the sleep queues hold these sleepers, and the tags of the
threads say so. -/
structure Accounts (L : Layout ρ σ) (s : SharedTable ρ σ) (lines : ρ → List ThreadId)
    (naps : σ → List Sleeper) : Prop where
  queue : ∀ r, s.ready r = .ofList (L.id r) (lines r)
  linedUp : ∀ r, s.table.LinedUp (L.id r) (lines r)
  ready_of_tag : ∀ t q, s.table.tag t = .ok (.ready q) → ∃ r, L.id r = q ∧ t ∈ lines r
  lists : ∀ w, (s.sleep w).Lists (naps w)
  room : ∀ w, (s.sleep w).capacity = L.room w
  asleep : ∀ w t, t ∈ (naps w).map (·.thread) → s.table.tag t = .ok .asleep
  asleep_of_tag : ∀ t, s.table.tag t = .ok .asleep → ∃ w, t ∈ (naps w).map (·.thread)
  apart : ∀ w w' t, t ∈ (naps w).map (·.thread) → t ∈ (naps w').map (·.thread) → w = w'
  tidy : s.table.Tidy

variable {L : Layout ρ σ} {s s' : SharedTable ρ σ} {lines : ρ → List ThreadId}
  {naps : σ → List Sleeper} {r : ρ} {w : σ} {t : ThreadId}

theorem Accounts.fresh (L : Layout ρ σ) : Accounts L L.fresh (fun _ => []) fun _ => [] := by
  have htag : ∀ t g, L.fresh.table.tag t ≠ .ok g := by
    intro t g hg
    obtain ⟨s, hs, hused, -⟩ := ThreadTable.tag_eq_ok.mp hg
    rw [ThreadTable.slot?_ofCapacity hs] at hused
    cases hused
  exact {
    queue := fun r => rfl
    linedUp := fun r => .nil _ _
    ready_of_tag := fun t q hq => absurd hq (htag t _)
    lists := fun w => .empty _
    room := fun w => rfl
    asleep := fun w t ht => by cases ht
    asleep_of_tag := fun t ht => absurd ht (htag t _)
    apart := fun w w' t ht => by cases ht
    tidy := ThreadTable.tidy_ofCapacity _ }

/-- A thread on two lines would have two tags. -/
theorem Accounts.line_unique (h : Accounts L s lines naps) {r r' : ρ} (ht : t ∈ lines r)
    (ht' : t ∈ lines r') : r = r' := by
  have hg := (h.linedUp r).tag ht
  rw [(h.linedUp r').tag ht'] at hg
  injection hg with hg
  injection hg with hg
  exact (L.distinct hg).symm

theorem Accounts.mem_line_iff (h : Accounts L s lines naps) :
    t ∈ lines r ↔ s.table.tag t = .ok (.ready (L.id r)) := by
  refine ⟨(h.linedUp r).tag, fun hg => ?_⟩
  obtain ⟨r', hr, ht⟩ := h.ready_of_tag t _ hg
  exact L.distinct hr ▸ ht

theorem Accounts.notMem_line (h : Accounts L s lines naps) (hg : ∀ q, s.table.tag t ≠ .ok (.ready q))
    (r : ρ) : t ∉ lines r :=
  fun ht => hg _ ((h.linedUp r).tag ht)

theorem Accounts.notMem_naps (h : Accounts L s lines naps) (hg : s.table.tag t ≠ .ok .asleep)
    (w : σ) : t ∉ (naps w).map (·.thread) :=
  fun ht => hg (h.asleep w t ht)

/-- Who is woken is free. -/
theorem Accounts.tag_woken (h : Accounts L s lines naps) {e : Sleeper} (he : e ∈ naps w) :
    (s.table.touch (some e.thread) Slot.unlinked).tag e.thread = .ok .unqueued := by
  have hg := h.asleep w e.thread (List.mem_map_of_mem he)
  rw [ThreadTable.tag_touch_unlinked hg, if_pos rfl]

/-! ### One thread moves

A thread is registered or released, or it joins or leaves a queue. In each case the rest of the
accounts stays. -/

/-- A thread that is on no queue can be changed into one that is on no queue. -/
theorem Accounts.withTable (h : Accounts L s lines naps) {table : ThreadTable}
    (hslot : ∀ u, t ≠ u → table.slot? u = s.table.slot? u)
    (hold : ∀ g, s.table.tag t = .ok g → g = .unqueued)
    (hnew : ∀ g, table.tag t = .ok g → g = .unqueued) (htidy : table.Tidy) :
    Accounts L { s with table := table } lines naps := by
  have htag : ∀ u g, g ≠ .unqueued → (table.tag u = .ok g ↔ s.table.tag u = .ok g) := by
    intro u g hg
    by_cases htu : t = u
    · subst htu
      exact ⟨fun e => absurd (hnew g e) hg, fun e => absurd (hold g e) hg⟩
    · rw [ThreadTable.tag_congr (hslot u htu)]
  exact {
    queue := h.queue
    linedUp := fun r => (h.linedUp r).congr fun u hu => hslot u <| by
      rintro rfl
      cases hold _ ((h.linedUp r).tag hu)
    ready_of_tag := fun u q hu => h.ready_of_tag u q ((htag u _ (by simp)).mp hu)
    lists := h.lists
    room := h.room
    asleep := fun w u hu => (htag u _ (by simp)).mpr (h.asleep w u hu)
    asleep_of_tag := fun u hu => h.asleep_of_tag u ((htag u _ (by simp)).mp hu)
    apart := h.apart
    tidy := htidy }

/-- A thread joins or leaves a ready queue. -/
theorem Accounts.withReady [DecidableEq ρ] (h : Accounts L s lines naps) {l : List ThreadId}
    {table : ThreadTable} (hline : table.LinedUp (L.id r) l)
    (hslot : ∀ u, u ∉ lines r → t ≠ u → table.slot? u = s.table.slot? u)
    (htag : ∀ u, t ≠ u → table.tag u = s.table.tag u)
    (hold : s.table.tag t = .ok .unqueued ∨ t ∈ lines r)
    (hnew : table.tag t = .ok .unqueued ∨ t ∈ l)
    (hmem : ∀ u, t ≠ u → u ∈ lines r → u ∈ l) (htidy : table.Tidy) :
    Accounts L (s.putReady r (.ofList (L.id r) l) table) (Function.update lines r l) naps := by
  have hold' : s.table.tag t ≠ .ok .asleep := by
    rcases hold with hg | ht
    · simp [hg]
    · simp [(h.linedUp r).tag ht]
  have hnew' : table.tag t ≠ .ok .asleep := by
    rcases hnew with hg | ht
    · simp [hg]
    · simp [hline.tag ht]
  have hsleep : ∀ u, table.tag u = .ok .asleep ↔ s.table.tag u = .ok .asleep := by
    intro u
    by_cases htu : t = u
    · subst htu
      exact ⟨fun e => absurd e hnew', fun e => absurd e hold'⟩
    · rw [htag u htu]
  constructor
  case queue =>
    intro r'
    by_cases hr : r' = r
    · subst hr
      simp [putReady]
    · simp [putReady, hr, h.queue]
  case linedUp =>
    intro r'
    by_cases hr : r' = r
    · subst hr
      simpa [putReady] using hline
    · simp only [putReady, Function.update_of_ne hr]
      refine (h.linedUp r').congr fun u hu => hslot u (fun hu' => hr (h.line_unique hu hu')) ?_
      rintro rfl
      rcases hold with hg | ht
      · simp [(h.linedUp r').tag hu] at hg
      · exact hr (h.line_unique hu ht)
  case ready_of_tag =>
    intro u q hu
    by_cases htu : t = u
    · subst htu
      have ht : t ∈ l := hnew.resolve_left fun e => by simp [putReady, e] at hu
      have hg := hline.tag ht
      rw [show table.tag t = .ok (.ready q) from hu] at hg
      injection hg with hg
      injection hg with hg
      exact ⟨r, hg.symm, by simpa using ht⟩
    · obtain ⟨r', hr', hu'⟩ := h.ready_of_tag u q (by rw [← htag u htu]; exact hu)
      refine ⟨r', hr', ?_⟩
      by_cases hr : r' = r
      · subst hr
        simpa using hmem u htu hu'
      · simpa [hr] using hu'
  case lists => exact h.lists
  case room => exact h.room
  case asleep => exact fun w u hu => (hsleep u).mpr (h.asleep w u hu)
  case asleep_of_tag => exact fun u hu => h.asleep_of_tag u ((hsleep u).mp hu)
  case apart => exact h.apart
  case tidy => exact htidy

/-- A thread falls asleep or wakes up. -/
theorem Accounts.withSleep [DecidableEq σ] (h : Accounts L s lines naps) {q : SleepQueue}
    {l : List Sleeper} {table : ThreadTable} (hlists : q.Lists l)
    (hroom : q.capacity = (s.sleep w).capacity)
    (hslot : ∀ u, t ≠ u → table.slot? u = s.table.slot? u)
    (hold : s.table.tag t = .ok .unqueued ∨ s.table.tag t = .ok .asleep)
    (hnew : table.tag t = .ok .unqueued ∧ t ∉ l.map (·.thread) ∨
      table.tag t = .ok .asleep ∧ t ∈ l.map (·.thread))
    (hmem : ∀ u, t ≠ u → (u ∈ l.map (·.thread) ↔ u ∈ (naps w).map (·.thread)))
    (hapart : ∀ w', w' ≠ w → t ∉ (naps w').map (·.thread)) (htidy : table.Tidy) :
    Accounts L (s.putSleep w q table) lines (Function.update naps w l) := by
  have hold' : ∀ q, s.table.tag t ≠ .ok (.ready q) := by
    rcases hold with hg | hg <;> simp [hg]
  have hnew' : ∀ q, table.tag t ≠ .ok (.ready q) := by
    rcases hnew with ⟨hg, -⟩ | ⟨hg, -⟩ <;> simp [hg]
  have htag : ∀ u, t ≠ u → table.tag u = s.table.tag u := fun u hu =>
    ThreadTable.tag_congr (hslot u hu)
  -- who sleeps where, apart from the thread that moves
  have hnaps : ∀ w' u, t ≠ u → (u ∈ (Function.update naps w l w').map (·.thread) ↔
      u ∈ (naps w').map (·.thread)) := by
    intro w' u hu
    by_cases hw : w' = w
    · subst hw
      simpa using hmem u hu
    · simp [hw]
  have hmover : ∀ w', t ∈ (Function.update naps w l w').map (·.thread) → w' = w := by
    intro w' ht
    by_contra hw
    exact hapart w' hw (by simpa [hw] using ht)
  constructor
  case queue => exact h.queue
  case linedUp =>
    exact fun r => (h.linedUp r).congr fun u hu => hslot u <| by
      rintro rfl
      exact hold' _ ((h.linedUp r).tag hu)
  case ready_of_tag =>
    intro u q hu
    have htu : t ≠ u := by
      rintro rfl
      exact hnew' q hu
    exact h.ready_of_tag u q (by rw [← htag u htu]; exact hu)
  case lists =>
    intro w'
    by_cases hw : w' = w
    · subst hw
      simpa [putSleep] using hlists
    · simpa [putSleep, hw] using h.lists w'
  case room =>
    intro w'
    by_cases hw : w' = w
    · subst hw
      simpa [putSleep, hroom] using h.room w'
    · simpa [putSleep, hw] using h.room w'
  case asleep =>
    intro w' u hu
    by_cases htu : t = u
    · subst htu
      obtain rfl := hmover w' hu
      rcases hnew with ⟨-, ht⟩ | ⟨hg, -⟩
      · exact absurd (by simpa using hu) ht
      · exact hg
    · exact (htag u htu).trans (h.asleep w' u ((hnaps w' u htu).mp hu))
  case asleep_of_tag =>
    intro u hu
    by_cases htu : t = u
    · subst htu
      rcases hnew with ⟨hg, -⟩ | ⟨-, ht⟩
      · rw [show table.tag t = .ok .asleep from hu] at hg
        cases hg
      · exact ⟨w, by simpa using ht⟩
    · obtain ⟨w', hw'⟩ := h.asleep_of_tag u (by rw [← htag u htu]; exact hu)
      exact ⟨w', (hnaps w' u htu).mpr hw'⟩
  case apart =>
    intro w₁ w₂ u h₁ h₂
    by_cases htu : t = u
    · subst htu
      rw [hmover w₁ h₁, hmover w₂ h₂]
    · exact h.apart w₁ w₂ u ((hnaps w₁ u htu).mp h₁) ((hnaps w₂ u htu).mp h₂)
  case tidy => exact htidy

/-! ### The moves of the operations -/

theorem Accounts.granted (h : Accounts L s lines naps) {context : SavedContext}
    {table : ThreadTable} (ht : s.table.register context = (.ok t, table)) :
    Accounts L { s with table := table } lines naps := by
  obtain ⟨⟨slot, hslot, hfree⟩, rfl⟩ := ThreadTable.register_eq_ok ht
  refine h.withTable (t := t) (fun u hu => ?_) ?_ ?_ ?_
  · simp [ThreadTable.slot?_touch, hu]
  · intro g hg
    obtain ⟨slot', hslot', hused, -⟩ := ThreadTable.tag_eq_ok.mp hg
    rw [hslot] at hslot'
    cases hslot'
    rw [hfree] at hused
    cases hused
  · intro g hg
    obtain ⟨slot', hslot', -, rfl⟩ := ThreadTable.tag_eq_ok.mp hg
    simp only [ThreadTable.slot?_setLive, ThreadTable.slot?_touch, if_true, hslot,
      Option.map_some, Option.some.injEq] at hslot'
    rw [← hslot']
  · exact (h.tidy.touch (some t) fun _ _ _ _ => ⟨fun _ => ⟨rfl, rfl⟩, fun _ => rfl⟩).setLive _

/-- Nobody is registered, or a thread that is on no queue. -/
theorem Accounts.register (h : Accounts L s lines naps) (context : SavedContext) :
    Accounts L (s.register context).2 lines naps := by
  unfold SharedTable.register
  cases ht : s.table.register context with
  | mk outcome table =>
    cases outcome with
    | ok t => exact h.granted ht
    | error refusal =>
      obtain rfl := ThreadTable.register_refused ht
      exact h

theorem Accounts.returned (h : Accounts L s lines naps) {table : ThreadTable}
    (ht : s.table.release t = (.ok (), table)) :
    Accounts L { s with table := table } lines naps := by
  obtain ⟨hg, rfl⟩ := ThreadTable.release_eq_ok.mp ht
  refine h.withTable (t := t) (fun u hu => ?_) ?_ ?_ ?_
  · simp [ThreadTable.slot?_touch, hu]
  · intro g hg'
    rw [hg] at hg'
    cases hg'
    rfl
  · intro g hg'
    obtain ⟨slot, hslot, hused, -⟩ := ThreadTable.tag_eq_ok.mp hg'
    simp only [ThreadTable.slot?_setLive, ThreadTable.slot?_touch, if_true,
      Option.map_eq_some_iff] at hslot
    obtain ⟨-, -, rfl⟩ := hslot
    cases hused
  · exact (h.tidy.touch (some t) fun _ _ _ _ => ⟨fun _ => ⟨rfl, rfl⟩, fun _ => rfl⟩).setLive _

/-- Nobody is released, or a thread that is on no queue. -/
theorem Accounts.release (h : Accounts L s lines naps) (t : ThreadId) :
    Accounts L (s.release t).2 lines naps := by
  unfold SharedTable.release
  cases ht : s.table.release t with
  | mk outcome table =>
    cases outcome with
    | ok => exact h.returned ht
    | error refusal =>
      obtain rfl := ThreadTable.release_refused ht
      exact h

theorem Accounts.setContext (h : Accounts L s lines naps) {context : SavedContext}
    {table : ThreadTable} (ht : s.table.setContext t context = .ok table) :
    Accounts L { s with table := table } lines naps := by
  obtain rfl := ThreadTable.setContext_eq_ok ht
  exact { h with
    linedUp := fun r => (h.linedUp r).withContext t context
    ready_of_tag := fun u q hu => h.ready_of_tag u q (by simpa using hu)
    asleep := fun w u hu => by simpa using h.asleep w u hu
    asleep_of_tag := fun u hu => h.asleep_of_tag u (by simpa using hu)
    tidy := h.tidy.touch (some t) fun u slot _ hs =>
      ⟨h.tidy.unlinked u slot hs, h.tidy.vacant u slot hs⟩ }

section Ready

variable [DecidableEq ρ]

/-- A thread that no queue owns joins a ready queue. -/
theorem Accounts.joined (h : Accounts L s lines naps) (r : ρ)
    (hg : s.table.tag t = .ok .unqueued) :
    Accounts L
      (s.putReady r (.ofList (L.id r) (lines r ++ [t])) (s.table.joined (L.id r) (lines r) t))
      (Function.update lines r (lines r ++ [t])) naps := by
  obtain ⟨slot, hslot, hused, -⟩ := ThreadTable.tag_eq_ok.mp hg
  have ht : t ∉ lines r := h.notMem_line (by simp [hg]) r
  have hline := (h.linedUp r).joined ht hslot hused
  refine h.withReady (t := t) hline (fun u hu htu => ?_) (fun u htu => ?_) (Or.inl hg)
    (Or.inr (by simp)) (fun u _ hu => by simp [hu]) ?_
  · exact ThreadTable.slot?_joined_of_notMem hu htu.symm
  · rw [ThreadTable.tag_joined hg, if_neg htu]
  · refine h.tidy.of_linedUp hline fun u hu => Or.inl ?_
    simp only [List.mem_append, List.mem_singleton, not_or] at hu
    exact ThreadTable.slot?_joined_of_notMem hu.1 hu.2

/-- A thread leaves a ready queue, wherever it stands. -/
theorem Accounts.closed (h : Accounts L s lines naps) {x y : List ThreadId}
    (hl : lines r = x ++ t :: y) :
    Accounts L (s.putReady r (.ofList (L.id r) (x ++ y)) (s.table.closed x t y))
      (Function.update lines r (x ++ y)) naps := by
  have hold := h.linedUp r
  rw [hl] at hold
  have hg : s.table.tag t = .ok (.ready (L.id r)) := hold.tag (by simp)
  refine h.withReady (t := t) hold.closed (fun u hu _ => ?_) (fun u htu => ?_)
    (Or.inr (by simp [hl])) (Or.inl ?_) (fun u htu hu => ?_) ?_
  · exact ThreadTable.slot?_closed_of_notMem (by rw [← hl]; exact hu)
  · rw [ThreadTable.tag_closed hg, if_neg htu]
  · rw [ThreadTable.tag_closed hg, if_pos rfl]
  · simpa [hl, htu.symm] using hu
  · refine h.tidy.of_linedUp hold.closed fun u hu => ?_
    by_cases htu : t = u
    · subst htu
      exact Or.inr (ThreadTable.slot?_closed_self s.table x t y)
    · refine Or.inl (ThreadTable.slot?_closed_of_notMem ?_)
      simpa [Ne.symm htu] using hu

end Ready

section Sleep

variable [DecidableEq σ]

/-- A thread that no queue owns falls asleep. -/
theorem Accounts.slept (h : Accounts L s lines naps) (w : σ) (deadline : Nat)
    (hg : s.table.tag t = .ok .unqueued) (hroom : (naps w).length < (s.sleep w).capacity) :
    Accounts L
      (s.putSleep w ((s.sleep w).inserted deadline t) (s.table.touch (some t) Slot.dormant)) lines
      (Function.update naps w (naps w ++ [⟨deadline, t, (s.sleep w).nextSeq⟩])) := by
  have hnaps := h.notMem_naps (t := t) (by simp [hg])
  obtain ⟨slot, hslot, hused, hfree⟩ := ThreadTable.tag_eq_ok.mp hg
  refine h.withSleep (t := t) ((h.lists w).inserted deadline hroom (hnaps w)) rfl
    (fun u hu => ?_) (Or.inl hg) (Or.inr ⟨?_, by simp⟩) (fun u hu => ?_) (fun w' _ => hnaps w') ?_
  · simp [ThreadTable.slot?_touch, hu]
  · rw [ThreadTable.tag_touch_dormant hg, if_pos rfl]
  · simp [hu.symm]
  · refine h.tidy.touch (some t) fun u slot' hu hslot' => ?_
    obtain rfl := Option.some.inj hu
    rw [hslot] at hslot'
    obtain rfl := Option.some.inj hslot'
    refine ⟨fun _ => h.tidy.unlinked t slot hslot (by simp [hfree]), fun hvacant => ?_⟩
    rw [show (Slot.dormant slot).inUse = slot.inUse from rfl, hused] at hvacant
    cases hvacant

/-- A sleeper is taken out of its queue. -/
theorem Accounts.woken (h : Accounts L s lines naps) {i : Fin (s.sleep w).heap.size} {e : Sleeper}
    (hi : (s.sleep w).entry i = e) :
    Accounts L
      (s.putSleep w ((s.sleep w).without i) (s.table.touch (some e.thread) Slot.unlinked)) lines
      (Function.update naps w ((naps w).erase e)) := by
  have he : e ∈ naps w := hi ▸ (h.lists w).entry_mem i
  have ht : e.thread ∈ (naps w).map (·.thread) := List.mem_map_of_mem he
  have hg : s.table.tag e.thread = .ok .asleep := h.asleep w _ ht
  have hlists := (h.lists w).without i
  rw [hi] at hlists
  refine h.withSleep (t := e.thread) hlists rfl (fun u hu => ?_) (Or.inr hg) (Or.inl ⟨?_, ?_⟩)
    (fun u hu => ?_) (fun w' hw ht' => ?_) ?_
  · simp [ThreadTable.slot?_touch, hu]
  · exact h.tag_woken he
  · exact fun hu => ((h.lists w).mem_erase_iff he |>.mp hu).1 rfl
  · exact ((h.lists w).mem_erase_iff he).trans (and_iff_right hu.symm)
  · exact hw (h.apart w' w _ ht' ht)
  · exact h.tidy.touch _ fun _ _ _ _ => ⟨fun _ => ⟨rfl, rfl⟩, fun _ => rfl⟩

end Sleep

/-! ### What the operations answer -/

section Ready

variable [DecidableEq ρ]

theorem enqueue_of_not_free (r : ρ) (hg : s.table.tag t ≠ .ok .unqueued) :
    (s.enqueue r t).result = .ok (false, s) := by
  have hq := (s.ready r).enqueue_of_not_free hg
  rw [SharedTable.enqueue, Logged.bind_of_ok _ hq]
  simp

theorem Accounts.enqueue (h : Accounts L s lines naps) (r : ρ)
    (hg : s.table.tag t = .ok .unqueued) :
    ∃ s', (s.enqueue r t).result = .ok (true, s') ∧
      Accounts L s' (Function.update lines r (lines r ++ [t])) naps := by
  have hq := ReadyQueue.enqueue_ofList (h.linedUp r) hg
  rw [← h.queue r] at hq
  exact ⟨_, by rw [SharedTable.enqueue, hq]; rfl, h.joined r hg⟩

theorem Accounts.dequeue_nil (h : Accounts L s lines naps) (hl : lines r = []) :
    (s.dequeue r).result = .ok (none, s) := by
  have hhead : (s.ready r).head = none := by rw [h.queue r, hl]; rfl
  simp [SharedTable.dequeue, ReadyQueue.dequeue_of_empty _ hhead]

/-- Who leaves a ready queue is free. -/
theorem Accounts.dequeue_cons (h : Accounts L s lines naps) {l : List ThreadId}
    (hl : lines r = t :: l) :
    ∃ s', (s.dequeue r).result = .ok (some t, s') ∧
      Accounts L s' (Function.update lines r l) naps ∧ s'.table.tag t = .ok .unqueued := by
  have hline := h.linedUp r
  rw [hl] at hline
  have hq := ReadyQueue.dequeue_ofList hline
  rw [← hl, ← h.queue r] at hq
  refine ⟨_, by rw [SharedTable.dequeue, hq]; rfl, h.closed (x := []) hl, ?_⟩
  have hg := hline.tag (t := t) (by simp)
  exact (ThreadTable.tag_closed hg t).trans (if_pos rfl)

theorem Accounts.remove_of_notMem (h : Accounts L s lines naps) (ht : t ∉ lines r) :
    (s.remove r t).result = .ok (false, s) := by
  have hqueued : (s.ready r).isQueued s.table t = false := by
    rw [Bool.eq_false_iff]
    intro e
    rw [h.queue r] at e
    exact ht (h.mem_line_iff.mpr (ThreadTable.hasTag_iff.mp e))
  simp [SharedTable.remove, ReadyQueue.remove_of_not_isQueued hqueued]

theorem Accounts.remove_of_mem (h : Accounts L s lines naps) (ht : t ∈ lines r) :
    ∃ s', (s.remove r t).result = .ok (true, s') ∧
      Accounts L s' (Function.update lines r ((lines r).erase t)) naps ∧
      s'.table.tag t = .ok .unqueued := by
  obtain ⟨x, y, -, hl, herase⟩ := List.exists_erase_eq ht
  have hline := h.linedUp r
  rw [hl] at hline
  have hq := ReadyQueue.remove_ofList hline
  rw [← hl, ← h.queue r] at hq
  rw [herase]
  refine ⟨_, by rw [SharedTable.remove, hq]; rfl, h.closed hl, ?_⟩
  have hg := hline.tag (t := t) (by simp)
  exact (ThreadTable.tag_closed hg t).trans (if_pos rfl)

end Ready

section Sleep

variable [DecidableEq σ]

theorem Accounts.insert (h : Accounts L s lines naps) (w : σ) (deadline : Nat)
    (hg : s.table.tag t = .ok .unqueued) (hroom : (naps w).length < L.room w) :
    ∃ s', (s.insert w deadline t).result = .ok (.ok (), s') ∧ Accounts L s' lines
      (Function.update naps w (naps w ++ [⟨deadline, t, (s.sleep w).nextSeq⟩])) := by
  rw [← h.room w] at hroom
  have hq := SleepQueue.insert_of_tag (h.lists w) deadline hg hroom
  exact ⟨_, by rw [SharedTable.insert, hq]; rfl, h.slept w deadline hg hroom⟩

theorem Accounts.insert_refused (h : Accounts L s lines naps) (w : σ) (deadline : Nat)
    (hbusy : ¬ (s.table.tag t = .ok .unqueued ∧ (naps w).length < L.room w)) :
    ∃ refusal, (s.insert w deadline t).result = .ok (.error refusal, s) := by
  rw [← h.room w] at hbusy
  obtain ⟨refusal, hq⟩ := SleepQueue.insert_eq_error (h.lists w) deadline hbusy
  exact ⟨refusal, by simp [SharedTable.insert, hq]⟩

theorem Accounts.expire_none (h : Accounts L s lines naps) {deadline : Nat}
    (hnone : (naps w).find? (·.deadline == deadline) = none) :
    (s.expire w deadline).result = .ok (none, s) := by
  simp [SharedTable.expire, (h.lists w).remove_none hnone]

theorem Accounts.expire_some (h : Accounts L s lines naps) {deadline : Nat} {e : Sleeper}
    (he : (naps w).find? (·.deadline == deadline) = some e) :
    ∃ s', (s.expire w deadline).result = .ok (some e.thread, s') ∧
      Accounts L s' lines (Function.update naps w ((naps w).erase e)) ∧
      s'.table.tag e.thread = .ok .unqueued := by
  have hmem := List.mem_of_find?_eq_some he
  obtain ⟨i, hi, hq⟩ := (h.lists w).remove_some he (h.asleep w _ (List.mem_map_of_mem hmem))
  exact ⟨_, by rw [SharedTable.expire, hq]; rfl, h.woken hi, h.tag_woken hmem⟩

theorem Accounts.removeThread_none (h : Accounts L s lines naps)
    (hnone : (naps w).find? (·.thread == t) = none) :
    (s.removeThread w t).result = .ok (none, s) := by
  simp [SharedTable.removeThread, (h.lists w).removeThread_none hnone]

theorem Accounts.removeThread_some (h : Accounts L s lines naps) {e : Sleeper}
    (he : (naps w).find? (·.thread == t) = some e) :
    ∃ s', (s.removeThread w t).result = .ok (some e.deadline, s') ∧
      Accounts L s' lines (Function.update naps w ((naps w).erase e)) ∧
      s'.table.tag t = .ok .unqueued := by
  have hmem := List.mem_of_find?_eq_some he
  obtain rfl : e.thread = t := by simpa using List.find?_some he
  obtain ⟨i, hi, hq⟩ := (h.lists w).removeThread_some he (h.asleep w _ (List.mem_map_of_mem hmem))
  exact ⟨_, by rw [SharedTable.removeThread, hq]; rfl, h.woken hi, h.tag_woken hmem⟩

end Sleep

/-! ### Steps and runs -/

section Run

variable [DecidableEq ρ] [DecidableEq σ]

/-- The operation does not fail, and afterwards the accounts are in order and the queues that it
is not about hold what they held. -/
def KeepsAccounts (L : Layout ρ σ) (s : SharedTable ρ σ) (lines : ρ → List ThreadId)
    (naps : σ → List Sleeper) (op : Operation ρ σ) : Prop :=
  ∃ s' lines' naps', (s.step op).result = .ok s' ∧ Accounts L s' lines' naps' ∧
    (∀ r, op.ready? ≠ some r → lines' r = lines r) ∧
    ∀ w, op.sleep? ≠ some w → naps' w = naps w

variable {op : Operation ρ σ}

theorem KeepsAccounts.same (hs : (s.step op).result = .ok s') (h : Accounts L s' lines naps) :
    KeepsAccounts L s lines naps op :=
  ⟨s', lines, naps, hs, h, fun _ _ => rfl, fun _ _ => rfl⟩

theorem KeepsAccounts.ready {l : List ThreadId} (hop : op.ready? = some r)
    (hs : (s.step op).result = .ok s') (h : Accounts L s' (Function.update lines r l) naps) :
    KeepsAccounts L s lines naps op := by
  refine ⟨s', _, naps, hs, h, fun r' hr => ?_, fun _ _ => rfl⟩
  rw [Function.update_of_ne]
  rintro rfl
  exact hr hop

theorem KeepsAccounts.sleep {l : List Sleeper} (hop : op.sleep? = some w)
    (hs : (s.step op).result = .ok s') (h : Accounts L s' lines (Function.update naps w l)) :
    KeepsAccounts L s lines naps op := by
  refine ⟨s', lines, _, hs, h, fun _ _ => rfl, fun w' hw => ?_⟩
  rw [Function.update_of_ne]
  rintro rfl
  exact hw hop

theorem Accounts.step (h : Accounts L s lines naps) (op : Operation ρ σ) :
    KeepsAccounts L s lines naps op := by
  cases op with
  | register context => exact .same rfl (h.register context)
  | release t => exact .same rfl (h.release t)
  | setContext t context =>
    cases ht : s.table.setContext t context with
    | error refusal =>
      exact .same (by simp [SharedTable.step, SharedTable.setContext, ht, bind, Except.bind]) h
    | ok table =>
      exact .same (by simp [SharedTable.step, SharedTable.setContext, ht, bind, Except.bind]; rfl)
        (h.setContext ht)
  | enqueue r t =>
    by_cases hg : s.table.tag t = .ok .unqueued
    · obtain ⟨s', hs, h'⟩ := h.enqueue r hg
      exact .ready rfl (Logged.result_bind_eq_ok.mpr ⟨_, hs, rfl⟩) h'
    · exact .same (Logged.result_bind_eq_ok.mpr ⟨_, enqueue_of_not_free r hg, rfl⟩) h
  | dequeue r =>
    cases hl : lines r with
    | nil => exact .same (Logged.result_bind_eq_ok.mpr ⟨_, h.dequeue_nil hl, rfl⟩) h
    | cons t l =>
      obtain ⟨s', hs, h', -⟩ := h.dequeue_cons hl
      exact .ready rfl (Logged.result_bind_eq_ok.mpr ⟨_, hs, rfl⟩) h'
  | remove r t =>
    by_cases ht : t ∈ lines r
    · obtain ⟨s', hs, h', -⟩ := h.remove_of_mem ht
      exact .ready rfl (Logged.result_bind_eq_ok.mpr ⟨_, hs, rfl⟩) h'
    · exact .same (Logged.result_bind_eq_ok.mpr ⟨_, h.remove_of_notMem ht, rfl⟩) h
  | insert w deadline t =>
    by_cases hfree : s.table.tag t = .ok .unqueued ∧ (naps w).length < L.room w
    · obtain ⟨s', hs, h'⟩ := h.insert w deadline hfree.1 hfree.2
      exact .sleep rfl (Logged.result_bind_eq_ok.mpr ⟨_, hs, rfl⟩) h'
    · obtain ⟨refusal, hs⟩ := h.insert_refused w deadline hfree
      exact .same (Logged.result_bind_eq_ok.mpr ⟨_, hs, rfl⟩) h
  | expire w deadline =>
    cases he : (naps w).find? (·.deadline == deadline) with
    | none => exact .same (Logged.result_bind_eq_ok.mpr ⟨_, h.expire_none he, rfl⟩) h
    | some e =>
      obtain ⟨s', hs, h', -⟩ := h.expire_some he
      exact .sleep rfl (Logged.result_bind_eq_ok.mpr ⟨_, hs, rfl⟩) h'
  | removeThread w t =>
    cases he : (naps w).find? (·.thread == t) with
    | none => exact .same (Logged.result_bind_eq_ok.mpr ⟨_, h.removeThread_none he, rfl⟩) h
    | some e =>
      obtain ⟨s', hs, h', -⟩ := h.removeThread_some he
      exact .sleep rfl (Logged.result_bind_eq_ok.mpr ⟨_, hs, rfl⟩) h'

theorem Accounts.run : ∀ (ops : List (Operation ρ σ)) {s : SharedTable ρ σ}
    {lines : ρ → List ThreadId} {naps : σ → List Sleeper}, Accounts L s lines naps →
    ∃ s' lines' naps', (s.run ops).result = .ok s' ∧ Accounts L s' lines' naps'
  | [], s, lines, naps, h => ⟨s, lines, naps, rfl, h⟩
  | op :: ops, s, lines, naps, h => by
    obtain ⟨s₁, lines₁, naps₁, hs₁, h₁, -⟩ := h.step op
    obtain ⟨s', lines', naps', hs', h'⟩ := Accounts.run ops h₁
    exact ⟨s', lines', naps', Logged.result_bind_eq_ok.mpr ⟨s₁, hs₁, hs'⟩, h'⟩

end Run

end SharedTable

/-- Whatever is done to empty queues, the accounts are in order. -/
theorem Layout.exists_accounts {ρ σ : Type} [DecidableEq ρ] [DecidableEq σ] (L : Layout ρ σ)
    (ops : List (Operation ρ σ)) :
    ∃ s lines naps, (L.fresh.run ops).result = .ok s ∧ SharedTable.Accounts L s lines naps :=
  SharedTable.Accounts.run ops (.fresh L)

end PulseKernel
