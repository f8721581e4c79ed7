/-
# Saved contexts

The saved context of a thread stands in its slot, beside the tag and the links that
every queue operation rewrites. None of them touches it: from the registration of a
thread to its release its saved context changes only with the switches out of it, by a
word each time. So it can be read off the trace (`Saved`), and at every switch the
trace shows exactly the contexts that the two threads have then
(`Journey.saved_contexts`).

What an event makes of a saved context is a function (`Event.carry`). A step of the
scheduler makes of the table what the events it leaves on the trace make of each
context (`Scheduler.Effect.context?_eq`), and so does a switch.

Key definitions: `ThreadTable.context?`, `Event.carry`, `Saved`.
Key theorems: `Scheduler.Effect.context?_eq`, `Machine.Goes.context?_eq`,
`foldl_carry_eq_some_iff`, `Journey.saved_contexts`.
-/
import PulseKernel.Proofs.HardwareTrace

namespace PulseKernel

/-! ### The contexts in the table -/

namespace ThreadTable

variable {table table' : ThreadTable} {t u : ThreadId} {c : SavedContext}

/-- The saved context of a thread, if it is registered. -/
def context? (table : ThreadTable) (t : ThreadId) : Option SavedContext :=
  (table.context t).toOption

theorem context?_eq_some_iff : table.context? t = some c ↔ table.context t = .ok c := by
  unfold context?
  cases table.context t <;> simp [Except.toOption]

theorem context?_eq (table : ThreadTable) (t : ThreadId) :
    table.context? t = ((table.slot? t).filter (·.inUse)).map (·.context) := by
  unfold context? context slot slot?
  cases table.slots[t.index]? with
  | none => rfl
  | some s => cases h : s.inUse <;> simp [h, Except.map, Except.toOption]

theorem context?_of_contains (h : table.contains t = true) :
    table.context? t = some (table.saved t) :=
  context?_eq_some_iff.mpr (context_of_contains h)

theorem contains_of_context? (h : table.context? t = some c) : table.contains t = true :=
  context_eq_ok_iff.mp ⟨c, context?_eq_some_iff.mp h⟩

/-- A change of a slot that keeps its context and takes it neither in nor out of use keeps all
contexts. -/
theorem context?_touch (table : ThreadTable) (who : Option ThreadId) {f : Slot → Slot}
    (hused : ∀ s, (f s).inUse = s.inUse) (hcontext : ∀ s, (f s).context = s.context)
    (u : ThreadId) : (table.touch who f).context? u = table.context? u := by
  rw [context?_eq, context?_eq, slot?_touch]
  split
  · cases table.slot? u with
    | none => rfl
    | some s => cases h : s.inUse <;> simp [Option.filter, hused, hcontext, h]
  · rfl

theorem context?_freed (table : ThreadTable) (ts : List ThreadId) (u : ThreadId) :
    (table.freed ts).context? u = table.context? u := by
  induction ts generalizing table with
  | nil => rfl
  | cons t ts ih =>
    rw [freed_cons, ih]
    exact context?_touch table (some t) (f := Slot.unlinked) (fun _ => rfl) (fun _ => rfl) u

theorem context?_register (h : table.register c = (.ok t, table')) (u : ThreadId) :
    table'.context? u = if t = u then some c else table.context? u := by
  obtain ⟨⟨s, hs, -⟩, rfl⟩ := register_eq_ok h
  rw [context?_eq, slot?_setLive, slot?_touch]
  by_cases htu : t = u
  · subst htu
    simp [hs]
  · simp [htu, context?_eq]

theorem context?_release (h : table.release t = (.ok (), table')) (u : ThreadId) :
    table'.context? u = if t = u then none else table.context? u := by
  obtain ⟨-, rfl⟩ := release_eq_ok.mp h
  rw [context?_eq, slot?_setLive, slot?_touch]
  by_cases htu : t = u
  · subst htu
    cases table.slot? t <;> simp [Slot.vacant]
  · simp [htu, context?_eq]

/-- A switch moves the context of the thread that it goes out of, and no other. -/
theorem context?_switched {plan : SwitchPlan} (h : table.contains plan.source = true)
    (u : ThreadId) :
    (table.switched plan).context? u =
      if plan.source = u then (table.context? u).map MachineM.leftBehind else table.context? u := by
  rw [switched, context?_eq, slot?_touch]
  by_cases hu : plan.source = u
  · subst hu
    obtain ⟨g, hg⟩ := contains_iff.mp h
    obtain ⟨s, hs, hused, -⟩ := tag_eq_ok.mp hg
    have hcontext : table.context? plan.source = some s.context := by
      simp [context?_eq, hs, hused]
    have hsaved : table.saved plan.source = s.context :=
      Option.some.inj ((context?_of_contains h).symm.trans hcontext)
    rw [hcontext, hsaved]
    simp [hs, hused, Slot.withContext]
  · simp [hu, context?_eq]

end ThreadTable

/-! ### What events make of a context -/

namespace Event

/-- What the event makes of the saved context of a thread, if the thread had one. -/
def carry (t : ThreadId) (saved : Option SavedContext) : Event → Option SavedContext
  | .registered u context => if u = t then some context else saved
  | .released u => if u = t then none else saved
  | .switched plan _ _ => if plan.source = t then saved.map MachineM.leftBehind else saved
  | _ => saved

/-- Whether the slot of the thread was given out or taken back. -/
def renews (t : ThreadId) : Event → Bool
  | .registered u _ => u = t
  | .released u => u = t
  | _ => false

/-- Whether the processor was switched away from the thread. -/
def leaves (t : ThreadId) : Event → Bool
  | .switched plan _ _ => plan.source = t
  | _ => false

variable {e : Event} {t : ThreadId}

theorem carry_of_renews (h : e.renews t = true) {saved : Option SavedContext} {c : SavedContext} :
    e.carry t saved = some c ↔ e = .registered t c := by
  cases e <;> simp_all [renews, carry]

theorem carry_of_not_renews (h : e.renews t = false) (saved : Option SavedContext) :
    e.carry t saved = saved.map fun c => if e.leaves t then MachineM.leftBehind c else c := by
  cases e with
  | switched plan source target =>
    by_cases hplan : plan.source = t <;> simp [carry, leaves, hplan]
  | _ => simp_all [renews, carry, leaves]

theorem carry_of_isAside {e : Event} (h : e.isAside = true) (t : ThreadId)
    (saved : Option SavedContext) : e.carry t saved = saved := by
  cases e <;> first | rfl | cases h

end Event

theorem foldl_carry_of_isAside {events : List Event} (h : ∀ e ∈ events, e.isAside = true)
    (t : ThreadId) (saved : Option SavedContext) :
    events.foldl (Event.carry t) saved = saved := by
  induction events with
  | nil => rfl
  | cons e events ih =>
    obtain ⟨he, hrest⟩ := List.forall_mem_cons.mp h
    rw [List.foldl_cons, Event.carry_of_isAside he, ih hrest]

/-! ### Contexts read off a trace -/

/-- By these events the thread is registered, and its saved context is the one that it was
registered with, moved up by a word for every switch out of it since. -/
def Saved (events : List Event) (t : ThreadId) (c : SavedContext) : Prop :=
  ∃ before start since, events = before ++ .registered t start :: since ∧
    (∀ e ∈ since, e.renews t = false) ∧
    c.stackPointer.toNat =
      (start.stackPointer.toNat + 8 * since.countP (·.leaves t)) % UInt64.size

theorem SavedContext.ext_toNat {c c' : SavedContext}
    (h : c.stackPointer.toNat = c'.stackPointer.toNat) : c = c' := by
  cases c
  cases c'
  exact congrArg _ (UInt64.toNat_inj.mp h)

theorem toNat_leftBehind (c : SavedContext) :
    (MachineM.leftBehind c).stackPointer.toNat = (c.stackPointer.toNat + 8) % UInt64.size :=
  UInt64.toNat_add _ _

namespace Saved

variable {events : List Event} {e : Event} {t : ThreadId} {c start : SavedContext}

theorem not_nil : ¬ Saved [] t c := by
  rintro ⟨before, start, since, hevents, -⟩
  simp at hevents

/-- After an event that gives a slot to the thread or takes it back, what counts is this event. -/
theorem snoc_of_renews (he : e.renews t = true) :
    Saved (events ++ [e]) t c ↔ e = .registered t c := by
  constructor
  · rintro ⟨before, start, since, hevents, hsince, hc⟩
    rcases since.eq_nil_or_concat' with rfl | ⟨since, last, rfl⟩
    · obtain ⟨-, rfl⟩ := List.append_singleton_inj.mp hevents
      refine congrArg _ (SavedContext.ext_toNat ?_)
      rw [hc]
      exact (Nat.mod_eq_of_lt start.stackPointer.toNat_lt).symm
    · rw [← List.cons_append, ← List.append_assoc] at hevents
      obtain ⟨-, rfl⟩ := List.append_singleton_inj.mp hevents
      rw [hsince e (by simp)] at he
      cases he
  · rintro rfl
    exact ⟨events, c, [], rfl, by simp, (Nat.mod_eq_of_lt c.stackPointer.toNat_lt).symm⟩

/-- Any other event leaves the context alone, unless it is a switch out of the thread, which moves
it up by a word. -/
theorem snoc_of_not_renews (he : e.renews t = false) :
    Saved (events ++ [e]) t c ↔
      ∃ c₀, Saved events t c₀ ∧ (if e.leaves t then MachineM.leftBehind c₀ else c₀) = c := by
  constructor
  · rintro ⟨before, start, since, hevents, hsince, hc⟩
    rcases since.eq_nil_or_concat' with rfl | ⟨since, last, rfl⟩
    · obtain ⟨-, rfl⟩ := List.append_singleton_inj.mp hevents
      simp [Event.renews] at he
    · rw [← List.cons_append, ← List.append_assoc] at hevents
      obtain ⟨rfl, rfl⟩ := List.append_singleton_inj.mp hevents
      -- the context before the last event is the one that the events before it lead to
      let c₀ : SavedContext := ⟨start.stackPointer + UInt64.ofNat (8 * since.countP (·.leaves t))⟩
      have hc₀ : c₀.stackPointer.toNat =
          (start.stackPointer.toNat + 8 * since.countP (·.leaves t)) % UInt64.size := by
        show (start.stackPointer + _).toNat = _
        rw [UInt64.toNat_add, UInt64.toNat_ofNat', Nat.add_mod_mod]
      refine ⟨c₀, ⟨before, start, since, rfl, fun e' he' => hsince e' (by simp [he']), hc₀⟩, ?_⟩
      rw [Scheduler.countP_snoc] at hc
      refine SavedContext.ext_toNat ?_
      cases hleaves : e.leaves t with
      | false =>
        rw [hleaves, Bool.toNat_false, Nat.add_zero] at hc
        rw [if_neg Bool.false_ne_true, hc₀, hc]
      | true =>
        rw [hleaves, Bool.toNat_true] at hc
        rw [if_pos rfl, toNat_leftBehind, hc₀, hc, Nat.mod_add_mod, Nat.mul_succ, Nat.add_assoc]
  · rintro ⟨c₀, ⟨before, start, since, rfl, hsince, hc⟩, rfl⟩
    refine ⟨before, start, since ++ [e], by simp, ?_, ?_⟩
    · exact List.forall_mem_append.mpr ⟨hsince, by simpa using he⟩
    · rw [Scheduler.countP_snoc]
      cases e.leaves t with
      | false => exact hc
      | true =>
        rw [if_pos rfl, toNat_leftBehind, hc, Bool.toNat_true, Nat.mod_add_mod, Nat.mul_succ,
          Nat.add_assoc]

end Saved

/-- The context of a thread that the events lead to, from a table without threads, is the one that
is read off them. -/
theorem foldl_carry_eq_some_iff {events : List Event} {t : ThreadId} {c : SavedContext} :
    events.foldl (Event.carry t) none = some c ↔ Saved events t c := by
  induction events using List.reverseRecOn generalizing c with
  | nil => exact iff_of_false (by simp) Saved.not_nil
  | append_singleton events e ih =>
    rw [List.foldl_append, List.foldl_cons, List.foldl_nil]
    cases he : e.renews t with
    | true => rw [Saved.snoc_of_renews he, Event.carry_of_renews he]
    | false =>
      simp only [Saved.snoc_of_not_renews he, Event.carry_of_not_renews he,
        Option.map_eq_some_iff, ih]

/-! ### What steps and stages make of the contexts -/

section

variable {π : Type} [Policy π] {s s' : Scheduler π} {naps naps' : List Sleeper}
  {step : SchedulerStep} {answer : StepAnswer}

theorem SchedulerStep.remarks_of_idle (request : Request) {response : Response}
    (hidle : response.acts = false) :
    SchedulerStep.remarks (.call (.serve request)) (.served response) = [] := by
  unfold SchedulerStep.remarks
  split
  · rename_i heq
    cases heq
  · rename_i heq
    cases heq
    cases hidle
  · rename_i heq
    cases heq
    cases hidle
  · rfl

/-- A step makes of the saved contexts what is said about it on the trace. -/
theorem Scheduler.Effect.context?_eq (h : s.Effect naps step answer s' naps') (t : ThreadId) :
    s'.threads.context? t =
      (step.remarks answer).foldl (Event.carry t) (s.threads.context? t) := by
  cases h with
  | unchanged hidle => rw [SchedulerStep.remarks_of_idle _ hidle]; rfl
  | registered hroom => exact ThreadTable.context?_register hroom t
  | released hfree => exact ThreadTable.context?_release hfree t
  | woken | removed => exact ThreadTable.context?_freed _ _ t
  | dozed =>
    exact ThreadTable.context?_touch _ _ (f := Slot.dormant) (fun _ => rfl) (fun _ => rfl) t
  | pulse =>
    refine (ThreadTable.context?_freed _ _ t).trans ?_
    cases hempty : s.sleepers.isEmpty <;> simp [SchedulerStep.remarks, Event.carry]
  | early | refused | resumes | alone | handed => rfl

omit [Policy π] in
/-- What a switch puts on the trace says what it makes of the saved contexts. -/
theorem Scheduler.context?_switched {plan? : Option SwitchPlan}
    (h : ∀ plan, plan? = some plan → plan.Possible s.threads) (t : ThreadId) :
    (s.switched plan?).threads.context? t =
      (s.threads.handover plan?).foldl (Event.carry t)
        (s.threads.context? t) := by
  cases plan? with
  | none => rfl
  | some plan => exact ThreadTable.context?_switched (h plan rfl).source t

variable {m m' start : Machine π} {deed : Deed}

/-- The events of a stage. -/
def Machine.eventsSince {π : Type} (m start : Machine π) : List Event :=
  (m.entriesSince start).map (·.event)

theorem Machine.eventsSince_acted (m : Machine π) (step : SchedulerStep) (answer : StepAnswer)
    (s' : Scheduler π) :
    (m.acted step answer s').eventsSince m =
      .schedulerEntered :: (step.remarks answer ++ s'.threads.handover answer.plan?) := by
  rw [eventsSince, entriesSince_acted, List.map_map]
  exact List.map_id _

/-- Every stage makes of the saved contexts what it puts on the trace. -/
theorem Machine.Goes.context?_eq (h : m.Goes deed m') (hsound : m.Sound)
    (hservice : deed.isService = true) (t : ThreadId) :
    m'.scheduler.threads.context? t =
      (m'.eventsSince m).foldl (Event.carry t)
        (m.scheduler.threads.context? t) := by
  cases h with
  | acted hact hfits =>
    obtain ⟨s', L, naps, naps', htakes, rfl⟩ := hsound.of_act hact
    rw [eventsSince_acted, List.foldl_cons, List.foldl_append]
    show (s'.switched _).threads.context? t = _
    rw [Scheduler.context?_switched fun plan hplan => htakes.effect.possible hplan,
      htakes.effect.context?_eq]
    rfl
  | consulted => cases hservice
  | governed change =>
    rw [eventsSince, entriesSince_of_trace (Board.trace_noted m.board [.schedulerEntered])]
    rfl
  | aside hpasses =>
    obtain ⟨entries, htrace, haside⟩ := hpasses.trace
    rw [eventsSince, entriesSince_of_trace htrace, hpasses.scheduler,
      foldl_carry_of_isAside (by simpa using haside)]

theorem Journey.eventsSince {stages : List (Stage π)} {m₁ m₂ : Machine π}
    (h : Journey start stages m₁) (hsound : start.Sound) (hgoes : m₁.Goes deed m₂) :
    m₂.eventsSince start = m₁.eventsSince start ++ m₂.eventsSince m₁ := by
  rw [Machine.eventsSince, (h.stage hgoes).entriesSince hsound, List.flatMap_append,
    List.flatMap_singleton, ← h.entriesSince hsound, List.map_append]
  rfl

/-- The saved contexts at the end of a run are what its trace makes of those at its start. -/
theorem Journey.context?_eq {stages : List (Stage π)} (h : Journey start stages m)
    (hsound : start.Sound) (hservice : ∀ c ∈ stages, c.deed.isService = true) (t : ThreadId) :
    m.scheduler.threads.context? t =
      (m.eventsSince start).foldl (Event.carry t)
        (start.scheduler.threads.context? t) := by
  induction h with
  | start => simp [Machine.eventsSince, Machine.entriesSince]
  | stage hjourney hgoes ih =>
    obtain ⟨hpast, hlast⟩ := List.forall_mem_append.mp hservice
    rw [hgoes.context?_eq (hjourney.sound hsound) (hlast _ List.mem_cons_self), ih hpast,
      hjourney.eventsSince hsound hgoes, List.foldl_append]

/-! ### What the trace shows at a switch -/

/-- An element of two lists, one behind the other, stands in the first or in the second. -/
theorem append_eq_append_cons {α : Type} {l r before after : List α} {a : α}
    (h : l ++ r = before ++ a :: after) :
    (∃ rest, l = before ++ a :: rest) ∨ ∃ rest, before = l ++ rest ∧ r = rest ++ a :: after := by
  rcases List.append_eq_append_iff.mp h with ⟨rest, hbefore, hr⟩ | ⟨rest, hl, hrest⟩
  · exact Or.inr ⟨rest, hbefore, hr⟩
  · cases rest with
    | nil => exact Or.inr ⟨[], by simpa using hl.symm, hrest.symm⟩
    | cons b rest =>
      obtain ⟨rfl, -⟩ := List.cons.inj hrest
      exact Or.inl ⟨rest, hl⟩

variable {plan : SwitchPlan} {source target : SavedContext} {before after : List Event}

/-- The contexts on the trace are those that the events before lead to, for two different
threads. -/
structure Reports (contexts : ThreadId → Option SavedContext) (before : List Event)
    (plan : SwitchPlan) (source target : SavedContext) : Prop where
  differs : plan.source ≠ plan.target
  source : before.foldl (Event.carry plan.source) (contexts plan.source) = some source
  target : before.foldl (Event.carry plan.target) (contexts plan.target) = some target

theorem SchedulerStep.switched_notMem_remarks (step : SchedulerStep) (answer : StepAnswer) :
    .switched plan source target ∉ step.remarks answer := by
  intro hmem
  cases List.filterMap_eq_nil_iff.mp (filterMap_plan?_remarks step answer) _ hmem

/-- A switch that was handed over is the one that was planned. -/
theorem ThreadTable.of_handover {table : ThreadTable} {plan? : Option SwitchPlan}
    (h : table.handover plan? = before ++ .switched plan source target :: after) :
    before = [] ∧ plan? = some plan ∧
      table.saved plan.source = source ∧ table.saved plan.target = target := by
  cases plan? with
  | none => simp [handover] at h
  | some plan' =>
    cases before with
    | nil =>
      obtain ⟨rfl, rfl, rfl⟩ := Event.switched.inj (List.cons.inj h).1
      exact ⟨rfl, rfl, rfl, rfl⟩
    | cons e before => simp [handover] at h

/-- A stage makes at most one switch, at its end, and reports the contexts that the threads have
then. -/
theorem Machine.Goes.reports (h : m.Goes deed m') (hsound : m.Sound)
    (hservice : deed.isService = true)
    (hevents : m'.eventsSince m = before ++ .switched plan source target :: after) :
    Reports m.scheduler.threads.context? before plan source target := by
  have hmem : .switched plan source target ∈ m'.eventsSince m := by simp [hevents]
  cases h with
  | @acted step answer m' hact hfits =>
    obtain ⟨s', L, naps, naps', htakes, rfl⟩ := hsound.of_act hact
    rw [eventsSince_acted, ← List.cons_append] at hevents
    rcases append_eq_append_cons hevents with ⟨rest, hremarks⟩ | ⟨rest, rfl, hhandover⟩
    · have hremark :
          .switched plan source target ∈ Event.schedulerEntered :: step.remarks answer := by
        simp [hremarks]
      simp [step.switched_notMem_remarks] at hremark
    · obtain ⟨rfl, hplan, rfl, rfl⟩ := ThreadTable.of_handover hhandover
      obtain ⟨hdiffers, hsource, htarget⟩ := htakes.effect.possible hplan
      rw [List.append_nil]
      exact ⟨hdiffers,
        (htakes.effect.context?_eq _).symm.trans (ThreadTable.context?_of_contains hsource),
        (htakes.effect.context?_eq _).symm.trans (ThreadTable.context?_of_contains htarget)⟩
  | consulted => cases hservice
  | governed change =>
    rw [eventsSince, entriesSince_of_trace (Board.trace_noted m.board [.schedulerEntered])] at hmem
    simp [Board.entry] at hmem
  | aside hpasses =>
    obtain ⟨entries, htrace, haside⟩ := hpasses.trace
    rw [eventsSince, entriesSince_of_trace htrace] at hmem
    obtain ⟨e, he, heq⟩ := List.mem_map.mp hmem
    have hevent := haside e he
    rw [heq] at hevent
    cases hevent

/-- Every switch of a run reports the contexts that the events before it lead to. -/
theorem Journey.reports {stages : List (Stage π)} (h : Journey start stages m)
    (hsound : start.Sound) (hservice : ∀ c ∈ stages, c.deed.isService = true)
    (hevents : m.eventsSince start = before ++ .switched plan source target :: after) :
    Reports start.scheduler.threads.context? before plan source target := by
  induction h generalizing before after with
  | start => simp [Machine.eventsSince, Machine.entriesSince] at hevents
  | stage hjourney hgoes ih =>
    obtain ⟨hpast, hlast⟩ := List.forall_mem_append.mp hservice
    rw [hjourney.eventsSince hsound hgoes] at hevents
    -- the switch was made in the last stage, or before it
    rcases append_eq_append_cons hevents with ⟨rest, hbefore⟩ | ⟨rest, rfl, hstage⟩
    · exact ih hpast hbefore
    · obtain ⟨hdiffers, hsource, htarget⟩ :=
        hgoes.reports (hjourney.sound hsound) (hlast _ List.mem_cons_self) hstage
      rw [hjourney.context?_eq hsound hpast] at hsource htarget
      exact ⟨hdiffers, by rw [List.foldl_append, hsource], by rw [List.foldl_append, htarget]⟩

/-! ### The contexts of a run -/

/-- A step leaves the contexts of the registered threads alone, but for a thread that it
releases. -/
theorem Scheduler.Effect.context?_of_registered (h : s.Effect naps step answer s' naps')
    {t : ThreadId} {c : SavedContext} (hc : s.threads.context? t = some c)
    (hkept : step = .call (.serve (.release t)) → answer ≠ .served (.released (.ok ()))) :
    s'.threads.context? t = some c := by
  rw [h.context?_eq, ← hc]
  cases h with
  | registered hroom =>
    rename_i u threads
    have hnew : u ≠ t := by
      rintro rfl
      have hvacant := (ThreadTable.tag_register hroom u).1
      rw [ThreadTable.contains_of_context? hc] at hvacant
      cases hvacant
    simp [SchedulerStep.remarks, Event.carry, hnew]
  | released hfree =>
    rename_i u threads
    have hother : u ≠ t := by
      rintro rfl
      exact hkept rfl rfl
    simp [SchedulerStep.remarks, Event.carry, hother]
  | unchanged hidle => rw [SchedulerStep.remarks_of_idle _ hidle]; rfl
  | pulse => cases hempty : s.sleepers.isEmpty <;> simp [SchedulerStep.remarks, Event.carry]
  | woken | removed | dozed | early | refused | resumes | alone | handed => rfl

omit [Policy π] in
theorem Machine.context?_of_boot {settings : Settings} {policy : π} {handoff : QueueId}
    {board : Board} (hboot : boot settings policy handoff board = .ok start) (t : ThreadId) :
    start.scheduler.threads.context? t = none := by
  rw [(boot_eq_ok hboot).2, ThreadTable.context?_eq]
  cases hs : (Scheduler.ofSettings settings policy handoff).threads.slot? t with
  | none => rfl
  | some slot =>
    obtain rfl := ThreadTable.slot?_ofCapacity hs
    rfl

/-- A thread that a request has registered has the context that it was registered with. -/
theorem Machine.Sound.context_of_registered (hsound : m.Sound) {context : SavedContext}
    {t : ThreadId}
    (h : MachineM.request (.register context) m = (.ok (.registered (.ok t)), m')) :
    m'.scheduler.threads.context t = .ok context := by
  obtain ⟨between, hrespond, rfl⟩ := MachineM.masked_eq_ok h
  obtain ⟨response, between', hrespond', hgoes⟩ := MachineM.goes_of_act
    (MachineM.act_serve (.register context)) ((Passes.guarded m).sound hsound) trivial
  obtain ⟨hresponse, rfl⟩ := Prod.mk.inj (hrespond'.symm.trans hrespond)
  obtain rfl := Except.ok.inj hresponse
  obtain ⟨hact, -⟩ := hgoes
  obtain ⟨s', L, naps, naps', htakes, rfl⟩ := ((Passes.guarded m).sound hsound).of_act hact
  refine ThreadTable.context?_eq_some_iff.mp ((htakes.effect.context?_eq t).trans ?_)
  simp [SchedulerStep.remarks, Event.carry]

/-- In every run since boot the saved context of a registered thread is the one that it was
registered with, moved up by a word for every switch out of it since; every switch is between two
different registered threads and shows the contexts that they have then; and no step changes the
context of a registered thread, unless it is released. -/
theorem Journey.saved_contexts {settings : Settings} {policy : π} {handoff : QueueId}
    {board : Board} (hboot : Machine.boot settings policy handoff board = .ok start)
    {stages : List (Stage π)} (h : Journey start stages m)
    (hservice : ∀ c ∈ stages, c.deed.isService = true) :
    (∀ t c, m.scheduler.threads.context t = .ok c ↔ Saved (m.eventsSince start) t c) ∧
    (∀ before plan source target after,
      m.eventsSince start = before ++ .switched plan source target :: after →
      plan.source ≠ plan.target ∧ Saved before plan.source source ∧
        Saved before plan.target target) ∧
    (∀ context t m', MachineM.request (.register context) m = (.ok (.registered (.ok t)), m') →
      m'.scheduler.threads.context t = .ok context) ∧
    (∀ step answer s' t c, (m.scheduler.take step).result = .ok (answer, s') →
      m.scheduler.threads.context t = .ok c →
      (step = .call (.serve (.release t)) → answer ≠ .served (.released (.ok ()))) →
      s'.threads.context t = .ok c) ∧
    ∀ actions, ∃ later, Journey start (stages ++ later) (m.performAll actions) ∧
      ∀ c ∈ stages ++ later, c.deed.isService = true := by
  have hstart := Machine.sound_boot hboot
  have hsound := h.sound hstart
  have hnone := Machine.context?_of_boot hboot
  refine ⟨fun t c => ?_, fun before plan source target after hevents => ?_,
    fun context t m' => hsound.context_of_registered, fun step answer s' t c htake hc hkept => ?_,
    fun actions => ?_⟩
  · rw [← ThreadTable.context?_eq_some_iff, h.context?_eq hstart hservice, hnone]
    exact foldl_carry_eq_some_iff
  · obtain ⟨hdiffers, hsource, htarget⟩ := h.reports hstart hservice hevents
    rw [hnone] at hsource htarget
    exact ⟨hdiffers, foldl_carry_eq_some_iff.mp hsource, foldl_carry_eq_some_iff.mp htarget⟩
  · obtain ⟨L, naps, naps', htakes⟩ := (hsound.takes step).of_result htake
    exact ThreadTable.context?_eq_some_iff.mp (htakes.effect.context?_of_registered
      (ThreadTable.context?_eq_some_iff.mpr hc) hkept)
  · exact h.performAll hsound hservice actions

end

/-- Two switches out of the first thread and one out of the second. The stack pointer of the first
was near its end, and went on from the beginning. -/
theorem Journey.saved_contexts_three_switches :
    ∃ (start m : Machine Fifo) (stages : List (Stage Fifo)),
      Machine.boot { maxThreads := 2, quantum := 1 } ⟨[⟨1⟩], ⟨0⟩⟩ ⟨1⟩ {} = .ok start ∧
      Journey start stages m ∧ (∀ c ∈ stages, c.deed.isService = true) ∧
      m.scheduler.threads.context ⟨0⟩ = .ok ⟨8⟩ ∧ Saved (m.eventsSince start) ⟨0⟩ ⟨8⟩ ∧
      m.scheduler.threads.context ⟨1⟩ = .ok ⟨108⟩ ∧ Saved (m.eventsSince start) ⟨1⟩ ⟨108⟩ := by
  let actions : List (Action Fifo) := [.request (.register ⟨0xFFFFFFFFFFFFFFF8⟩),
    .request (.register ⟨100⟩), .sleepUntil 9 [], .sleepUntil 20
      [[.changeBoard (.clock 9), .pulses 1], [.changeBoard (.clock 20), .pulses 1]]]
  obtain ⟨start, hboot, hcontexts⟩ := Machine.exists_boot
    { maxThreads := 2, quantum := 1 } (⟨[⟨1⟩], ⟨0⟩⟩ : Fifo) ⟨1⟩ {}
    (f := fun m => ((m.performAll actions).scheduler.threads.context? ⟨0⟩,
      (m.performAll actions).scheduler.threads.context? ⟨1⟩))
    (a := (some ⟨8⟩, some ⟨108⟩)) (by decide +kernel)
  obtain ⟨hfirst, hsecond⟩ := Prod.mk.inj hcontexts
  rw [ThreadTable.context?_eq_some_iff] at hfirst hsecond
  obtain ⟨stages, hjourney, hservice⟩ :=
    Machine.serves_performAll actions (Machine.sound_boot hboot)
  obtain ⟨hsaved, -⟩ := hjourney.saved_contexts hboot hservice
  exact ⟨start, _, stages, hboot, hjourney, hservice, hfirst, (hsaved _ _).mp hfirst, hsecond,
    (hsaved _ _).mp hsecond⟩

end PulseKernel
