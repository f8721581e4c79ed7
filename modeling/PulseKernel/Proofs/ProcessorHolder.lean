/-
# Who holds the processor

The policy names the thread that runs, and the processor runs the target of the last
switch that was planned. With a line as the policy the two agree, call after call, as
long as no thread is released that the line knows: the running one, or one that
stands in it (`Scheduler.Run.agrees`).

A release looks only at the table, and whom a policy knows is not written there. So
the thread behind the running one can be released; when it is picked, no switch to it
can be planned, and from then on the policy and the processor differ
(`Scheduler.run_disagrees`).

Key definitions: `Scheduler.dispatch`, `Scheduler.Run`, `Scheduler.Spares`,
`Scheduler.changeOver`, `Scheduler.Known`, `Fifo.KnownIn`.
Key theorems: `Scheduler.Known.dispatch`, `Scheduler.Run.agrees`.
-/
import PulseKernel.Proofs.CallEffect

namespace PulseKernel

namespace Fifo

variable {p : Fifo} {table : ThreadTable}

/-- The thread that runs and those in line are registered. -/
def KnownIn (p : Fifo) (table : ThreadTable) : Prop :=
  ∀ t ∈ p.running :: p.ready, table.contains t = true

instance (p : Fifo) (table : ThreadTable) : Decidable (p.KnownIn table) :=
  inferInstanceAs (Decidable (∀ t ∈ p.running :: p.ready, table.contains t = true))

/-- Whoever the line knows after its first thread has got the processor it knew before. -/
theorem mem_of_mem_advance {t : ThreadId} (ht : t ∈ p.advance.running :: p.advance.ready) :
    t ∈ p.running :: p.ready := by
  obtain ⟨ready, running⟩ := p
  cases ready with
  | nil => exact ht
  | cons first rest => exact List.mem_cons_of_mem _ ht

theorem mem_of_mem_turned {awake : ThreadId → Bool} {t : ThreadId}
    (ht : t ∈ (p.turned awake).running :: (p.turned awake).ready) : t ∈ p.running :: p.ready := by
  unfold Fifo.turned at ht
  have ht' := mem_of_mem_advance ht
  split at ht'
  · simp only [Fifo.push, List.mem_cons, List.mem_append, List.not_mem_nil, or_false] at ht' ⊢
    tauto
  · exact ht'

namespace KnownIn

theorem congr (h : p.KnownIn table) {table' : ThreadTable}
    (htable : ∀ t ∈ p.running :: p.ready, table'.contains t = table.contains t) :
    p.KnownIn table' :=
  fun t ht => (htable t ht).trans (h t ht)

theorem advance (h : p.KnownIn table) : p.advance.KnownIn table :=
  fun t ht => h t (mem_of_mem_advance ht)

theorem turned (h : p.KnownIn table) (awake : ThreadId → Bool) : (p.turned awake).KnownIn table :=
  fun t ht => h t (mem_of_mem_turned ht)

theorem joinedBy (h : p.KnownIn table) {woken : List ThreadId}
    (hwoken : ∀ t ∈ woken, table.contains t = true) : (p.joinedBy woken).KnownIn table := by
  intro t ht
  rcases List.mem_cons.mp ht with rfl | ht
  · exact h _ List.mem_cons_self
  · rcases List.mem_append.mp ht with ht | ht
    · exact h t (List.mem_cons_of_mem _ ht)
    · exact hwoken t (List.mem_of_mem_filter ht)

/-- Between two threads that the line knows a switch can be planned. -/
theorem plan?_eq (h : p.KnownIn table) {next : ThreadId} (hnext : next ∈ p.running :: p.ready) :
    SwitchPlan.plan? table p.running next =
      if next = p.running then none else some ⟨p.running, next⟩ := by
  have hsource := h p.running List.mem_cons_self
  have htarget := h next hnext
  by_cases hsame : next = p.running
  · simp [SwitchPlan.plan?, hsame]
  · simp [SwitchPlan.plan?, hsame, Ne.symm hsame, hsource, htarget]

end KnownIn
end Fifo

namespace Scheduler

/-- A call, with the switch that it plans. -/
def dispatch {π : Type} [Policy π] (s : Scheduler π) :
    SchedulerCall → Logged (Option SwitchPlan × Scheduler π)
  | .serve request => do
    let (_, s) ← s.serve request
    return (none, s)
  | .beginSleep deadline => do
    let (outcome, s) ← s.beginSleep deadline
    return (outcome.toOption.bind (·.plan), s)
  | .tick now booted => do
    let (outcome, s) ← s.tick now booted
    return (outcome.plan, s)

/-- The call releases no thread that the line knows. -/
def Spares (s : Scheduler Fifo) : SchedulerCall → Prop
  | .serve (.release t) =>
    (∃ threads, s.threads.release t = (.ok (), threads)) → t ∉ s.policy.running :: s.policy.ready
  | _ => True

/-- The thread on the processor and the scheduler, after calls that are allowed. A thread comes onto
the processor when a switch to it is planned. -/
inductive Run (allowed : Scheduler Fifo → SchedulerCall → Prop) (start : Scheduler Fifo) :
    ThreadId → Scheduler Fifo → Prop where
  | start : Run allowed start start.policy.running start
  | call {t : ThreadId} {s s' : Scheduler Fifo} {plan : Option SwitchPlan} (c : SchedulerCall) :
      Run allowed start t s → allowed s c → (s.dispatch c).result = .ok (plan, s') →
      Run allowed start (plan.elim t (·.target)) s'

/-- The switch that is due when another thread has become the policy's current one. -/
def changeOver (s s' : Scheduler Fifo) : Option SwitchPlan :=
  if s'.policy.running = s.policy.running then none
  else some ⟨s.policy.running, s'.policy.running⟩

/-- The accounts of the scheduler are in order, and the line knows registered threads only. -/
def Known (s : Scheduler Fifo) : Prop :=
  (∃ (L : Layout Unit Unit) (naps : List Sleeper), s.Sound L [] naps) ∧ s.policy.KnownIn s.threads

namespace Known

variable {s : Scheduler Fifo}

/-- A request leaves the running thread where it is, and one that releases nobody whom the line
knows leaves the others registered. -/
theorem serve (h : s.Known) (request : Request) : (s.serve request).Gives fun a =>
    a.2.policy.running = s.policy.running ∧ (s.Spares (.serve request) → a.2.Known) := by
  obtain ⟨⟨L, naps, hsound⟩, hknown⟩ := h
  cases request with
  | register context =>
    refine .bind (hsound.register_eq context) fun a ha => .pure ?_
    rcases ha with ⟨refusal, rfl⟩ | ⟨t, -, -, htag, hpolicy, h'⟩
    · exact ⟨rfl, fun _ => ⟨⟨L, naps, hsound⟩, hknown⟩⟩
    · refine ⟨congrArg Fifo.running hpolicy, fun _ => ⟨⟨L, naps, h'⟩, ?_⟩⟩
      rw [hpolicy]
      intro u hu
      obtain ⟨g, hg⟩ := ThreadTable.contains_iff.mp (hknown u hu)
      refine ThreadTable.contains_iff.mpr ?_
      rw [htag u]
      split
      · exact ⟨_, rfl⟩
      · exact ⟨g, hg⟩
  | release t =>
    refine .bind (hsound.release_eq t) fun a ha => .pure ?_
    rcases ha with ⟨refusal, -, rfl⟩ | ⟨haccepted, -, htag, hpolicy, h'⟩
    · exact ⟨rfl, fun _ => ⟨⟨L, naps, hsound⟩, hknown⟩⟩
    · refine ⟨congrArg Fifo.running hpolicy, fun hspares => ⟨⟨L, naps, h'⟩, ?_⟩⟩
      rw [hpolicy]
      intro u hu
      have hut : u ≠ t := by
        rintro rfl
        exact hspares haccepted hu
      exact (ThreadTable.contains_congr (htag u hut)).trans (hknown u hu)
  | cancelSleep deadline =>
    refine .bind (hsound.cancelSleep_eq deadline) fun a ha => .pure ?_
    rcases ha with rfl | ⟨t, naps', hg, -, hthreads, hpolicy, h'⟩
    · exact ⟨rfl, fun _ => ⟨⟨L, naps, hsound⟩, hknown⟩⟩
    · rw [Fifo.addAll_others] at hpolicy
      refine ⟨by rw [hpolicy]; rfl, fun _ => ⟨⟨L, naps', h'⟩, ?_⟩⟩
      rw [hpolicy, hthreads]
      have hjoined : (s.policy.joinedBy [t]).KnownIn s.threads :=
        hknown.joinedBy (by simpa using ThreadTable.contains_iff.mpr ⟨_, hg⟩)
      exact hjoined.congr fun u _ => s.threads.contains_freed [t] u
  | cancelThreadSleep t =>
    refine .bind (hsound.cancelThreadSleep_eq t) fun a ha => .pure ?_
    rcases ha with ⟨rfl, -⟩ | ⟨deadline, naps', -, -, hthreads, hpolicy, h'⟩
    · exact ⟨rfl, fun _ => ⟨⟨L, naps, hsound⟩, hknown⟩⟩
    · refine ⟨congrArg Fifo.running hpolicy, fun _ => ⟨⟨L, naps', h'⟩, ?_⟩⟩
      rw [hpolicy, hthreads]
      exact hknown.congr fun u _ => s.threads.contains_freed [t] u
  | audit =>
    exact .bind hsound.audit fun _ _ => .pure ⟨rfl, fun _ => ⟨⟨L, naps, hsound⟩, hknown⟩⟩
  | ticks | uptime | stats | isSleeping =>
    exact .pure ⟨rfl, fun _ => ⟨⟨L, naps, hsound⟩, hknown⟩⟩

theorem beginSleep (h : s.Known) (deadline : Nat) : (s.beginSleep deadline).Gives fun a =>
    a.1.toOption.bind (·.plan) = s.changeOver a.2 ∧ a.2.Known := by
  obtain ⟨⟨L, naps, hsound⟩, hknown⟩ := h
  obtain ⟨a, ha, hcases⟩ := hsound.beginSleep_eq deadline
  refine ⟨a, ha, ?_⟩
  rcases hcases with ⟨refusal, rfl⟩ | ⟨naps', hg, houtcome, hthreads, hpolicy, h'⟩
  · exact ⟨(if_pos rfl).symm, ⟨L, naps, hsound⟩, hknown⟩
  · have hslept : s.policy.KnownIn a.2.threads := by
      rw [hthreads]
      exact hknown.congr fun u _ => ThreadTable.contains_touch_dormant hg u
    refine ⟨?_, ⟨L, naps', h'⟩, ?_⟩
    · rw [houtcome, changeOver, hpolicy]
      exact hslept.plan?_eq (Fifo.mem_of_mem_advance List.mem_cons_self)
    · rw [hpolicy]
      exact hslept.advance

theorem tick (h : s.Known) (now : Nat) (booted : Bool) : (s.tick now booted).Gives fun a =>
    a.1.plan = s.changeOver a.2 ∧ a.2.Known := by
  obtain ⟨⟨L, naps, hsound⟩, hknown⟩ := h
  cases booted with
  | false =>
    obtain ⟨a, ha, hplan, hthreads, hpolicy, naps', h'⟩ := hsound.tick_early_effect now
    refine ⟨a, ha, ?_, ⟨L, naps', h'⟩, ?_⟩
    · rw [hplan, changeOver, hpolicy, if_pos rfl]
    · rw [hpolicy, hthreads]
      exact hknown
  | true =>
    obtain ⟨a, ha, d, woken, quantumOver, naps', rfl, -, hasleep, hplan, hthreads, hpolicy, h'⟩ :=
      hsound.tick_booted_effect now
    have hjoined : (s.policy.joinedBy woken).KnownIn a.2.threads := by
      rw [hthreads]
      have hwoken : ∀ t ∈ woken, s.threads.contains t = true :=
        fun t ht => ThreadTable.contains_iff.mpr ⟨_, hasleep t ht⟩
      exact (hknown.joinedBy hwoken).congr fun u _ => s.threads.contains_freed woken u
    refine ⟨a, ha, ?_, ⟨L, naps', h'⟩, ?_⟩
    · rw [hplan, changeOver, hpolicy]
      rcases s.policy.dialogue_cases woken quantumOver a.2.awake with ⟨hr, hd⟩ | ⟨hr, hd⟩
      · rw [hr, hd]
        exact (if_pos rfl).symm
      · rw [hr, hd]
        exact hjoined.plan?_eq (Fifo.mem_of_mem_turned List.mem_cons_self)
    · rw [hpolicy]
      rcases s.policy.dialogue_cases woken quantumOver a.2.awake with ⟨-, hd⟩ | ⟨-, hd⟩
      · rw [hd]
        exact hjoined
      · rw [hd]
        exact hjoined.turned _

/-- When a call makes another thread the policy's current one, it plans the switch to it. -/
theorem dispatch (h : s.Known) (c : SchedulerCall) : (s.dispatch c).Gives fun a =>
    a.1 = s.changeOver a.2 ∧ (s.Spares c → a.2.Known) := by
  cases c with
  | serve request =>
    refine .bind (h.serve request) fun a ha => .pure ⟨?_, ha.2⟩
    rw [changeOver, if_pos ha.1]
  | beginSleep deadline =>
    exact .bind (h.beginSleep deadline) fun a ha => .pure ⟨ha.1, fun _ => ha.2⟩
  | tick now booted =>
    exact .bind (h.tick now booted) fun a ha => .pure ⟨ha.1, fun _ => ha.2⟩

end Known

variable {start s : Scheduler Fifo} {t : ThreadId}

/-- The thread that the switch is to is the policy's current one. -/
theorem target_changeOver (s s' : Scheduler Fifo) :
    (s.changeOver s').elim s.policy.running (·.target) = s'.policy.running := by
  unfold changeOver
  split
  · rename_i hsame
    exact hsame.symm
  · rfl

theorem Run.known (hknown : start.Known) (h : Run Spares start t s) :
    s.Known ∧ s.policy.running = t := by
  induction h with
  | start => exact ⟨hknown, rfl⟩
  | call c _ hspares hs ih =>
    obtain ⟨hplan, hknown'⟩ := (ih.1.dispatch c).of_result hs
    dsimp only at hplan
    refine ⟨hknown' hspares, ?_⟩
    rw [hplan, ← ih.2, target_changeOver]

/-- If the line knows registered threads only, and no call releases one that it knows, the policy's
current thread is on the processor, and a call that makes another thread the current one plans the
switch between the two. -/
theorem Run.agrees (hreached : start.Reached) (hknown : start.policy.KnownIn start.threads)
    (h : Run Spares start t s) :
    s.policy.running = t ∧ ∀ c, ∃ plan s', (s.dispatch c).result = .ok (plan, s') ∧
      plan = if s'.policy.running = s.policy.running then none
        else some ⟨s.policy.running, s'.policy.running⟩ := by
  obtain ⟨hs, ht⟩ := Run.known ⟨hreached.sound, hknown⟩ h
  refine ⟨ht, fun c => ?_⟩
  obtain ⟨⟨plan, s'⟩, ha, hplan, -⟩ := hs.dispatch c
  exact ⟨plan, s', ha, hplan⟩

/-- A thread that has slept, and that the line does not know, may be released. -/
theorem Run.agrees_after_release :
    ∃ start s : Scheduler Fifo, start.Reached ∧ start.policy.KnownIn start.threads ∧
      Run Spares start ⟨1⟩ s ∧ s.threads.contains ⟨0⟩ = false ∧ s.policy.running = ⟨1⟩ ∧
      ∀ c, ∃ plan s', (s.dispatch c).result = .ok (plan, s') ∧
        plan = if s'.policy.running = s.policy.running then none
          else some ⟨s.policy.running, s'.policy.running⟩ := by
  have hcheck : ({ maxThreads := 2 } : Settings).check = .ok () := by decide
  obtain ⟨start, hs, hreached⟩ := Reached.exists_callAll hcheck (⟨[⟨1⟩], ⟨0⟩⟩ : Fifo) ⟨1⟩
    [.serve (.register {}), .serve (.register {})]
  have hknown := of_decide_eq_true (Logged.eq_of_map_result
    (f := fun s => decide (s.policy.KnownIn s.threads)) (b := true) hs (by decide +kernel))
  have hend := Logged.eq_of_map_result
    (f := fun s => ((do
      let (plan, s) ← s.dispatch (.beginSleep 5)
      let (plan', s) ← s.dispatch (.serve (.cancelThreadSleep ⟨0⟩))
      let known := s.policy.running :: s.policy.ready
      let (plan'', s) ← s.dispatch (.serve (.release ⟨0⟩))
      return ([plan, plan', plan''], known, s.threads.contains ⟨0⟩)) : Logged _).result)
    (b := .ok ([some ⟨⟨0⟩, ⟨1⟩⟩, none, none], [⟨1⟩], false)) hs (by decide +kernel)
  obtain ⟨⟨plan, s₁⟩, hs₁, hrest⟩ := Logged.result_bind_eq_ok.mp hend
  obtain ⟨⟨plan', s₂⟩, hs₂, hrest⟩ := Logged.result_bind_eq_ok.mp hrest
  obtain ⟨⟨plan'', s₃⟩, hs₃, hlast⟩ := Logged.result_bind_eq_ok.mp hrest
  simp only [Logged.result_pure, Except.ok.injEq, Prod.mk.injEq, List.cons.injEq, and_true] at hlast
  obtain ⟨⟨rfl, rfl, rfl⟩, ⟨hrunning, hready⟩, hgone⟩ := hlast
  have hrun₀ : Run Spares start start.policy.running start := .start
  have hrun₁ := hrun₀.call (.beginSleep 5) trivial hs₁
  have hrun₂ := hrun₁.call (.serve (.cancelThreadSleep ⟨0⟩)) trivial hs₂
  have hspares : s₂.Spares (.serve (.release ⟨0⟩)) := fun _ => by
    rw [hrunning, hready]
    decide
  have hrun := hrun₂.call (.serve (.release ⟨0⟩)) hspares hs₃
  obtain ⟨ht, hagrees⟩ := Run.agrees hreached hknown hrun
  exact ⟨start, s₃, hreached, hknown, hrun, hgone, ht, hagrees⟩

/-- The thread behind the running one is released, and when the running thread falls asleep, the
policy picks it; but nobody can be switched to. -/
theorem run_disagrees :
    ∃ start s₁ s₂ : Scheduler Fifo,
      ((ofSettings { maxThreads := 2 } (⟨[⟨1⟩], ⟨0⟩⟩ : Fifo) ⟨1⟩).callAll
        [.serve (.register {}), .serve (.register {})]).result = .ok start ∧
      start.policy.KnownIn start.threads ∧
      (start.dispatch (.serve (.release ⟨1⟩))).result = .ok (none, s₁) ∧
      s₁.threads.contains ⟨1⟩ = false ∧
      (s₁.dispatch (.beginSleep 500)).result = .ok (none, s₂) ∧
      Run (fun _ _ => True) start ⟨0⟩ s₂ ∧ s₂.policy.running = ⟨1⟩ := by
  have hcheck : ({ maxThreads := 2 } : Settings).check = .ok () := by decide
  obtain ⟨start, hs, -⟩ := Reached.exists_callAll hcheck (⟨[⟨1⟩], ⟨0⟩⟩ : Fifo) ⟨1⟩
    [.serve (.register {}), .serve (.register {})]
  have hknown := of_decide_eq_true (Logged.eq_of_map_result
    (f := fun s => decide (s.policy.KnownIn s.threads)) (b := true) hs (by decide +kernel))
  have hstart : start.policy.running = ⟨0⟩ := Logged.eq_of_map_result
    (f := fun s => s.policy.running) hs (by decide +kernel)
  have hend := Logged.eq_of_map_result
    (f := fun s => ((do
      let (plan, s) ← s.dispatch (.serve (.release ⟨1⟩))
      let registered := s.threads.contains ⟨1⟩
      let (plan', s) ← s.dispatch (.beginSleep 500)
      return ([plan, plan'], registered, s.policy.running)) : Logged _).result)
    (b := .ok ([none, none], false, ⟨1⟩)) hs (by decide +kernel)
  obtain ⟨⟨plan, s₁⟩, hs₁, hrest⟩ := Logged.result_bind_eq_ok.mp hend
  obtain ⟨⟨plan', s₂⟩, hs₂, hlast⟩ := Logged.result_bind_eq_ok.mp hrest
  simp only [Logged.result_pure, Except.ok.injEq, Prod.mk.injEq, List.cons.injEq, and_true] at hlast
  obtain ⟨⟨rfl, rfl⟩, hgone, hrunning⟩ := hlast
  have hrun₀ : Run (fun _ _ => True) start start.policy.running start := .start
  have hrun := (hrun₀.call _ trivial hs₁).call _ trivial hs₂
  rw [hstart] at hrun
  exact ⟨start, s₁, s₂, hs, hknown, hs₁, hgone, hs₂, hrun, hrunning⟩

end Scheduler
end PulseKernel
