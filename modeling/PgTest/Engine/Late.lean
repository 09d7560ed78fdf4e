import PgTest.Engine.Tokens

/-!
# Late and repeated messages

A message is `Inert` in a state that handling it leaves as it is, history and
counters included, so that it sends nothing.  Two kinds of messages stay inert
once they are: what a session or a timer sends for an assignment that has ended,
and a second result of a job whose result was accepted.

Both rest on numbers that never come back: a generation that was given out is
not drawn again, and an identifier that was created or dropped is not reserved
again.
-/

namespace PgTest.Engine

open PgTest.Lib WorkerEngine

variable {C : Type} {config : WorkerEngineConfig} {s t : WorkerEngine C}

/-- Handling `message` changes nothing. -/
def Inert (message : EngineMessage C) (s : WorkerEngine C) : Prop :=
  ∀ env, processMessage env message s = .ok s

/-- Messages that are inert leave the engine as it is, however many come. -/
theorem processMessages_inert {late : List (Env C × EngineMessage C)}
    (h : ∀ i ∈ late, i.2 ≠ .shutdown ∧ Inert i.2 s) : processMessages late s = .ok s := by
  induction late with
  | nil => rfl
  | cons i late ih =>
    obtain ⟨hne, hi⟩ := h i List.mem_cons_self
    have hrest := ih fun j hj => h j (List.mem_cons_of_mem _ hj)
    rw [processMessages_cons hne, hi]
    exact hrest

/-- Messages after a run of the loop that is not over. -/
theorem processMessages_append {pre : List (Env C × EngineMessage C)}
    (rest : List (Env C × EngineMessage C)) (hok : processMessages pre s = .ok t)
    (hrun : t.rootCancelled = false) :
    processMessages (pre ++ rest) s = processMessages rest t := by
  induction pre generalizing s with
  | nil =>
    cases hok
    rfl
  | cons i pre ih =>
    obtain ⟨env, message⟩ := i
    by_cases hm : message = .shutdown
    · subst hm
      cases hok
      cases hrun
    · rw [processMessages_cons hm] at hok
      obtain ⟨s₁, h1, h2⟩ := bind_ok hok
      rw [List.cons_append, processMessages_cons hm, h1]
      exact ih h2

/-- **The insertion rule.**  A message that is inert in every state of the runs
from `s` may be inserted anywhere. -/
theorem processMessages_insert {env : Env C} {late : EngineMessage C} (hne : late ≠ .shutdown)
    (mid post : List (Env C × EngineMessage C)) (h : (engine C config).Reachable s)
    (hrun : s.rootCancelled = false)
    (hinert : ∀ is t, (engine C config).Run s is t → Inert late t) :
    processMessages (mid ++ (env, late) :: post) s = processMessages (mid ++ post) s := by
  induction mid generalizing s with
  | nil =>
    rw [List.nil_append, processMessages_cons hne, hinert [] s (.nil s)]
    rfl
  | cons i mid ih =>
    obtain ⟨env', message⟩ := i
    by_cases hm : message = .shutdown
    · subst hm
      rfl
    · rw [List.cons_append, List.cons_append, processMessages_cons hm, processMessages_cons hm]
      cases hok : processMessage env' message s with
      | error panic => rfl
      | ok s₁ =>
        have hstep : (engine C config).step s (env', message) s₁ := ⟨hrun, hok⟩
        exact ih (h.step hstep) ((engine_running h hm hok).trans hrun)
          fun is t hr => hinert _ t (.cons hstep hr)

/-! ### Ended assignments -/

/-- The assignment `generation` of `lease` is not the current one. -/
def WorkerEngine.Ended (lease : LeaseId) (generation : Nat) (s : WorkerEngine C) : Prop :=
  ∀ entry, s.leases.lookup lease = some entry → entry.generation ≠ generation

theorem inert_detach {lease : LeaseId} {generation : Nat} (h : s.Ended lease generation) :
    Inert (.detach lease generation) s := by
  intro env
  rw [processMessage, detach]
  cases hl : s.leases.lookup lease with
  | none => rfl
  | some entry => simp [h entry hl]

theorem inert_leaseMaxTimeReached {lease : LeaseId} {generation : Nat}
    (h : s.Ended lease generation) : Inert (.leaseMaxTimeReached lease generation) s := by
  intro env
  rw [processMessage, leaseMaxTimeReached, if_neg]
  cases hl : s.leases.lookup lease with
  | none => simp
  | some entry => simpa using h entry hl

/-- **An assignment that has ended does not come back**, though its lease may. -/
theorem ended_run {lease : LeaseId} {generation : Nat} {database : Database}
    {is : List (Env C × EngineMessage C)} (h : (engine C config).Reachable s)
    (ha : .assigned lease generation database ∈ s.history) (he : s.Ended lease generation)
    (hr : (engine C config).Run s is t) : t.Ended lease generation := by
  intro entry' hl heq
  have hle := (engine_numbered h).le _ (mem_assignments.mpr ha)
  rcases (engine_run h hr).follows (engine_inv h).1 lease entry' hl with
    ⟨entry, hl₀, hg, _⟩ | hnew
  · exact he entry hl₀ (hg.symm.trans heq)
  · rw [heq] at hnew
    exact absurd hle (Nat.not_le_of_lt hnew)

/-- What a session or a timer sends for the assignment `generation` of `lease`. -/
def EngineMessage.Of (lease : LeaseId) (generation : Nat) (message : EngineMessage C) : Prop :=
  message = .detach lease generation ∨ message = .leaseMaxTimeReached lease generation

/-- **Old generations are inert.**  The generations that were given out increase
strictly.  What was sent for an assignment that has ended leaves the engine as
it is, at any later point and any number of times. -/
theorem old_generations_inert (h : (engine C config).Reachable s) :
    (s.assignments.Pairwise fun later earlier => earlier.2.1 < later.2.1) ∧
      ∀ lease generation database, .assigned lease generation database ∈ s.history →
        s.Ended lease generation →
        ∀ is t, (engine C config).Run s is t →
          ∀ late : List (Env C × EngineMessage C), (∀ i ∈ late, i.2.Of lease generation) →
            processMessages late t = .ok t ∧ ∀ i ∈ late, processMessage i.1 i.2 t = .ok t := by
  refine ⟨(engine_numbered h).decreasing, ?_⟩
  intro lease generation database ha he is t hr late hlate
  have het := ended_run h ha he hr
  have hinert : ∀ i ∈ late, i.2 ≠ .shutdown ∧ Inert i.2 t := by
    rintro ⟨env, message⟩ hi
    rcases hlate _ hi with rfl | rfl
    · exact ⟨nofun, inert_detach het⟩
    · exact ⟨nofun, inert_leaseMaxTimeReached het⟩
  exact ⟨processMessages_inert hinert, fun i hi => (hinert i hi).2 i.1⟩

/-- The first lease of the small engine expired and was assigned again; the timer and
a disconnect of its first assignment come late. -/
theorem old_generations_inert_expired : ∃ s : WorkerEngine Nat,
    (s.leases.lookup Sample.leaseA).any (·.generation == 2) = true ∧
    processMessages [(Sample.env, .leaseMaxTimeReached Sample.leaseA 1),
      (Sample.env, .detach Sample.leaseA 1)] s = .ok s := by
  obtain ⟨s, hs, ha, hl⟩ := Sample.reached
    [.attachOrJoin Sample.leaseA 0 0, .leaseMaxTimeReached Sample.leaseA 1,
      .attachOrJoin Sample.leaseA 1 0]
    (fun s => .assigned Sample.leaseA 1 ⟨1, "first"⟩ ∈ s.history ∧
      (s.leases.lookup Sample.leaseA).any (·.generation == 2) = true) (by decide)
  refine ⟨s, hl, ((old_generations_inert hs).2 _ _ _ ha (fun entry he => ?_) [] s (.nil s) _ ?_).1⟩
  · rw [he] at hl
    have hg : entry.generation = 2 := by simpa using hl
    omega
  · simp [EngineMessage.Of]

/-! ### Results that were accepted -/

/-- The engine waits for this result. -/
def DatabaseWorkerMessages.Accepted (s : WorkerEngine C) : DatabaseWorkerMessages → Prop
  | .creationFinished databaseId _ => databaseId ∈ s.inventory.creating
  | .cleanupFinished databaseId _ => databaseId ∈ s.inventory.retiring

/-- `again` is a second result of the job that `message` reports: of a creation any
result, of a cleanup the same. -/
def DatabaseWorkerMessages.Repeats (message again : DatabaseWorkerMessages) : Prop :=
  match message with
  | .creationFinished databaseId _ => ∃ result, again = .creationFinished databaseId result
  | .cleanupFinished _ _ => again = message

/-- The job that `message` reports is over: its identifier was reserved and is not being
created, or its database was dropped.  A failed cleanup ends nothing and changes nothing. -/
def WorkerEngine.Spent (s : WorkerEngine C) : DatabaseWorkerMessages → Prop
  | .creationFinished databaseId _ =>
      databaseId ∉ s.inventory.creating ∧ databaseId ≤ s.inventory.nextDatabaseId
  | .cleanupFinished databaseId (.ok ()) => .dropped databaseId ∈ s.life
  | .cleanupFinished _ (.error _) => True

/-- A database that was dropped is not retiring. -/
theorem WorkerEngine.Lifecycle.not_retiring {s : WorkerEngine C} (h : s.Lifecycle)
    {databaseId : Nat} (hd : .dropped databaseId ∈ s.life) : databaseId ∉ s.inventory.retiring := by
  intro hr
  obtain ⟨name, hl⟩ := Finmap.mem_iff.mp hr
  have hheld : ⟨databaseId, name⟩ ∈ s.held := mem_held.mpr (Or.inr (Or.inl hl))
  exact ((h.held_iff _).mp hheld).2 hd

theorem inert_of_spent {message again : DatabaseWorkerMessages} (hinv : Inv Anyone s)
    (h : s.Spent message) (ha : message.Repeats again) :
    Inert (.databaseWorker again) s := by
  intro env
  cases message with
  | creationFinished databaseId result =>
    obtain ⟨result', rfl⟩ := ha
    simp [processMessage, handleDatabaseWorkerMessage, DatabaseInventory.completeCreation, h.1]
  | cleanupFinished databaseId result =>
    subst ha
    cases result with
    | ok =>
      have hr := hinv.lifecycle.not_retiring h
      simp [processMessage, handleDatabaseWorkerMessage, DatabaseInventory.completeCleanup, hr]
    | error error =>
      by_cases hr : databaseId ∈ s.inventory.retiring <;>
        simp [processMessage, handleDatabaseWorkerMessage, DatabaseInventory.completeCleanup, hr]

/-- An identifier that was reserved is not reserved again. -/
theorem Move.uncreated {Q : LeaseId → C → Prop} {a : Act} (h : Move Q s a t) {databaseId : Nat}
    (hs : databaseId ∉ s.inventory.creating ∧ databaseId ≤ s.inventory.nextDatabaseId) :
    databaseId ∉ t.inventory.creating ∧ databaseId ≤ t.inventory.nextDatabaseId := by
  obtain ⟨hc, hle⟩ := hs
  cases h with
  | count _ _ | note _ | enroll _ _ | close _ _ _ | enqueue _ _ _ _ _ | dequeue _
  | assign _ _ _ _ _ _ | attach _ _ _ | restore _ _ _ | detach _ _ | detachIdle _ _ | retire _ _
  | clean _ | shutdown => exact ⟨hc, hle⟩
  | reserve hfirst _ _ _ =>
    refine ⟨fun hm => ?_, Nat.le_add_right_of_le hle⟩
    rcases Finset.mem_union.mp hm with hm | hm
    · exact hc hm
    · have := (DatabaseInventory.mem_ids.mp hm).1
      omega
  | burn _ _ _ _ _ => exact ⟨hc, Nat.le_add_right_of_le hle⟩
  | @settle settledId result hmem =>
    obtain ⟨hcr, hn, _⟩ :=
      @held_settle C s (s.settledWith settledId result) settledId result hmem rfl rfl
    refine ⟨fun hm => hc ?_, le_of_le_of_eq hle hn.symm⟩
    exact Finset.mem_of_mem_erase (hcr ▸ hm)

theorem Path.spent {Q : LeaseId → C → Prop} {P : Act → Prop} (h : Path Q P s t) (hs : Inv Q s)
    {message : DatabaseWorkerMessages} (hm : s.Spent message) : t.Spent message := by
  cases message with
  | creationFinished databaseId result =>
    exact h.invariant (I := fun t => t.Spent (.creationFinished databaseId result))
      (fun _ _ _ _ _ hI hm => hm.uncreated hI) hs hm
  | cleanupFinished databaseId result =>
    cases result with
    | ok =>
      obtain ⟨new, hnew⟩ := h.history hs
      show _ ∈ t.life
      rw [life, hnew, List.filterMap_append]
      exact List.mem_append_right _ hm
    | error error => exact trivial

/-- **A result that was accepted spends its job.** -/
theorem spent_of_accepted {env : Env C} {message : DatabaseWorkerMessages}
    (h : (engine C config).Reachable s) (ha : message.Accepted s)
    (hok : processMessage env (.databaseWorker message) s = .ok t) : t.Spent message := by
  have hinv := (engine_inv h).1
  cases message with
  | creationFinished databaseId result =>
    rcases creationFinished_cases hok with ⟨hc, _⟩ | ⟨hc, s₂, h1, h2⟩
    · exact absurd ha hc
    · have hle := hinv.books.2 databaseId (Multiset.mem_add.mpr (Or.inl ha))
      obtain ⟨hcr, hn, _⟩ :=
        @held_settle C s (s.settledWith databaseId result) databaseId result hc rfl rfl
      have hspent : (s.settledWith databaseId result).Spent
          (.creationFinished databaseId result) :=
        ⟨by rw [hcr]; exact Finset.notMem_erase _ _, le_of_le_of_eq hle hn.symm⟩
      -- from there on the engine dispatches and grows
      have hsettle : Move Anyone s (.settle databaseId) (s.settledWith databaseId result) :=
        .settle result hc
      have hinv₁ := hinv.move hsettle
      have hp₁ : Path Anyone (fun _ => True) (s.settledWith databaseId result) _ :=
        .single (.count _ (s.counters.afterCreation_detachOnZero result)) trivial
      obtain ⟨hp₂, _⟩ := dispatchLoop_path (hp₁.inv hinv₁) (le_refl _) rfl h1
      have hp₃ := hp₁.trans (hp₂.mono fun _ _ => trivial)
      have hp₄ := hp₃.trans ((grow_path (hp₃.inv hinv₁) h2).mono fun _ _ => trivial)
      exact hp₄.spent hinv₁ hspent
  | cleanupFinished databaseId result =>
    cases result with
    | ok =>
      simp only [processMessage, handleDatabaseWorkerMessage, DatabaseInventory.completeCleanup,
        show databaseId ∈ s.inventory.retiring from ha, if_true] at hok
      cases hok
      exact List.mem_cons_self
    | error error => exact trivial

/-- The first lease of the small engine is assigned and expires. -/
def Sample.expiry : List (Env Nat × EngineMessage Nat) :=
  [(Sample.env, .attachOrJoin Sample.leaseA 0 0),
    (Sample.env, .leaseMaxTimeReached Sample.leaseA 1)]

/-- **Duplicate results change nothing.**  Take any run of `process_messages` and a
result in it that was accepted.  With a second result of the same job inserted at any
later place, the run goes on through the same states, whatever `post` is; the state
holds every reply, request and counter. -/
theorem duplicate_results_change_nothing {s₀ : WorkerEngine C}
    (hinit : (engine C config).init s₀) {pre : List (Env C × EngineMessage C)}
    (hpre : processMessages pre s₀ = .ok s) (hrun : s.rootCancelled = false) {env env' : Env C}
    {message again : DatabaseWorkerMessages} (ha : message.Accepted s)
    (hagain : message.Repeats again) (mid post : List (Env C × EngineMessage C)) :
    processMessages (pre ++ (env, .databaseWorker message) ::
        (mid ++ (env', .databaseWorker again) :: post)) s₀ =
      processMessages (pre ++ (env, .databaseWorker message) :: (mid ++ post)) s₀ := by
  have hne : ∀ result, (.databaseWorker result : EngineMessage C) ≠ .shutdown := nofun
  obtain ⟨is, _, hr⟩ := run_of_processMessages (.of_init hinit) (init_running hinit) hpre
  have hreach : (engine C config).Reachable s := ⟨s₀, is, hinit, hr⟩
  rw [processMessages_append _ hpre hrun, processMessages_append _ hpre hrun,
    processMessages_cons (hne _), processMessages_cons (hne _)]
  cases hok : processMessage env (.databaseWorker message) s with
  | error panic => rfl
  | ok s₁ =>
    have hstep : (engine C config).step s (env, .databaseWorker message) s₁ := ⟨hrun, hok⟩
    have hreach₁ := hreach.step hstep
    have hspent := spent_of_accepted hreach ha hok
    refine processMessages_insert (hne _) mid post hreach₁
      ((engine_running hreach (hne _) hok).trans hrun) fun is t ht => ?_
    have hspent' := (engine_run hreach₁ ht).spent (engine_inv hreach₁).1 hspent
    exact inert_of_spent (engine_inv (hreach₁.run ht)).1 hspent' hagain

/-- The small engine dropped its first database, and is told so again after the lease
was assigned anew. -/
theorem duplicate_results_change_nothing_cleanup : ∃ s₀ : WorkerEngine Nat,
    (engine Nat Sample.settings).init s₀ ∧
    processMessages (Sample.expiry ++ (Sample.env, .databaseWorker (.cleanupFinished 1 (.ok ()))) ::
        ([(Sample.env, .attachOrJoin Sample.leaseA 1 0)] ++
          [(Sample.env, .databaseWorker (.cleanupFinished 1 (.ok ())))])) s₀ =
      processMessages (Sample.expiry ++
        (Sample.env, .databaseWorker (.cleanupFinished 1 (.ok ()))) ::
          ([(Sample.env, .attachOrJoin Sample.leaseA 1 0)] ++ [])) s₀ := by
  have hstart : (started Sample.settings Sample.reports Sample.expiry).any (fun s =>
      decide (1 ∈ s.inventory.retiring ∧ s.rootCancelled = false)) = true := by decide
  obtain ⟨s, hs, hp⟩ := (Option.any_eq_true _ _).mp hstart
  obtain ⟨hret, hrun⟩ := of_decide_eq_true hp
  obtain ⟨s₀, hinit, hpre⟩ := started_ok hs
  have ha : (DatabaseWorkerMessages.cleanupFinished 1 (.ok ())).Accepted s := hret
  exact ⟨s₀, hinit, duplicate_results_change_nothing hinit hpre hrun ha rfl _ []⟩

end PgTest.Engine
