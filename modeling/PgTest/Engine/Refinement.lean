import PgTest.Engine.Handlers

/-!
# The engine refines the ledger

Every message is a run of the ledger, so the invariant of the ledger holds in
every state the engine reaches, and with it `NoIdle`, which holds only between
messages.
-/

namespace PgTest.Engine

open PgTest.Lib WorkerEngine

variable {C : Type} {config : WorkerEngineConfig} {s t : WorkerEngine C}

/-- Nothing is known of the consumers. -/
def Anyone : LeaseId → C → Prop := fun _ _ => True

theorem EngineMessage.known_anyone (message : EngineMessage C) : message.Known Anyone := by
  cases message with
  | attachOrJoin _ _ _ | releaseLease _ _ | detach _ _ | leaseMaxTimeReached _ _
  | databaseWorker _ | shutdown => exact trivial

/-- **The engine refines the ledger.** -/
theorem engine_refines (C : Type) (config : WorkerEngineConfig) :
    (engine C config).Refines (ledger Anyone) id NoIdle where
  init := by
    intro s hs
    obtain ⟨reports, hok⟩ := hs
    obtain ⟨⟨acts, _, hr⟩, hw⟩ := tryInit_path (Q := Anyone) hok
    exact ⟨⟨_, acts, ⟨config, rfl⟩, hr⟩, Or.inr hw⟩
  step := by
    intro s i t hr hidle hs
    have hh := processMessage_handles (ledger_inv hr) hidle i.2.known_anyone hs.2
    obtain ⟨acts, _, hrun⟩ := hh.path
    exact ⟨⟨acts, hrun⟩, hh.noIdle⟩

theorem engine_inv (h : (engine C config).Reachable s) : Inv Anyone s ∧ s.NoIdle := by
  obtain ⟨hr, hidle⟩ := (engine_refines C config).reachable h
  exact ⟨ledger_inv hr, hidle⟩

theorem engine_handles {env : Env C} {message : EngineMessage C}
    (h : (engine C config).Reachable s) (hok : processMessage env message s = .ok t) :
    Handles Anyone (Act.Handling message s.nextGeneration) env s t := by
  obtain ⟨hinv, hidle⟩ := engine_inv h
  exact processMessage_handles hinv hidle message.known_anyone hok

theorem engine_step {env : Env C} {message : EngineMessage C} (h : (engine C config).Reachable s)
    (hok : processMessage env message s = .ok t) :
    Path Anyone (Act.Handling message s.nextGeneration) s t := (engine_handles h hok).path

theorem engine_run {is : List (Env C × EngineMessage C)} (h : (engine C config).Reachable s)
    (hr : (engine C config).Run s is t) : Path Anyone (fun _ => True) s t := by
  have hreach := (engine_refines C config).reachable h
  obtain ⟨⟨acts, hrun⟩, _⟩ := (engine_refines C config).run hr hreach.1 hreach.2
  exact ⟨acts, fun _ _ => trivial, hrun⟩

/-- The configuration never changes. -/
theorem engine_config (h : (engine C config).Reachable s) : s.config = config := by
  refine h.invariant (I := fun s => s.config = config) (fun s hs => ?_) fun s i t hr hI hstep => ?_
  · obtain ⟨_, hok⟩ := hs
    exact (tryInit_path (Q := Anyone) hok).1.config (.new config)
  · exact ((engine_step hr hstep.2).config (engine_inv hr).1).trans hI

/-! ### What a message adds to the history -/

/-- What one history adds to another. -/
def news (history old : List (Event C)) : List (Event C) :=
  history.take (history.length - old.length)

theorem news_append (new old : List (Event C)) : news (new ++ old) old = new := by
  simp [news]

theorem engine_news {env : Env C} {message : EngineMessage C}
    (h : (engine C config).Reachable s) (hok : processMessage env message s = .ok t) :
    t.history = news t.history s.history ++ s.history := by
  obtain ⟨new, hh, _⟩ := (engine_step h hok).known (engine_inv h).1
  rw [hh, news_append]

/-! ### Runs of `process_messages` -/

theorem Move.rootCancelled {Q : LeaseId → C → Prop} {a : Act} (h : Move Q s a t)
    (ha : a ≠ .shutdown) : t.rootCancelled = s.rootCancelled := by
  cases h with
  | count _ _ | note _ | enroll _ _ | close _ _ _ | enqueue _ _ _ _ _ | dequeue _
  | assign _ _ _ _ _ _ | attach _ _ _ | restore _ _ _ | detach _ _ | detachIdle _ _ | retire _ _
  | reserve _ _ _ _ | burn _ _ _ _ _ | settle _ _ | clean _ => rfl
  | shutdown => exact absurd rfl ha

theorem Path.rootCancelled {Q : LeaseId → C → Prop} {P : Act → Prop} (h : Path Q P s t)
    (hs : Inv Q s) (hP : ¬P .shutdown) : t.rootCancelled = s.rootCancelled := by
  refine h.invariant (I := fun t => t.rootCancelled = s.rootCancelled) ?_ hs rfl
  intro s₁ a t₁ ha _ hI hm
  exact (hm.rootCancelled fun he => hP (he ▸ ha)).trans hI

/-- Only `Shutdown` stops the loop. -/
theorem engine_running {env : Env C} {message : EngineMessage C}
    (h : (engine C config).Reachable s) (hm : message ≠ .shutdown)
    (hok : processMessage env message s = .ok t) : t.rootCancelled = s.rootCancelled :=
  (engine_step h hok).rootCancelled (engine_inv h).1 hm

theorem processMessages_cons {env : Env C} {message : EngineMessage C}
    {rest : List (Env C × EngineMessage C)} (hm : message ≠ .shutdown) :
    processMessages ((env, message) :: rest) s =
      (processMessage env message s >>= processMessages rest) := by
  rw [processMessages]
  exact hm

/-- The messages that `process_messages` handles are a run of the engine. -/
theorem run_of_processMessages : ∀ {messages : List (Env C × EngineMessage C)}
    {s t : WorkerEngine C}, (engine C config).Reachable s → s.rootCancelled = false →
    processMessages messages s = .ok t →
    ∃ is, (∀ i ∈ is, i ∈ messages) ∧ (engine C config).Run s is t := by
  intro messages
  induction messages with
  | nil =>
    intro s t _ _ hok
    cases hok
    exact ⟨[], fun _ h => h, .nil s⟩
  | cons i rest ih =>
    obtain ⟨env, message⟩ := i
    intro s t h hrun hok
    by_cases hm : message = .shutdown
    · subst hm
      have hstep : (engine C config).step s (env, .shutdown) t := ⟨hrun, hok⟩
      refine ⟨[(env, .shutdown)], fun i hi => ?_, .single hstep⟩
      rw [List.mem_singleton.mp hi]
      exact List.mem_cons_self
    · rw [processMessages_cons hm] at hok
      obtain ⟨s₁, h1, h2⟩ := bind_ok hok
      have hstep : (engine C config).step s (env, message) s₁ := ⟨hrun, h1⟩
      obtain ⟨is, his, hr⟩ := ih (h.step hstep) ((engine_running h hm h1).trans hrun) h2
      refine ⟨(env, message) :: is, fun i hi => ?_, .cons hstep hr⟩
      rcases List.mem_cons.mp hi with rfl | hi
      · exact List.mem_cons_self
      · exact List.mem_cons_of_mem _ (his i hi)

/-- The engine after `try_init` with `reports` and then `messages`. -/
def started (config : WorkerEngineConfig)
    (reports : List (Nat × Except PostgresDDLClientError ReadString))
    (messages : List (Env C × EngineMessage C)) : Option (WorkerEngine C) :=
  match (WorkerEngine.new config).tryInit reports with
  | .ok (.ok (), s) => (processMessages messages s).toOption
  | _ => none

theorem init_running {s₀ : WorkerEngine C} (h : (engine C config).init s₀) :
    s₀.rootCancelled = false := by
  obtain ⟨reports, hok⟩ := h
  exact (tryInit_path (Q := Anyone) hok).1.rootCancelled (.new config) id

theorem started_ok {reports : List (Nat × Except PostgresDDLClientError ReadString)}
    {messages : List (Env C × EngineMessage C)} (h : started config reports messages = some s) :
    ∃ s₀, (engine C config).init s₀ ∧ processMessages messages s₀ = .ok s := by
  rw [started] at h
  split at h
  case h_1 s₀ h0 =>
    cases hok : processMessages messages s₀ with
    | error panic =>
      rw [hok] at h
      cases h
    | ok s₁ =>
      rw [hok] at h
      cases h
      exact ⟨s₀, ⟨reports, h0⟩, hok⟩
  case h_2 => cases h

theorem started_run {reports : List (Nat × Except PostgresDDLClientError ReadString)}
    {messages : List (Env C × EngineMessage C)} (h : started config reports messages = some s) :
    ∃ s₀ is, (engine C config).init s₀ ∧ (∀ i ∈ is, i ∈ messages) ∧
      (engine C config).Run s₀ is s := by
  obtain ⟨s₀, hinit, hok⟩ := started_ok h
  obtain ⟨is, his, hr⟩ := run_of_processMessages (.of_init hinit) (init_running hinit) hok
  exact ⟨s₀, is, hinit, his, hr⟩

theorem started_reachable {reports : List (Nat × Except PostgresDDLClientError ReadString)}
    {messages : List (Env C × EngineMessage C)} (h : started config reports messages = some s) :
    (engine C config).Reachable s := by
  obtain ⟨s₀, is, hinit, _, hr⟩ := started_run h
  exact ⟨s₀, is, hinit, hr⟩

/-! ### A small engine -/

namespace Sample

def settings : WorkerEngineConfig where
  initialSlots := 2
  starvationThreshold := 0
  growBatchSize := 1
  leaseClaimTimeoutMs := 30000
  maxLeaseRecords := 10

/-- Everything is accepted and delivered. -/
def env : Env Nat where
  reply _ _ := true
  requestCreation _ := true
  requestCleanup _ := true
  sendDelayedMessage _ _ _ := true
  now _ := 0

def leaseA : LeaseId := ⟨"a", by decide⟩
def leaseB : LeaseId := ⟨"b", by decide⟩
def leaseC : LeaseId := ⟨"c", by decide⟩
def leaseD : LeaseId := ⟨"d", by decide⟩
def leaseE : LeaseId := ⟨"e", by decide⟩

def reports : List (Nat × Except PostgresDDLClientError ReadString) :=
  [(0, .ok "first"), (1, .ok "second")]

/-- A run of the small engine to a state of which something can be computed. -/
theorem run (messages : List (EngineMessage Nat)) (p : WorkerEngine Nat → Prop)
    [DecidablePred p]
    (h : ((started settings reports (messages.map (env, ·))).any fun s => decide (p s)) = true) :
    ∃ s₀ is s, (engine Nat settings).init s₀ ∧ (∀ i ∈ is, i.1 = env) ∧
      (engine Nat settings).Run s₀ is s ∧ p s := by
  obtain ⟨s, hs, hp⟩ := (Option.any_eq_true _ _).mp h
  obtain ⟨s₀, is, hinit, his, hr⟩ := started_run hs
  refine ⟨s₀, is, s, hinit, fun i hi => ?_, hr, of_decide_eq_true hp⟩
  obtain ⟨message, _, rfl⟩ := List.mem_map.mp (his i hi)
  rfl

theorem reached (messages : List (EngineMessage Nat)) (p : WorkerEngine Nat → Prop)
    [DecidablePred p]
    (h : ((started settings reports (messages.map (env, ·))).any fun s => decide (p s)) = true) :
    ∃ s, (engine Nat settings).Reachable s ∧ p s := by
  obtain ⟨s₀, is, s, hinit, _, hr, hp⟩ := run messages p h
  exact ⟨s, ⟨s₀, is, hinit, hr⟩, hp⟩

/-- A step of the engine that is computed. -/
def next (s : WorkerEngine Nat) (i : Env Nat × EngineMessage Nat) : Option (WorkerEngine Nat) :=
  if s.rootCancelled = false then (processMessage i.1 i.2 s).toOption else none

theorem next_step {s t : WorkerEngine Nat} {i : Env Nat × EngineMessage Nat}
    (h : next s i = some t) : (engine Nat settings).step s i t := by
  rw [next] at h
  split at h
  case isFalse => cases h
  case isTrue hrun =>
    cases hok : processMessage i.1 i.2 s with
    | error panic =>
      rw [hok] at h
      cases h
    | ok s₁ =>
      rw [hok] at h
      cases h
      exact ⟨hrun, hok⟩

end Sample

end PgTest.Engine
