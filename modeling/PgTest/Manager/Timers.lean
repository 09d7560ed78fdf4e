import PgTest.Engine.Tokens
import PgTest.Manager.Deadlines

/-!
# The timers of the leases

`WorkerEngineIO::send_delayed_message` with the engine that calls it and a clock.  The
call spawns a task; the task reads the clock once, sleeps until its deadline and then
sends `LeaseMaxTimeReached` into the inbox.  The token of the assignment and a
shutdown end it early.

Instants are in nanoseconds, and time passes between the turns.  `delivered` is not part
of the source: it lists the `LeaseMaxTimeReached` that were sent, with the instant.
-/

namespace PgTest.Manager

open PgTest.Lib PgTest.Engine PgTest.Engine.WorkerEngine

variable {C : Type}

/-- `send_delayed_message` of `WorkerEngineIO` is always `Ok`. -/
def scheduling (env : Env C) : Env C := { env with sendDelayedMessage := fun _ _ _ => true }

structure Timers (C : Type) where
  engine : WorkerEngine C
  now : Nat
  inbox : List (EngineMessage C)
  /-- Tasks that have not read the clock. -/
  spawned : List Timer
  /-- Tasks that sleep, and until when. -/
  sleeping : List (Timer × Nat)
  stopped : Bool
  delivered : List (LeaseId × Nat × Nat)

/-- What happens next. -/
inductive Turn (C : Type)
  | tick (elapsed : Nat)
  /-- Somebody else sends a message. -/
  | post (message : EngineMessage C)
  /-- The engine takes the next message from its inbox. -/
  | handle (env : Env C)
  /-- A spawned task reads the clock. -/
  | start (task : Nat)
  /-- The sleep of a task is over, and it sends its message. -/
  | fire (task : Nat)
  /-- A task ends without a message. -/
  | abandon (task : Nat)
  /-- A shutdown is requested. -/
  | stop

/-- Only timers send `LeaseMaxTimeReached`. -/
def NotTimed : EngineMessage C → Bool
  | .leaseMaxTimeReached _ _ => false
  | _ => true

namespace Timers

def handle (env : Env C) (s : Timers C) : Option (Timers C) :=
  match s.inbox with
  | [] => none
  | message :: rest =>
    if s.engine.rootCancelled then none
    else
      match s.engine.processMessage (scheduling env) message with
      | .error _ => none
      | .ok engine => some { s with
          engine := engine
          inbox := rest
          spawned := s.spawned ++
            (news engine.history s.engine.history).reverse.filterMap Event.timer }

/-- `sleep_until(Instant::now() + Duration::from_millis(wait_duration as u64))`. -/
def start (task : Nat) (s : Timers C) : Option (Timers C) :=
  match s.spawned[task]? with
  | none => none
  | some timer => some { s with
      spawned := s.spawned.eraseIdx task
      sleeping := s.sleeping ++ [(timer, s.now + fromMillis timer.waitDuration)] }

def fire (task : Nat) (s : Timers C) : Option (Timers C) :=
  match s.sleeping[task]? with
  | none => none
  | some (timer, deadline) =>
    if deadline ≤ s.now then
      some { s with
        sleeping := s.sleeping.eraseIdx task
        inbox := s.inbox ++ [.leaseMaxTimeReached timer.lease timer.generation]
        delivered := (timer.lease, timer.generation, s.now) :: s.delivered }
    else none

def abandon (task : Nat) (s : Timers C) : Option (Timers C) :=
  match s.sleeping[task]? with
  | none => none
  | some (timer, _) =>
    if s.stopped || s.engine.isCancelled timer.cancellation then
      some { s with sleeping := s.sleeping.eraseIdx task }
    else none

def act (s : Timers C) : Turn C → Option (Timers C)
  | .tick elapsed => some { s with now := s.now + elapsed }
  | .post message =>
    if NotTimed message then some { s with inbox := s.inbox ++ [message] } else none
  | .handle env => s.handle env
  | .start task => s.start task
  | .fire task => s.fire task
  | .abandon task => s.abandon task
  | .stop => some { s with stopped := true }

end Timers

/-- The engine after a successful `try_init`, with its timers. -/
def timers (C : Type) (config : WorkerEngineConfig) : Machine (Timers C) (Turn C) where
  init s := (engine C config).init s.engine ∧ s.inbox = [] ∧ s.spawned = [] ∧ s.sleeping = [] ∧
    s.stopped = false ∧ s.delivered = []
  step s turn t := s.act turn = some t

/-! ### The timers of a run -/

namespace Timers

variable {config : WorkerEngineConfig} {s t : Timers C}

/-- Every task comes from a timer that the engine submitted. -/
structure Tracked (config : WorkerEngineConfig) (s : Timers C) : Prop where
  reachable : (Engine.engine C config).Reachable s.engine
  spawned : ∀ timer ∈ s.spawned, timer ∈ s.engine.timers
  sleeping : ∀ timer deadline, (timer, deadline) ∈ s.sleeping → timer ∈ s.engine.timers
  delivered : ∀ lease generation time, (lease, generation, time) ∈ s.delivered →
    ∃ timer ∈ s.engine.timers, timer.lease = lease ∧ timer.generation = generation

theorem handle_cases {env : Env C} (h : s.handle env = some t) :
    ∃ message rest engine, s.inbox = message :: rest ∧ s.engine.rootCancelled = false ∧
      s.engine.processMessage (scheduling env) message = .ok engine ∧
      t = { s with
        engine := engine
        inbox := rest
        spawned := s.spawned ++
          (news engine.history s.engine.history).reverse.filterMap Event.timer } := by
  rw [handle] at h
  split at h
  · cases h
  rename_i message rest hi
  split at h
  · cases h
  rename_i hrun
  split at h
  · cases h
  rename_i engine hok
  cases h
  exact ⟨message, rest, engine, hi, by simpa using hrun, hok, rfl⟩

/-- **What a turn does.** -/
theorem act_cases {turn : Turn C} (h : s.act turn = some t) :
    (∃ env, s.handle env = some t) ∨
    (∃ task timer, s.spawned[task]? = some timer ∧ t = { s with
      spawned := s.spawned.eraseIdx task
      sleeping := s.sleeping ++ [(timer, s.now + fromMillis timer.waitDuration)] }) ∨
    (∃ task timer deadline, s.sleeping[task]? = some (timer, deadline) ∧ deadline ≤ s.now ∧
      t = { s with
        sleeping := s.sleeping.eraseIdx task
        inbox := s.inbox ++ [.leaseMaxTimeReached timer.lease timer.generation]
        delivered := (timer.lease, timer.generation, s.now) :: s.delivered }) ∨
    (t.engine = s.engine ∧ s.now ≤ t.now ∧ t.spawned = s.spawned ∧ t.sleeping ⊆ s.sleeping ∧
      t.delivered = s.delivered) := by
  cases turn with
  | tick elapsed =>
    cases h
    exact Or.inr (Or.inr (Or.inr ⟨rfl, Nat.le_add_right _ _, rfl, fun _ h => h, rfl⟩))
  | post message =>
    rw [act] at h
    split at h <;> cases h
    exact Or.inr (Or.inr (Or.inr ⟨rfl, le_refl _, rfl, fun _ h => h, rfl⟩))
  | handle env => exact Or.inl ⟨env, h⟩
  | start task =>
    rw [act, start] at h
    split at h <;> cases h
    rename_i timer ht
    exact Or.inr (Or.inl ⟨task, timer, ht, rfl⟩)
  | fire task =>
    rw [act, fire] at h
    split at h
    · cases h
    rename_i timer deadline ht
    split at h <;> cases h
    rename_i hle
    exact Or.inr (Or.inr (Or.inl ⟨task, timer, deadline, ht, hle, rfl⟩))
  | abandon task =>
    rw [act, abandon] at h
    split at h
    · cases h
    split at h <;> cases h
    exact Or.inr (Or.inr (Or.inr ⟨rfl, le_refl _, rfl, List.eraseIdx_subset, rfl⟩))
  | stop =>
    cases h
    exact Or.inr (Or.inr (Or.inr ⟨rfl, le_refl _, rfl, fun _ h => h, rfl⟩))

theorem Tracked.act {turn : Turn C} (h : s.Tracked config) (hok : s.act turn = some t) :
    t.Tracked config := by
  rcases act_cases hok with ⟨env, hhandle⟩ | ⟨task, timer, ht, rfl⟩ |
    ⟨task, timer, deadline, ht, _, rfl⟩ | ⟨he, _, hs, hsl, hd⟩
  · obtain ⟨message, rest, engine, _, hrun, hm, rfl⟩ := handle_cases hhandle
    have hh := engine_news h.reachable hm
    have htimers : engine.timers =
        (news engine.history s.engine.history).filterMap Event.timer ++ s.engine.timers := by
      rw [WorkerEngine.timers, hh, List.filterMap_append, news_append]
      rfl
    have hold : ∀ timer ∈ s.engine.timers, timer ∈ engine.timers := by
      intro timer ht
      rw [htimers]
      exact List.mem_append_right _ ht
    refine ⟨h.reachable.step (i := (scheduling env, message)) ⟨hrun, hm⟩,
      fun timer ht => ?_, fun timer deadline ht => hold _ (h.sleeping timer deadline ht),
      fun lease generation time ht => ?_⟩
    · rcases List.mem_append.mp ht with ht | ht
      · exact hold _ (h.spawned timer ht)
      · rw [htimers]
        rw [List.filterMap_reverse, List.mem_reverse] at ht
        exact List.mem_append_left _ ht
    · obtain ⟨timer, ht, hp⟩ := h.delivered lease generation time ht
      exact ⟨timer, hold _ ht, hp⟩
  · refine ⟨h.reachable, fun other ho => h.spawned other (List.mem_of_mem_eraseIdx ho),
      fun other deadline ho => ?_, h.delivered⟩
    rcases List.mem_append.mp ho with ho | ho
    · exact h.sleeping other deadline ho
    · cases List.mem_singleton.mp ho
      exact h.spawned timer (List.mem_of_getElem? ht)
  · refine ⟨h.reachable, h.spawned,
      fun other d ho => h.sleeping other d (List.mem_of_mem_eraseIdx ho),
      fun lease generation time hd => ?_⟩
    rcases List.mem_cons.mp hd with heq | hd
    · cases heq
      exact ⟨timer, h.sleeping timer deadline (List.mem_of_getElem? ht), rfl, rfl⟩
    · exact h.delivered lease generation time hd
  · refine ⟨?_, fun timer ht => ?_, fun timer deadline ht => ?_, fun lease generation time ht => ?_⟩
    · rw [he]
      exact h.reachable
    · rw [he]
      exact h.spawned timer (hs ▸ ht)
    · rw [he]
      exact h.sleeping timer deadline (hsl ht)
    · rw [he]
      exact h.delivered lease generation time (hd ▸ ht)

/-- A timer belongs to an assignment and waits for the timeout, modulo `2 ^ 32`. -/
theorem timer_cases {engine : WorkerEngine C} (h : (Engine.engine C config).Reachable engine)
    {timer : Timer} (ht : timer ∈ engine.timers) :
    (∃ database, (timer.lease, timer.generation, database) ∈ engine.assignments) ∧
      timer.waitDuration = config.leaseClaimTimeoutMs % 2 ^ 32 := by
  rw [(engine_numbered h).timers, engine_config h] at ht
  split at ht
  · obtain ⟨⟨lease, generation, database⟩, hm, rfl⟩ := List.mem_map.mp ht
    exact ⟨⟨database, hm⟩, rfl⟩
  · cases ht

/-- The expiry of an assignment made at `start` is due `delay` later, or after that. -/
structure Due (lease : LeaseId) (generation start delay : Nat) (s : Timers C) : Prop where
  now : start ≤ s.now
  sleeping : ∀ timer deadline, (timer, deadline) ∈ s.sleeping → timer.lease = lease →
    timer.generation = generation → start + delay ≤ deadline
  delivered : ∀ time, (lease, generation, time) ∈ s.delivered → start + delay ≤ time

theorem Due.act {lease : LeaseId} {generation start : Nat} {turn : Turn C}
    (h : s.Due lease generation start (fromMillis config.leaseClaimTimeoutMs))
    (htracked : s.Tracked config) (hlt : config.leaseClaimTimeoutMs < 2 ^ 32)
    (hok : s.act turn = some t) :
    t.Due lease generation start (fromMillis config.leaseClaimTimeoutMs) := by
  rcases act_cases hok with ⟨env, hhandle⟩ | ⟨task, timer, ht, rfl⟩ |
    ⟨task, timer, deadline, ht, hle, rfl⟩ | ⟨_, hn, _, hsl, hd⟩
  · obtain ⟨_, _, _, _, _, _, rfl⟩ := handle_cases hhandle
    exact ⟨h.now, h.sleeping, h.delivered⟩
  · refine ⟨h.now, fun other deadline ho hl hg => ?_, h.delivered⟩
    rcases List.mem_append.mp ho with ho | ho
    · exact h.sleeping other deadline ho hl hg
    · cases List.mem_singleton.mp ho
      -- the task sleeps for the whole timeout, from now on
      have hmem := htracked.spawned timer (List.mem_of_getElem? ht)
      have hwait := (timer_cases htracked.reachable hmem).2
      rw [Nat.mod_eq_of_lt hlt] at hwait
      rw [hwait]
      exact Nat.add_le_add_right h.now _
  · refine ⟨h.now, fun other d ho => h.sleeping other d (List.mem_of_mem_eraseIdx ho),
      fun time hd => ?_⟩
    rcases List.mem_cons.mp hd with heq | hd
    · cases heq
      exact (h.sleeping timer deadline (List.mem_of_getElem? ht) rfl rfl).trans hle
    · exact h.delivered time hd
  · refine ⟨h.now.trans hn, fun timer deadline ht => h.sleeping timer deadline (hsl ht),
      fun time ht => ?_⟩
    rw [hd] at ht
    exact h.delivered time ht

end Timers

variable {config : WorkerEngineConfig} {s t : Timers C}

theorem timers_tracked (h : (timers C config).Reachable s) : s.Tracked config := by
  refine h.invariant (fun s hs => ?_) fun s turn t _ hI hstep => hI.act hstep
  obtain ⟨hinit, _, h1, h2, _, h3⟩ := hs
  refine ⟨.of_init hinit, ?_, ?_, ?_⟩
  · simp [h1]
  · simp [h2]
  · simp [h3]

theorem run_due {lease : LeaseId} {generation start : Nat} {is : List (Turn C)}
    (h : (timers C config).Reachable s) (hlt : config.leaseClaimTimeoutMs < 2 ^ 32)
    (hdue : s.Due lease generation start (fromMillis config.leaseClaimTimeoutMs))
    (hr : (timers C config).Run s is t) :
    t.Due lease generation start (fromMillis config.leaseClaimTimeoutMs) := by
  induction hr with
  | nil s => exact hdue
  | cons hst _ ih => exact ih (h.step hst) (hdue.act (timers_tracked h) hlt hst)

/-! ### Punctual expiry -/

/-- The expiry of the assignment waits as long as `attach` waits for a reply: the whole
timeout. -/
def FullDelay (config : WorkerEngineConfig) (lease : LeaseId) (generation : Nat) (s : Timers C) :
    Prop :=
  ∃ timer ∈ s.engine.timers, timer.lease = lease ∧ timer.generation = generation ∧
    timer.waitDuration = config.leaseClaimTimeoutMs ∧
    ∀ (reply : C) now, (attachCall config.leaseClaimTimeoutMs lease reply now).2 =
      some (now + fromMillis timer.waitDuration)

/-- After `s`, the expiry of the assignment made at `start` is not delivered early. -/
def NotEarly (config : WorkerEngineConfig) (lease : LeaseId) (generation start : Nat)
    (s : Timers C) : Prop :=
  ∀ is u time, (timers C config).Run s is u → (lease, generation, time) ∈ u.delivered →
    start + fromMillis config.leaseClaimTimeoutMs ≤ time

/-- A new assignment has a generation of its own, and one timer was spawned for it. -/
theorem handle_assigns {env : Env C} (h : (timers C config).Reachable s)
    (hs : s.handle env = some t) {lease : LeaseId} {generation : Nat} {database : Database}
    (hnew : .assigned lease generation database ∈ news t.engine.history s.engine.history)
    (hpos : 0 < config.leaseClaimTimeoutMs) :
    (∀ timer ∈ s.engine.timers, timer.generation ≠ generation) ∧
      ⟨lease, generation, config.leaseClaimTimeoutMs % 2 ^ 32, generation⟩ ∈ t.spawned := by
  obtain ⟨message, rest, engine, _, hrun, hok, rfl⟩ := Timers.handle_cases hs
  have hr := (timers_tracked h).reachable
  have hnext := hr.step (i := (scheduling env, message)) ⟨hrun, hok⟩
  have hh := engine_news hr hok
  have hnumbered := engine_numbered hnext
  have hassign : engine.assignments =
      (news engine.history s.engine.history).filterMap Event.assigns ++ s.engine.assignments := by
    rw [assignments, hh, List.filterMap_append, news_append]
    rfl
  have htimers : engine.timers =
      (news engine.history s.engine.history).filterMap Event.timer ++ s.engine.timers := by
    rw [WorkerEngine.timers, hh, List.filterMap_append, news_append]
    rfl
  have hmem : (lease, generation, database) ∈
      (news engine.history s.engine.history).filterMap Event.assigns :=
    List.mem_filterMap.mpr ⟨_, hnew, rfl⟩
  have hfresh : ∀ timer ∈ s.engine.timers, timer.generation ≠ generation := by
    intro timer ht heq
    obtain ⟨⟨old, hold⟩, _⟩ := Timers.timer_cases hr ht
    have hdec := hnumbered.decreasing
    rw [hassign] at hdec
    have hlt : timer.generation < generation := (List.pairwise_append.mp hdec).2.2 _ hmem _ hold
    omega
  refine ⟨hfresh, List.mem_append_right _ ?_⟩
  rw [List.filterMap_reverse, List.mem_reverse]
  have hin : ⟨lease, generation, config.leaseClaimTimeoutMs % 2 ^ 32, generation⟩ ∈
      engine.timers := by
    rw [hnumbered.timers, engine_config hnext, if_pos hpos, hassign]
    exact List.mem_map_of_mem (List.mem_append_left _ hmem)
  rw [htimers] at hin
  exact (List.mem_append.mp hin).resolve_right fun hold => hfresh _ hold rfl

/-- A task that was spawned can start, sleep, and send its message on time. -/
theorem fires (config : WorkerEngineConfig) {timer : Timer} (ht : timer ∈ s.spawned) : ∃ is u,
    (timers C config).Run s is u ∧
      (timer.lease, timer.generation, s.now + fromMillis timer.waitDuration) ∈ u.delivered := by
  obtain ⟨task, htask⟩ := List.mem_iff_getElem?.mp ht
  have h1 : s.act (.start task) = some { s with
      spawned := s.spawned.eraseIdx task
      sleeping := s.sleeping ++ [(timer, s.now + fromMillis timer.waitDuration)] } := by
    rw [Timers.act, Timers.start, htask]
  have h3 : ∀ u : Timers C, u.sleeping =
      s.sleeping ++ [(timer, s.now + fromMillis timer.waitDuration)] →
      u.now = s.now + fromMillis timer.waitDuration →
      ∃ v, u.act (.fire s.sleeping.length) = some v ∧
        (timer.lease, timer.generation, s.now + fromMillis timer.waitDuration) ∈ v.delivered := by
    intro u hu hn
    rw [Timers.act, Timers.fire, hu, List.getElem?_concat_length]
    simp only [hn, le_refl, if_true]
    exact ⟨_, rfl, List.mem_cons_self⟩
  obtain ⟨v, hv, hd⟩ := h3 { s with
    spawned := s.spawned.eraseIdx task
    sleeping := s.sleeping ++ [(timer, s.now + fromMillis timer.waitDuration)]
    now := s.now + fromMillis timer.waitDuration } rfl rfl
  exact ⟨[.start task, .tick (fromMillis timer.waitDuration), .fire s.sleeping.length], v,
    .cons h1 (.cons rfl (.single hv)), hd⟩

/-- **A lease expires on time exactly when the timeout fits 32 bits.**  The delay of an
assignment is the whole timeout, and no run delivers its expiry earlier, if and only if
the timeout is below `2 ^ 32` milliseconds. -/
theorem expiry_punctual_iff {env : Env C} (h : (timers C config).Reachable s)
    (hs : (timers C config).step s (.handle env) t) {lease : LeaseId} {generation : Nat}
    {database : Database}
    (hnew : .assigned lease generation database ∈ news t.engine.history s.engine.history)
    (hpos : 0 < config.leaseClaimTimeoutMs) :
    (FullDelay config lease generation t ↔ config.leaseClaimTimeoutMs < 2 ^ 32) ∧
      (NotEarly config lease generation s.now t ↔ config.leaseClaimTimeoutMs < 2 ^ 32) := by
  have hhandle : s.handle env = some t := hs
  have htracked := timers_tracked (h.step hs)
  obtain ⟨hfresh, hspawned⟩ := handle_assigns h hhandle hnew hpos
  have hnow : t.now = s.now := by
    obtain ⟨_, _, _, _, _, _, rfl⟩ := Timers.handle_cases hhandle
    rfl
  refine ⟨⟨fun hfull => ?_, fun hlt => ?_⟩, fun hearly => ?_, fun hlt => ?_⟩
  · obtain ⟨timer, ht, _, _, hwait, _⟩ := hfull
    rw [(Timers.timer_cases htracked.reachable ht).2] at hwait
    omega
  · refine ⟨_, htracked.spawned _ hspawned, rfl, rfl, Nat.mod_eq_of_lt hlt, fun reply now => ?_⟩
    rw [attachCall, if_neg (by omega), Nat.mod_eq_of_lt hlt]
  · obtain ⟨is, u, hr, hd⟩ := fires config hspawned
    have hle := hearly is u _ hr hd
    rw [hnow] at hle
    have hmul : config.leaseClaimTimeoutMs * 1000000 ≤
        config.leaseClaimTimeoutMs % 2 ^ 32 * 1000000 := Nat.le_of_add_le_add_left hle
    omega
  · intro is u time hr hd
    have hdue : t.Due lease generation s.now (fromMillis config.leaseClaimTimeoutMs) := by
      have hold := timers_tracked h
      obtain ⟨_, _, _, _, _, _, rfl⟩ := Timers.handle_cases hhandle
      refine ⟨le_refl _, fun timer deadline ht _ hg => ?_, fun time hd => ?_⟩
      · exact absurd hg (hfresh timer (hold.sleeping timer deadline ht))
      · obtain ⟨timer, ht, _, hg⟩ := hold.delivered lease generation time hd
        exact absurd hg (hfresh timer ht)
    exact (run_due (h.step hs) hlt hdue hr).delivered time hd

/-! ### Small and large timeouts -/

namespace TimersSample

open Engine.Sample (settings reports leaseA)

/-- The small engine, with a timeout of `2 ^ 32 + 5` milliseconds. -/
def practicallyNever : WorkerEngineConfig :=
  { settings with leaseClaimTimeoutMs := 2 ^ 32 + 5 }

/-- The timers after `try_init` and then `turns`, from instant `0` on. -/
def after (config : WorkerEngineConfig) (turns : List (Turn Nat)) : Option (Timers Nat) :=
  match (WorkerEngine.new config).tryInit reports with
  | .ok (.ok (), engine) => turns.foldlM Timers.act ⟨engine, 0, [], [], [], false, []⟩
  | _ => none

theorem reachable_after {config : WorkerEngineConfig} {turns : List (Turn Nat)} {s : Timers Nat}
    (h : after config turns = some s) : (timers Nat config).Reachable s := by
  rw [after] at h
  split at h
  case h_1 engine he =>
    exact .run (.of_init ⟨⟨_, he⟩, rfl, rfl, rfl, rfl, rfl⟩) (.of_foldlM (fun _ _ _ h => h) h)
  case h_2 => cases h

/-- The first lease is assigned at instant `0`. -/
theorem assigns (config : WorkerEngineConfig) (p : Timers Nat → Prop) [DecidablePred p]
    (h : ((after config [.post (.attachOrJoin leaseA 0 0)]).any fun s =>
      (s.handle Engine.Sample.env).any fun t => decide (p t ∧ s.now = 0 ∧
        .assigned leaseA 1 ⟨1, "first"⟩ ∈ news t.engine.history s.engine.history)) = true) :
    ∃ s t, (timers Nat config).Reachable s ∧
      (timers Nat config).step s (.handle Engine.Sample.env) t ∧ p t ∧ s.now = 0 ∧
      .assigned leaseA 1 ⟨1, "first"⟩ ∈ news t.engine.history s.engine.history := by
  obtain ⟨s, hs, hany⟩ := (Option.any_eq_true _ _).mp h
  obtain ⟨t, ht, hp⟩ := (Option.any_eq_true _ _).mp hany
  exact ⟨s, t, reachable_after hs, ht, of_decide_eq_true hp⟩

end TimersSample

/-- With the timeout of the small engine a lease expires on time. -/
theorem expiry_punctual_small : ∃ s t, (timers Nat Engine.Sample.settings).Reachable s ∧
    (timers Nat Engine.Sample.settings).step s (.handle Engine.Sample.env) t ∧
    FullDelay Engine.Sample.settings Engine.Sample.leaseA 1 t ∧
    NotEarly Engine.Sample.settings Engine.Sample.leaseA 1 s.now t := by
  obtain ⟨s, t, hr, hs, _, _, hnew⟩ :=
    TimersSample.assigns Engine.Sample.settings (fun _ => True) (by decide)
  have h := expiry_punctual_iff hr hs hnew (by decide)
  exact ⟨s, t, hr, hs, h.1.mpr (by decide), h.2.mpr (by decide)⟩

/-- With a timeout of `2 ^ 32 + 5` milliseconds it expires after five. -/
theorem expiry_early : ∃ s t, (timers Nat TimersSample.practicallyNever).Reachable s ∧
    (timers Nat TimersSample.practicallyNever).step s (.handle Engine.Sample.env) t ∧
    .assigned Engine.Sample.leaseA 1 ⟨1, "first"⟩ ∈ news t.engine.history s.engine.history ∧
    ¬FullDelay TimersSample.practicallyNever Engine.Sample.leaseA 1 t ∧
    (∃ is u, (timers Nat TimersSample.practicallyNever).Run t is u ∧
      (Engine.Sample.leaseA, 1, s.now + fromMillis 5) ∈ u.delivered) ∧
    ¬NotEarly TimersSample.practicallyNever Engine.Sample.leaseA 1 s.now t := by
  obtain ⟨s, t, hr, hs, ⟨hall, hrun⟩, hnow, hnew⟩ :=
    TimersSample.assigns TimersSample.practicallyNever
      (fun t => (∀ timer ∈ t.engine.timers, timer.waitDuration = 5) ∧
        ([.start 0, .tick (fromMillis 5), .fire 0].foldlM Timers.act t).any
          (fun u => decide ((Engine.Sample.leaseA, 1, fromMillis 5) ∈ u.delivered)) = true)
      (by decide)
  obtain ⟨u, hu, hp⟩ := (Option.any_eq_true _ _).mp hrun
  have hd := of_decide_eq_true hp
  have hstep : (timers Nat TimersSample.practicallyNever).Run t _ u :=
    .of_foldlM (fun _ _ _ h => h) hu
  refine ⟨s, t, hr, hs, hnew, ?_, ⟨_, u, hstep, ?_⟩, fun hearly => ?_⟩
  · rintro ⟨timer, ht, _, _, hwait, _⟩
    rw [hall timer ht] at hwait
    exact absurd hwait (by decide)
  · rw [hnow, Nat.zero_add]
    exact hd
  · have hle := hearly _ u _ hstep hd
    rw [hnow] at hle
    exact absurd hle (by decide)

end PgTest.Manager
