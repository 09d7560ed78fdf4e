import PgTest.Manager.Composition

/-!
# Shutdown

`WorkerEngineManager::shutdown` takes the manager, so nobody is inside a call.  It
cancels its token, waits until the tracker is empty, sends `Shutdown` and waits for the
engine.

`Stopping` is the invariant of all this.  After the wait no task is left that sends
anything to the database server (`Quiet`), and the engine stops after the messages in front of
`Shutdown`, whatever is posted behind it.  Until then the tasks can always end by
themselves, each in a step that `tasks` counts.
-/

namespace PgTest.Manager

open PgTest.Lib PgTest.Engine PgTest.Engine.WorkerEngine

def isShutdown : Message → Bool
  | .shutdown => true
  | _ => false

/-- A step with which a task of the tracker ends, or the wait for them. -/
def Activity.Ends : Activity → Prop
  | .endCreationWorker | .endCleanupWorker | .endBatch _ | .endDrop _ | .time (.start _)
  | .time (.abandon _) | .waited => True
  | _ => False

def Activity.handles : Activity → Bool
  | .handle _ _ => true
  | _ => false

/-- The activity calls the manager, or works for it. -/
def Activity.Serves : Activity → Prop
  | .call (.attach _ _) | .call (.release _) | .call (.attachEnds _) | .call (.dropReceiver _)
  | .work _ => True
  | _ => False

namespace WorkerEngineManager

variable {config : WorkerEngineConfig} {s t : WorkerEngineManager}

/-- Nobody sends a statement for the manager: both workers are gone with their queues, and
every task of theirs ended.  What PostgreSQL has begun it may still carry out. -/
structure Quiet (s : WorkerEngineManager) : Prop where
  creationWorker : s.creationWorker = false
  cleanupWorker : s.cleanupWorker = false
  creationInbox : s.creationInbox = []
  cleanupInbox : s.cleanupInbox = []
  batches : ∀ batch ∈ s.batches, batch.unreported = []
  drops : s.drops = []

/-- **The invariant of `shutdown`.** -/
structure Stopping (s : WorkerEngineManager) : Prop where
  alone : s.phase ≠ .serving → ∀ channel ∈ s.channels, channel = .closed
  running : s.phase ≠ .closing → s.engine.rootCancelled = false
  unsent : s.phase ≠ .closing → ∀ message ∈ s.inbox, isShutdown message = false
  creation : s.creationWorker = false → s.creationInbox = []
  cleanup : s.cleanupWorker = false → s.cleanupInbox = []
  quiet : s.phase = .closing → s.Quiet
  sent : s.phase = .closing → s.engine.rootCancelled = false →
    s.inbox.countP isShutdown = 1

/-! ### What a step posts -/

/-- Only `shutdown` sends `Shutdown`. -/
theorem Did.posts {activity : Activity} (h : s.Did activity t)
    (hne : ∀ env elapsed, activity ≠ .handle env elapsed) (hw : activity ≠ .waited) :
    t.engine = s.engine ∧ ∃ messages, t.inbox = s.inbox ++ messages ∧
      ∀ message ∈ messages, isShutdown message = false := by
  have hnone : ∃ messages, s.inbox = s.inbox ++ messages ∧
      ∀ message ∈ messages, isShutdown message = false :=
    ⟨[], (List.append_nil _).symm, fun _ hm => absurd hm List.not_mem_nil⟩
  cases h with
  | handle _ => exact absurd rfl (hne _ _)
  | waited _ _ => exact absurd rfl hw
  | call hc h =>
    obtain ⟨he, messages, hi, hm⟩ := call_posts hc h
    refine ⟨he, messages, hi, fun message hmem => ?_⟩
    cases message with
    | shutdown => exact absurd (hm _ hmem).1 Bool.false_ne_true
    | attachOrJoin _ _ _ | releaseLease _ _ | detach _ _ | leaseMaxTimeReached _ _
    | databaseWorker _ => rfl
  | @work job workers hworks h =>
    refine ⟨rfl, ?_⟩
    show ∃ messages, workers.inbox = _ ∧ _
    obtain ⟨_, _, hi | ⟨message, hi⟩⟩ := work_posts hworks h
    · rw [hi]
      exact hnone
    · exact ⟨_, hi, fun message hm => (List.mem_singleton.mp hm) ▸ rfl⟩
  | @time turn timers ht h =>
    refine ⟨rfl, ?_⟩
    show ∃ messages, timers.inbox = _ ∧ _
    obtain ⟨_, _, _, hi | ⟨lease, generation, hi⟩⟩ := time_posts ht h
    · rw [hi]
      exact hnone
    · exact ⟨_, hi, fun message hm => (List.mem_singleton.mp hm) ▸ rfl⟩
  | shutdown _ _ | endCreationWorker _ | endCleanupWorker _ | endBatch _ _ | endDrop _ _ =>
    exact ⟨rfl, hnone⟩

/-- The engine takes its message from the inbox, and stops with `Shutdown` only. -/
theorem Handled.takes {env : Env ConsumerWorker} {elapsed : Nat} {message : Message}
    {rest : List Message} {callers : System} (hr : (manager config).Reachable s)
    (h : s.Handled env elapsed t message rest callers) :
    t.inbox = rest ∧ t.engine.rootCancelled = (isShutdown message || s.engine.rootCancelled) := by
  obtain ⟨hok, hrest⟩ := h.spec (manager_system hr)
  rw [h.after]
  refine ⟨hrest, ?_⟩
  show callers.engine.rootCancelled = _
  cases message with
  | shutdown =>
    have hok : Except.ok { s.engine with rootCancelled := true } = Except.ok callers.engine := hok
    rw [← Except.ok.inj hok]
    rfl
  | attachOrJoin _ _ _ | releaseLease _ _ | detach _ _ | leaseMaxTimeReached _ _
  | databaseWorker _ =>
    refine engine_running (manager_engine hr) ?_ hok
    exact nofun

/-! ### The invariant -/

theorem closed_reply {message : ConsumerReply} {worker : ConsumerWorker} {channel : Channel}
    {outcome : Bool} {posted : List Message}
    (h : worker.reply message .closed = some (channel, outcome, posted)) : channel = .closed := by
  cases h
  rfl

/-- A closed channel stays closed. -/
theorem answers_closed : ∀ {events : List (Event ConsumerWorker)} {u v : System},
    (∀ channel ∈ u.channels, channel = .closed) → System.answers events u = some v →
    ∀ channel ∈ v.channels, channel = .closed := by
  intro events
  induction events with
  | nil =>
    intro u v hu h
    cases h
    exact hu
  | cons event earlier ih =>
    intro u v hu h
    obtain ⟨w, h1, h2⟩ := Option.bind_eq_some_iff.mp h
    have hw := ih hu h1
    cases event with
    | reply lease worker message behind delivered =>
      rw [System.answer] at h2
      split at h2
      case h_2 => cases h2
      case h_1 channel outcome posted hb =>
        split at h2 <;> cases h2
        obtain ⟨before, hc, hreply⟩ := Option.bind_eq_some_iff.mp hb
        rw [hw before (List.mem_of_getElem? hc)] at hreply
        intro other ho
        rcases List.mem_or_eq_of_mem_set ho with ho | rfl
        · exact hw other ho
        · exact closed_reply hreply
    | expired lease worker =>
      cases h2
      intro channel hc
      obtain ⟨i, hi⟩ := List.mem_iff_getElem?.mp hc
      rw [List.getElem?_modify] at hi
      obtain ⟨before, hb, rfl⟩ := Option.map_eq_some_iff.mp hi
      rw [hw before (List.mem_of_getElem? hb)]
      split <;> rfl
    | assigned _ _ _ | scheduled _ _ _ _ _ | cancelled _ | returned _ _ _ | requestedCreation _ _
    | requestedCleanup _ _ | created _ | creationFailed _ | cleaned _ | detached _ _ | grew =>
      cases h2
      exact hw

/-- While `shutdown` runs, nobody calls. -/
theorem Did.alone {activity : Activity} (h : s.Did activity t)
    (hs : s.phase ≠ .serving → ∀ channel ∈ s.channels, channel = .closed)
    (hp : t.phase ≠ .serving) : ∀ channel ∈ t.channels, channel = .closed := by
  cases h with
  | @call action callers hc h =>
    have hs := hs hp
    cases action with
    | attach _ _ =>
      rw [calls, decide_eq_true_eq] at hc
      exact absurd hc.1 hp
    | release _ =>
      rw [calls, decide_eq_true_eq] at hc
      exact absurd hc hp
    | attachEnds channel =>
      rw [System.act] at h
      split at h
      case h_1 reply hi => cases hs _ (List.mem_of_getElem? hi)
      case h_2 => cases h
    | dropReceiver channel =>
      rw [System.act] at h
      split at h
      case h_1 hi => cases hs _ (List.mem_of_getElem? hi)
      case h_2 reply hi => cases hs _ (List.mem_of_getElem? hi)
      case h_3 => cases h
    | dropSession index =>
      rw [System.act] at h
      split at h <;> cases h
      exact hs
    | leaseTimer _ _ | databaseWorker _ | shutdown | handle _ => cases hc
  | handle h =>
    rw [h.after] at hp ⊢
    obtain ⟨_, _, _, _, _, hanswers⟩ := System.handle_cases h.handle
    refine answers_closed ?_ hanswers
    exact hs hp
  | shutdown _ halone => exact halone
  | waited hwait _ => exact hs fun hserving => Phase.noConfusion (hwait.symm.trans hserving)
  | work _ _ | time _ _ | endCreationWorker _ | endCleanupWorker _ | endBatch _ _ | endDrop _ _ =>
    exact hs hp

/-- The workers do nothing once the token is cancelled. -/
theorem serving_of_works {job : Job ConsumerWorker} (h : s.works job = true) :
    s.phase = .serving := by
  cases job with
  | startBatch | report _ _ _ | startDrop | finishDrop _ _ => exact of_decide_eq_true h
  | post _ | handle _ => cases h

/-- A worker that is gone has no queue. -/
theorem Did.queues {activity : Activity} (h : s.Did activity t)
    (hc : s.creationWorker = false → s.creationInbox = [])
    (hd : s.cleanupWorker = false → s.cleanupInbox = [])
    (hp : s.phase = .serving → s.creationWorker = true ∧ s.cleanupWorker = true) :
    (t.creationWorker = false → t.creationInbox = []) ∧
      (t.cleanupWorker = false → t.cleanupInbox = []) := by
  cases h with
  | work hw _ =>
    obtain ⟨h1, h2⟩ := hp (serving_of_works hw)
    exact ⟨fun h => absurd (h1.symm.trans h) nofun, fun h => absurd (h2.symm.trans h) nofun⟩
  | handle h =>
    rw [h.after]
    refine ⟨fun hf => ?_, fun hf => ?_⟩
    · have hf : s.creationWorker = false := hf
      simp only [sendAll, hf, Bool.false_eq_true, if_false, hc hf]
    · have hf : s.cleanupWorker = false := hf
      simp only [sendAll, hf, Bool.false_eq_true, if_false, hd hf]
  | endCreationWorker _ => exact ⟨fun _ => rfl, hd⟩
  | endCleanupWorker _ => exact ⟨hc, fun _ => rfl⟩
  | call _ _ | time _ _ | shutdown _ _ | endBatch _ _ | endDrop _ _ | waited _ _ => exact ⟨hc, hd⟩

/-- **Quiet stays quiet.** -/
theorem Did.quiet {activity : Activity} (h : s.Did activity t) (hq : s.Quiet)
    (hp : s.phase = .closing) : t.Quiet ∧ t.phase = .closing := by
  have hne : s.phase ≠ .serving := hp ▸ nofun
  obtain ⟨hcreation, hcleanup⟩ := h.queues (fun _ => hq.creationInbox) (fun _ => hq.cleanupInbox)
    fun hs => absurd hs hne
  cases h with
  | work hw _ => exact absurd (serving_of_works hw) hne
  | shutdown hs _ => exact absurd hs hne
  | waited hw _ => cases hw.symm.trans hp
  | handle hh =>
    have hsame : t.creationWorker = s.creationWorker ∧ t.cleanupWorker = s.cleanupWorker ∧
        t.batches = s.batches ∧ t.drops = s.drops ∧ t.phase = s.phase := by
      rw [hh.after]
      exact ⟨rfl, rfl, rfl, rfl, rfl⟩
    obtain ⟨h1, h2, h3, h4, h5⟩ := hsame
    rw [hq.creationWorker] at h1
    rw [hq.cleanupWorker] at h2
    rw [hq.drops] at h4
    exact ⟨⟨h1, h2, hcreation h1, hcleanup h2, h3 ▸ hq.batches, h4⟩, h5.trans hp⟩
  | endBatch _ _ =>
    refine ⟨⟨hq.creationWorker, hq.cleanupWorker, hq.creationInbox, hq.cleanupInbox, ?_,
      hq.drops⟩, hp⟩
    exact fun batch hb => hq.batches batch (List.mem_of_mem_eraseIdx hb)
  | @endDrop drop _ hlt =>
    rw [hq.drops] at hlt
    exact absurd hlt (Nat.not_lt_zero _)
  | endCreationWorker _ =>
    exact ⟨⟨rfl, hq.cleanupWorker, rfl, hq.cleanupInbox, hq.batches, hq.drops⟩, hp⟩
  | endCleanupWorker _ =>
    exact ⟨⟨hq.creationWorker, rfl, hq.creationInbox, rfl, hq.batches, hq.drops⟩, hp⟩
  | call _ _ | time _ _ =>
    exact ⟨⟨hq.creationWorker, hq.cleanupWorker, hq.creationInbox, hq.cleanupInbox, hq.batches,
      hq.drops⟩, hp⟩

/-- An idle tracker leaves nothing to do, with the queues of the workers gone. -/
theorem quiet_of_idle (h : s.idle = true) (hc : s.creationWorker = false → s.creationInbox = [])
    (hd : s.cleanupWorker = false → s.cleanupInbox = []) : s.Quiet := by
  simp only [idle, Bool.and_eq_true, Bool.not_eq_true', List.all_eq_true, List.isEmpty_iff] at h
  obtain ⟨⟨⟨⟨⟨h1, h2⟩, h3⟩, h4⟩, _⟩, _⟩ := h
  exact ⟨h1, h2, hc h1, hd h2, h3, h4⟩

theorem countP_unsent {messages : List Message}
    (h : ∀ message ∈ messages, isShutdown message = false) : messages.countP isShutdown = 0 :=
  List.countP_eq_zero.mpr fun message hm => by simp [h message hm]

/-- The phase moves on with `shutdown` and with the end of its wait only. -/
theorem Did.phase {activity : Activity} (h : s.Did activity t) (hs : activity ≠ .shutdown)
    (hw : activity ≠ .waited) : t.phase = s.phase := by
  cases h with
  | shutdown _ _ => exact absurd rfl hs
  | waited _ _ => exact absurd rfl hw
  | handle h => rw [h.after]
  | call _ _ | work _ _ | time _ _ | endCreationWorker _ | endCleanupWorker _ | endBatch _ _
  | endDrop _ _ => rfl

/-- **Every step keeps the invariant.** -/
theorem Stopping.did {activity : Activity} (h : s.Stopping) (hr : (manager config).Reachable s)
    (hrun : s.engine.rootCancelled = false) (hd : s.Did activity t) : t.Stopping := by
  have halone := hd.alone h.alone
  obtain ⟨hcreation, hcleanup⟩ := hd.queues h.creation h.cleanup fun hp =>
    ⟨((manager_components hr).2.2 hp).1, ((manager_components hr).2.2 hp).2.1⟩
  by_cases hw : activity = .waited
  · subst hw
    cases hd with
    | waited hp hidle =>
      have hcount : (s.inbox ++ [EngineMessage.shutdown]).countP isShutdown = 1 := by
        rw [List.countP_append, countP_unsent (h.unsent (hp ▸ nofun))]
        rfl
      exact ⟨halone, fun hne => absurd rfl hne, fun hne => absurd rfl hne, hcreation, hcleanup,
        fun _ => quiet_of_idle hidle h.creation h.cleanup, fun _ _ => hcount⟩
  have hclosing : t.phase = .closing → s.phase = .closing := by
    intro hp
    by_cases hs : activity = .shutdown
    · subst hs
      cases hd with
      | shutdown _ _ => cases hp
    · exact (hd.phase hs hw).symm.trans hp
  have hquiet : t.phase = .closing → t.Quiet := fun hp =>
    (hd.quiet (h.quiet (hclosing hp)) (hclosing hp)).1
  have hopen : t.phase ≠ .closing → s.phase ≠ .closing := by
    intro hp hs
    exact hp (hd.quiet (h.quiet hs) hs).2
  by_cases hhandle : ∃ env elapsed, activity = .handle env elapsed
  · obtain ⟨env, elapsed, rfl⟩ := hhandle
    cases hd with
    | @handle _ _ _ message rest callers hh =>
      obtain ⟨hi, hstop⟩ := hh.takes hr
      have hmem : ∀ m ∈ rest, m ∈ s.inbox := fun m hm => hh.inbox ▸ List.mem_cons_of_mem _ hm
      refine ⟨halone, fun hp => ?_, fun hp m hm => ?_, hcreation, hcleanup, hquiet,
        fun hp hrun' => ?_⟩
      · rw [hstop, h.unsent (hopen hp) message (hh.inbox ▸ List.mem_cons_self), hrun]
        rfl
      · exact h.unsent (hopen hp) m (hmem m (hi ▸ hm))
      · have hone := h.sent (hclosing hp) hrun
        rw [hrun', hrun, Bool.or_false] at hstop
        rw [hh.inbox, List.countP_cons, ← hstop] at hone
        rw [hi]
        exact hone
  · obtain ⟨he, messages, hi, hm⟩ :=
      hd.posts (fun env elapsed heq => hhandle ⟨env, elapsed, heq⟩) hw
    refine ⟨halone, fun hp => he ▸ hrun, fun hp m hmem => ?_, hcreation, hcleanup, hquiet,
      fun hp hrun' => ?_⟩
    · rw [hi] at hmem
      rcases List.mem_append.mp hmem with hmem | hmem
      · exact h.unsent (hopen hp) m hmem
      · exact hm m hmem
    · rw [hi, List.countP_append, countP_unsent hm, h.sent (hclosing hp) hrun]

theorem manager_stopping (h : (manager config).Reachable s) : s.Stopping := by
  refine h.invariant ?_ fun s activity t hr hI hstep =>
    hI.did hr hstep.1 (WorkerEngineManager.did hstep.2.2)
  rintro s ⟨reports, engine, now, _, hok, rfl⟩
  exact ⟨fun h => absurd rfl h, fun _ => init_running ⟨reports, hok⟩,
    fun _ m hm => absurd hm List.not_mem_nil, nofun, nofun, nofun, nofun⟩

/-! ### The wait for the tracker -/

/-- How many steps the tasks of the tracker take to end. -/
def tasks (s : WorkerEngineManager) : Nat :=
  s.creationWorker.toNat + s.cleanupWorker.toNat + s.batches.length + s.drops.length +
    2 * s.spawned.length + s.sleeping.length

/-- **While the tracker is not empty some task can end.** -/
theorem ends_step (hp : s.phase = .waiting) (hidle : s.idle = false) :
    ∃ activity t, activity.Ends ∧ s.act activity = some t ∧ t.phase = .waiting ∧
      t.engine = s.engine ∧ t.tasks < s.tasks := by
  have hne : s.phase ≠ .serving := hp ▸ nofun
  by_cases hc : s.creationWorker = true
  · refine ⟨.endCreationWorker, _, trivial, if_pos hne, hp, rfl, ?_⟩
    simp only [tasks, hc, Bool.toNat_true, Bool.toNat_false]
    omega
  by_cases hd : s.cleanupWorker = true
  · refine ⟨.endCleanupWorker, _, trivial, if_pos hne, hp, rfl, ?_⟩
    simp only [tasks, hd, Bool.toNat_true, Bool.toNat_false]
    omega
  cases hb : s.batches with
  | cons batch batches =>
    have hlt : 0 < s.batches.length := by simp [hb]
    refine ⟨.endBatch 0, _, trivial, if_pos ⟨hne, hlt⟩, hp, rfl, ?_⟩
    simp only [tasks, hb, List.eraseIdx_zero, List.tail_cons, List.length_cons]
    omega
  | nil =>
    cases hdrops : s.drops with
    | cons request drops =>
      have hlt : 0 < s.drops.length := by simp [hdrops]
      refine ⟨.endDrop 0, _, trivial, if_pos ⟨hne, hlt⟩, hp, rfl, ?_⟩
      simp only [tasks, hdrops, List.eraseIdx_zero, List.tail_cons, List.length_cons]
      omega
    | nil =>
      cases hsp : s.spawned with
      | cons timer spawned =>
        have hact : s.act (.time (.start 0)) = (s.timers.start 0).map s.withTimers := rfl
        have hget : s.timers.spawned[0]? = some timer := by
          rw [show s.timers.spawned = s.spawned from rfl, hsp]
          rfl
        simp only [Timers.start, hget, Option.map_some] at hact
        refine ⟨.time (.start 0), _, trivial, hact, hp, rfl, ?_⟩
        simp only [tasks, withTimers, WorkerEngineManager.timers, hsp, List.eraseIdx_zero,
          List.tail_cons, List.length_cons, List.length_append, List.length_nil]
        omega
      | nil =>
        cases hsl : s.sleeping with
        | cons entry sleeping =>
          obtain ⟨timer, deadline⟩ := entry
          have hact : s.act (.time (.abandon 0)) = (s.timers.abandon 0).map s.withTimers := rfl
          have hget : s.timers.sleeping[0]? = some (timer, deadline) := by
            rw [show s.timers.sleeping = s.sleeping from rfl, hsl]
            rfl
          have hstop : s.timers.stopped = true := decide_eq_true hne
          simp only [Timers.abandon, hget, hstop, Bool.true_or, if_true, Option.map_some] at hact
          refine ⟨.time (.abandon 0), _, trivial, hact, hp, rfl, ?_⟩
          simp only [tasks, withTimers, WorkerEngineManager.timers, hsl, List.eraseIdx_zero,
            List.tail_cons, List.length_cons]
          omega
        | nil =>
          simp [idle, hc, hd, hb, hdrops, hsp, hsl] at hidle

theorem onTime_of_ends {activity : Activity} (h : activity.Ends) : s.OnTime activity := by
  cases activity with
  | handle _ _ => exact h.elim
  | call _ | work _ | time _ | shutdown | endCreationWorker | endCleanupWorker | endBatch _
  | endDrop _ | waited => exact trivial

/-- **The tasks can end, and then the wait does.** -/
theorem ends_run (config : WorkerEngineConfig) (hp : s.phase = .waiting)
    (hrun : s.engine.rootCancelled = false) :
    ∃ is t, (manager config).Run s is t ∧ is.length ≤ s.tasks + 1 ∧
      (∀ activity ∈ is, activity.Ends) ∧ t.phase = .closing := by
  -- the wait itself is one more step
  obtain ⟨is, t, hr, hlen, hall, _, ht⟩ := Machine.Run.toward (M := manager config)
    (m := fun s => if s.phase = .closing then 0 else s.tasks + 1) (P := Activity.Ends)
    (G := fun s => s.phase = .closing)
    (I := fun s => s.phase = .closing ∨ s.phase = .waiting ∧ s.engine.rootCancelled = false)
    (by
      intro u hu hopen
      obtain ⟨hp, hrun⟩ := hu.resolve_left hopen
      by_cases hidle : u.idle = true
      · refine ⟨.waited, _, trivial, ⟨hrun, trivial, if_pos ⟨hp, hidle⟩⟩, Or.inl rfl, ?_⟩
        simp [hp]
      · obtain ⟨activity, v, hends, hact, hv, he, hlt⟩ :=
          ends_step hp (Bool.eq_false_iff.mpr hidle)
        refine ⟨activity, v, hends, ⟨hrun, onTime_of_ends hends, hact⟩, Or.inr ⟨hv, he ▸ hrun⟩,
          ?_⟩
        simp only [hp, hv, reduceCtorEq, if_false]
        omega)
    (Or.inr ⟨hp, hrun⟩)
  rw [hp, if_neg (by simp)] at hlen
  exact ⟨is, t, hr, hlen, hall, ht⟩

/-! ### The wait for the engine -/

/-- **The engine stops with the message behind those in front of `Shutdown`.** -/
theorem closing_run : ∀ {is : List Activity} {s t : WorkerEngineManager}
    {earlier later : List Message}, (manager config).Reachable s → s.phase = .closing →
    s.engine.rootCancelled = false → s.inbox = earlier ++ .shutdown :: later →
    (∀ message ∈ earlier, isShutdown message = false) → (manager config).Run s is t →
    is.countP Activity.handles ≤ earlier.length + 1 ∧
      (t.engine.rootCancelled = true ↔ is.countP Activity.handles = earlier.length + 1) := by
  intro is
  induction is with
  | nil =>
    intro s t earlier later _ _ hrun _ _ h
    cases h
    refine ⟨by simp, ?_⟩
    rw [hrun]
    simp
  | cons activity is ih =>
    intro s t earlier later hr hp hrun hi hun h
    cases h with
    | @cons _ u _ _ _ hstep hrest =>
      have hdid := did hstep.2.2
      have hu := hr.step hstep
      have hpu := (hdid.quiet ((manager_stopping hr).quiet hp) hp).2
      by_cases hhandle : ∃ env elapsed, activity = .handle env elapsed
      · obtain ⟨env, elapsed, rfl⟩ := hhandle
        rw [List.countP_cons_of_pos rfl]
        cases hdid with
        | @handle _ _ _ message rest callers hh =>
          obtain ⟨hinbox, hstop⟩ := hh.takes hr
          rw [hrun, Bool.or_false] at hstop
          have heq : message :: rest = earlier ++ .shutdown :: later := hh.inbox.symm.trans hi
          cases earlier with
          | nil =>
            cases heq
            -- this was `Shutdown`, and nothing follows
            cases hrest with
            | nil _ =>
              rw [show t.engine.rootCancelled = true from hstop]
              simp
            | cons hnext _ => exact absurd (hnext.1.symm.trans hstop) nofun
          | cons first earlier =>
            cases heq
            have hrunu : u.engine.rootCancelled = false :=
              hstop.trans (hun message List.mem_cons_self)
            obtain ⟨hle, hiff⟩ := ih hu hpu hrunu hinbox
              (fun m hm => hun m (List.mem_cons_of_mem _ hm)) hrest
            rw [List.length_cons, hiff]
            omega
      · have hne : ∀ env elapsed, activity ≠ .handle env elapsed := fun env elapsed h =>
          hhandle ⟨env, elapsed, h⟩
        have hw : activity ≠ .waited := by
          rintro rfl
          cases hdid with
          | waited hwait _ => cases hwait.symm.trans hp
        obtain ⟨he, messages, hinbox, _⟩ := hdid.posts hne hw
        rw [hi, List.append_assoc, List.cons_append] at hinbox
        have hcount : Activity.handles activity = false := by
          cases activity with
          | handle env elapsed => exact absurd rfl (hne env elapsed)
          | call _ | work _ | time _ | shutdown | endCreationWorker | endCleanupWorker
          | endBatch _ | endDrop _ | waited => rfl
        rw [List.countP_cons_of_neg (by simp [hcount])]
        exact ih hu hpu (he ▸ hrun) hinbox hun hrest

/-- Once the token is cancelled nobody is served. -/
theorem Did.unserved {activity : Activity} (h : s.Did activity t) (hs : s.Stopping)
    (hp : s.phase ≠ .serving) : ¬activity.Serves ∧ t.phase ≠ .serving := by
  have halone := hs.alone hp
  cases h with
  | @call action _ hc h =>
    refine ⟨fun hserves => ?_, hp⟩
    cases action with
    | attach _ _ =>
      rw [calls, decide_eq_true_eq] at hc
      exact hp hc.1
    | release _ =>
      rw [calls, decide_eq_true_eq] at hc
      exact hp hc
    | attachEnds channel =>
      rw [System.act] at h
      split at h
      case h_1 reply hi => cases halone _ (List.mem_of_getElem? hi)
      case h_2 => cases h
    | dropReceiver channel =>
      rw [System.act] at h
      split at h
      case h_1 hi => cases halone _ (List.mem_of_getElem? hi)
      case h_2 reply hi => cases halone _ (List.mem_of_getElem? hi)
      case h_3 => cases h
    | dropSession _ | leaseTimer _ _ | databaseWorker _ | shutdown | handle _ => exact hserves
  | work hw _ => exact absurd (serving_of_works hw) hp
  | shutdown _ _ | waited _ _ => exact ⟨id, fun hserving => Phase.noConfusion hserving⟩
  | handle hh =>
    rw [hh.after]
    exact ⟨id, hp⟩
  | time _ _ | endCreationWorker _ | endCleanupWorker _ | endBatch _ _ | endDrop _ _ =>
    exact ⟨id, hp⟩

end WorkerEngineManager

/-! ### `shutdown` -/

open WorkerEngineManager

variable {config : WorkerEngineConfig} {s t : WorkerEngineManager}

/-- **After the cancellation nobody is served, and after the wait no worker runs.**  From
the moment in which `shutdown` cancels its token no call starts or ends, no worker takes
a request, and no result is reported.  Once its wait for the tracker is over, and from then
on, both workers and all their tasks are gone, so nothing more is sent to PostgreSQL; a
statement that PostgreSQL has begun may still be carried out. -/
theorem shutdown_serves_nobody (h : (manager config).Reachable s) (hp : s.phase ≠ .serving)
    {is : List Activity} (hr : (manager config).Run s is t) :
    (∀ activity ∈ is, ¬activity.Serves) ∧ t.phase ≠ .serving ∧
      (∀ channel ∈ t.channels, channel = .closed) ∧ (t.phase = .closing → t.Quiet) ∧
      (s.phase = .closing → t.phase = .closing) := by
  induction hr with
  | nil s =>
    have hs := manager_stopping h
    exact ⟨fun _ hm => absurd hm List.not_mem_nil, hp, hs.alone hp, hs.quiet, id⟩
  | cons hst _ ih =>
    have hs := manager_stopping h
    have hdid := did hst.2.2
    obtain ⟨hserves, hp⟩ := hdid.unserved hs hp
    obtain ⟨hall, hserving, hchannels, hquiet, hclosing⟩ := ih (h.step hst) hp
    refine ⟨fun activity hm => ?_, hserving, hchannels, hquiet, fun hc => ?_⟩
    · rcases List.mem_cons.mp hm with rfl | hm
      · exact hserves
      · exact hall activity hm
    · exact hclosing (hdid.quiet (hs.quiet hc) hc).2

/-- **`shutdown` comes to its end.**  While it waits for the tracker, the tasks can end
by themselves, in as many steps as `tasks` counts.  While it waits for the engine, some
messages are in front of the one `Shutdown`, and the engine stops exactly when it has
handled them and `Shutdown`, whatever else happens; all sessions are cancelled then. -/
theorem shutdown_completes (h : (manager config).Reachable s) :
    (s.phase = .waiting → ∃ is t, (manager config).Run s is t ∧ is.length ≤ s.tasks + 1 ∧
      (∀ activity ∈ is, activity.Ends) ∧ t.phase = .closing) ∧
    (s.phase = .closing → s.engine.rootCancelled = false →
      ∃ earlier later, s.inbox = earlier ++ .shutdown :: later ∧
        ∀ is t, (manager config).Run s is t →
          is.countP Activity.handles ≤ earlier.length + 1 ∧
          (t.engine.rootCancelled = true ↔
            is.countP Activity.handles = earlier.length + 1) ∧
          (t.engine.rootCancelled = true → ∀ session ∈ t.sessions,
            t.engine.isCancelled session.cancellation = true)) := by
  have hs := manager_stopping h
  refine ⟨fun hp => ends_run config hp (hs.running (hp ▸ nofun)), fun hp hrun => ?_⟩
  have hone := hs.sent hp hrun
  have hpos : 0 < s.inbox.countP isShutdown := by omega
  obtain ⟨message, hfind⟩ := Option.isSome_iff_exists.mp
    (List.find?_isSome.mpr (List.countP_pos_iff.mp hpos))
  obtain ⟨hm, earlier, later, hi, hearlier⟩ := List.find?_eq_some_iff_append.mp hfind
  cases message with
  | attachOrJoin _ _ _ | releaseLease _ _ | detach _ _ | leaseMaxTimeReached _ _
  | databaseWorker _ => cases hm
  | shutdown =>
    refine ⟨earlier, later, hi, fun is t hr => ?_⟩
    obtain ⟨hle, hiff⟩ := closing_run h hp hrun hi (fun m hm => by simpa using hearlier m hm) hr
    refine ⟨hle, hiff, fun hstop session _ => ?_⟩
    rw [isCancelled, hstop, Bool.true_or]

/-! ### A small shutdown -/

namespace ManagerSample

/-- The small manager, with its shutdown: a database is being created and another one
dropped. -/
theorem stopped : ∃ s, (manager Engine.Sample.settings).Reachable s ∧ s.phase = .waiting ∧
    s.drops.length = 1 ∧ s.sessions.length = 2 := by
  have hrun : ((after (activities ++ [.call (.attachEnds 1), .shutdown])).any fun s =>
      decide (s.phase = .waiting ∧ s.drops.length = 1 ∧ s.sessions.length = 2)) = true := by decide
  obtain ⟨s, hs, hp⟩ := (Option.any_eq_true _ _).mp hrun
  exact ⟨s, reachable_after hs, of_decide_eq_true hp⟩

end ManagerSample

/-- The drop that ran when the small manager was shut down is gone after the wait. -/
theorem shutdown_serves_nobody_small : ∃ s is t, (manager Engine.Sample.settings).Reachable s ∧
    s.drops.length = 1 ∧ (manager Engine.Sample.settings).Run s is t ∧ t.phase = .closing ∧
      t.Quiet := by
  obtain ⟨s, hreach, hp, hd, _⟩ := ManagerSample.stopped
  have hrun := (manager_stopping hreach).running (hp ▸ nofun)
  obtain ⟨is, t, hr, _, _, ht⟩ := ends_run Engine.Sample.settings hp hrun
  exact ⟨s, is, t, hreach, hd, hr, ht, (shutdown_serves_nobody hreach (hp ▸ nofun) hr).2.2.2.1 ht⟩

/-- Its tasks can end, and then its wait does. -/
theorem shutdown_completes_small : ∃ s, (manager Engine.Sample.settings).Reachable s ∧
    s.drops.length = 1 ∧ ∃ is t, (manager Engine.Sample.settings).Run s is t ∧
      (∀ activity ∈ is, activity.Ends) ∧ t.phase = .closing := by
  obtain ⟨s, hreach, hp, hd, _⟩ := ManagerSample.stopped
  obtain ⟨is, t, hr, _, hends, ht⟩ := (shutdown_completes hreach).1 hp
  exact ⟨s, hreach, hd, is, t, hr, hends, ht⟩

end PgTest.Manager
