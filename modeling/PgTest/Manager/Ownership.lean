import PgTest.Engine.Tokens
import PgTest.Manager.Connections

/-!
# Sessions own their database

A `LeaseSession` names a database, and its holder connects to it for as long as the
session's token is not cancelled.  Every session, held or in an unread reply, comes from
an `Attached` that was delivered (`Delivers`), and every `Attached` names the database
and the token of an assignment (`Attested`).  So the token of a session tells whether
its assignment is the current one, and while it is, the database is nobody else's and
no cleanup was asked for it.
-/

namespace PgTest.Engine

open PgTest.Lib WorkerEngine

variable {C : Type} {Q : LeaseId → C → Prop} {config : WorkerEngineConfig} {s t : WorkerEngine C}

/-! ### Every reply names an assignment -/

namespace WorkerEngine

/-- Every `Attached` names the database of an assignment, and its token. -/
def Attested (s : WorkerEngine C) : Prop :=
  ∀ lease consumer name generation token databaseId delivered,
    .reply lease consumer (.attached name generation token) (some databaseId) delivered ∈
        s.history →
      (lease, generation, ⟨databaseId, name⟩) ∈ s.assignments ∧ token = generation

/-- A new reply is about the current assignment. -/
theorem Attested.move {a : Act} (h : s.Attested) (he : s.Entries) (hn : s.Numbered)
    (hm : Move Q s a t) : t.Attested := by
  obtain ⟨new, _, hhonest, hh⟩ := hm.news
  have hold : ∀ x ∈ s.assignments, x ∈ t.assignments := by
    intro x hx
    rw [assignments, hh, List.filterMap_append]
    exact List.mem_append_right _ hx
  intro lease consumer name generation token databaseId delivered hr
  rw [hh, List.mem_append] at hr
  rcases hr with hr | hr
  · obtain ⟨entry, hl, rfl, rfl, rfl, hb⟩ := hhonest _ hr
    cases hb
    exact ⟨hold _ (hn.current _ _ _ _ (assigned_of_lookup hl)), he.token _ _ hl⟩
  · obtain ⟨hm, ht⟩ := h _ _ _ _ _ _ _ hr
    exact ⟨hold _ hm, ht⟩

end WorkerEngine

theorem ledger_attested (h : (ledger Q).Reachable s) : s.Attested := by
  refine h.invariant (fun s hs => ?_) fun s a t hr hs hm => ?_
  · obtain ⟨config, rfl⟩ := hs
    exact fun _ _ _ _ _ _ _ hm => absurd hm List.not_mem_nil
  · exact hs.move (ledger_inv hr).entries (ledger_numbered hr) hm

theorem engine_attested (h : (engine C config).Reachable s) : s.Attested :=
  ledger_attested ((engine_refines C config).reachable h).1

/-- A generation is given out once. -/
theorem WorkerEngine.Numbered.assignment_unique (h : s.Numbered) {x y : LeaseId × Nat × Database}
    (hx : x ∈ s.assignments) (hy : y ∈ s.assignments) (heq : x.2.1 = y.2.1) : x = y := by
  by_contra hne
  have hlt := List.pairwise_iff_getElem.mp h.decreasing
  obtain ⟨i, hi, rfl⟩ := List.mem_iff_getElem.mp hx
  obtain ⟨j, hj, rfl⟩ := List.mem_iff_getElem.mp hy
  rcases Nat.lt_trichotomy i j with hij | rfl | hij
  · have := hlt i j hi hj hij
    omega
  · exact hne rfl
  · have := hlt j i hj hi hij
    omega

/-- No cleanup was asked for a database that is leased. -/
theorem not_cleaned_of_leased (h : Inv Q s) {lease : LeaseId} {entry : LeaseEntry}
    (hl : s.leases.lookup lease = some entry) {request : CleanupDatabase} {accepted : Bool}
    (hr : .requestedCleanup request accepted ∈ s.history) :
    request.databaseId ≠ entry.database.databaseId := by
  intro heq
  have hlife : .cleanup request ∈ s.life := List.mem_filterMap.mpr ⟨_, hr, rfl⟩
  rcases (h.lifecycle.cleanup_iff entry.database.databaseId).mp
    ⟨request.databaseName, heq ▸ hlife⟩ with hret | hdrop
  · exact h.books.retiring_of_leased hl hret
  · have hheld := mem_held.mpr (Or.inr (Or.inr ⟨lease, entry, hl, rfl⟩))
    exact ((h.lifecycle.held_iff _).mp hheld).2 hdrop

end PgTest.Engine

namespace PgTest.Manager

open PgTest.Lib PgTest.Engine PgTest.Engine.WorkerEngine

/-! ### Where the sessions are -/

namespace System

variable {config : WorkerEngineConfig} {s t : System}

/-- The session is in the hands of a caller, or in an unread reply. -/
def Holds (s : System) (session : LeaseSession) : Prop :=
  session ∈ s.sessions ∨ .holding (.attached session) ∈ s.channels

/-- The events delivered the session to a caller. -/
def Delivers (events : List (Event ConsumerWorker)) (session : LeaseSession) : Prop :=
  session.detachOnDrop = true ∧ ∃ consumer databaseId,
    .reply session.leaseId consumer
      (.attached session.databaseName session.generation session.cancellation)
      (some databaseId) true ∈ events

/-! ### What callers post -/

/-- What an action posts. -/
def Posts (s : System) : Action → Message → Prop
  | .attach lease messageTime, message =>
    message = .attachOrJoin lease ⟨s.channels.length, some lease⟩ messageTime
  | .release lease, message => message = .releaseLease lease ⟨s.channels.length, none⟩
  | .leaseTimer lease generation, message => message = .leaseMaxTimeReached lease generation
  | .databaseWorker result, message => message = .databaseWorker result
  | .shutdown, message => message = .shutdown
  | .attachEnds _, message | .dropReceiver _, message | .dropSession _, message =>
    ∃ lease generation, message = .detach lease generation
  | .handle _, _ => False

theorem drop_posts (session : LeaseSession) :
    ∀ message ∈ session.drop, ∃ lease generation, message = .detach lease generation := by
  intro message hm
  rw [LeaseSession.drop] at hm
  split at hm
  · exact ⟨_, _, List.mem_singleton.mp hm⟩
  · exact absurd hm List.not_mem_nil

theorem replyDrop_posts (reply : ManagerReply) :
    ∀ message ∈ reply.drop, ∃ lease generation, message = .detach lease generation := by
  cases reply with
  | attached session => exact drop_posts session
  | engine message => exact fun _ hm => absurd hm List.not_mem_nil

theorem attachResult_posts (isCancelled : Nat → Bool) (reply : ManagerReply) :
    ∀ message ∈ (attachResult isCancelled reply).2,
      ∃ lease generation, message = .detach lease generation := by
  cases reply with
  | engine message => cases message <;> exact fun _ hm => absurd hm List.not_mem_nil
  | attached session =>
    rw [attachResult]
    split
    · exact drop_posts session
    · exact fun _ hm => absurd hm List.not_mem_nil

/-- **What callers, timers and workers do to the inbox.** -/
theorem act_posts {a : Action} (ha : ∀ env, a ≠ .handle env) (h : s.act a = some t) :
    ∃ messages, t.inbox = s.inbox ++ messages ∧ ∀ message ∈ messages, s.Posts a message := by
  cases a with
  | handle env => exact absurd rfl (ha env)
  | attach _ _ | release _ | leaseTimer _ _ | databaseWorker _ | shutdown =>
    cases h
    exact ⟨_, rfl, fun message hm => List.mem_singleton.mp hm⟩
  | attachEnds channel =>
    rw [act] at h
    split at h <;> cases h
    exact ⟨_, rfl, attachResult_posts _ _⟩
  | dropReceiver channel =>
    rw [act] at h
    split at h <;> cases h
    · exact ⟨[], (List.append_nil _).symm, by simp⟩
    · exact ⟨_, rfl, replyDrop_posts _⟩
  | dropSession index =>
    rw [act] at h
    split at h <;> cases h
    exact ⟨_, rfl, drop_posts _⟩

/-! ### What channels hold -/

theorem holding_set {channel other : Nat} {reply : ManagerReply}
    (h : (s.channels.set channel .closed)[other]? = some (.holding reply)) :
    s.channels[other]? = some (.holding reply) := by
  rw [List.getElem?_set] at h
  split at h
  · split at h <;> cases h
  · exact h

theorem holding_append {channel : Nat} {reply : ManagerReply}
    (h : (s.channels ++ [.waiting])[channel]? = some (.holding reply)) :
    s.channels[channel]? = some (.holding reply) := by
  rw [List.getElem?_append] at h
  split at h
  · exact h
  · rw [List.getElem?_singleton] at h
    split at h <;> cases h

/-- What callers do fills no channel. -/
theorem act_holding {a : Action} (ha : ∀ env, a ≠ .handle env) (h : s.act a = some t)
    {channel : Nat} {reply : ManagerReply}
    (hc : t.channels[channel]? = some (.holding reply)) :
    s.channels[channel]? = some (.holding reply) := by
  cases a with
  | handle env => exact absurd rfl (ha env)
  | attach _ _ | release _ =>
    cases h
    exact holding_append hc
  | leaseTimer _ _ | databaseWorker _ | shutdown =>
    cases h
    exact hc
  | attachEnds _ | dropReceiver _ =>
    rw [act] at h
    split at h <;> cases h <;> exact holding_set hc
  | dropSession _ =>
    rw [act] at h
    split at h <;> cases h
    exact hc

/-- **A channel that an event fills** holds what its handle makes of the reply. -/
theorem answer_holding {event : Event ConsumerWorker} (h : answer event s = some t)
    {channel : Nat} {reply : ManagerReply}
    (hc : t.channels[channel]? = some (.holding reply)) :
    s.channels[channel]? = some (.holding reply) ∨ ∃ lease worker message behind,
      event = .reply lease worker message behind true ∧ worker.oneshotChannel = channel ∧
        reply = worker.managerReply message := by
  cases event with
  | reply lease worker message behind delivered =>
    rw [answer] at h
    split at h
    case h_2 => cases h
    case h_1 after outcome posted hb =>
      split at h
      case isFalse => cases h
      case isTrue ho =>
        subst ho
        cases h
        rw [List.getElem?_set] at hc
        split at hc
        case isFalse => exact Or.inl hc
        case isTrue heq =>
          split at hc
          case isFalse => cases hc
          case isTrue =>
            cases hc
            obtain ⟨before, _, hr⟩ := Option.bind_eq_some_iff.mp hb
            cases before with
            | holding _ | closed => cases hr
            | waiting =>
              cases hr
              exact Or.inr ⟨lease, worker, message, behind, rfl, heq, rfl⟩
  | expired lease worker =>
    cases h
    refine Or.inl ?_
    rw [List.getElem?_modify] at hc
    obtain ⟨before, hb, heq⟩ := Option.map_eq_some_iff.mp hc
    split at heq
    · cases before with
      | waiting | closed => cases heq
      | holding _ => exact hb.trans (congrArg some heq)
    · exact hb.trans (congrArg some heq)
  | assigned _ _ _ | scheduled _ _ _ _ _ | cancelled _ | returned _ _ _ | requestedCreation _ _
  | requestedCleanup _ _ | created _ | creationFailed _ | cleaned _ | detached _ _ | grew =>
    cases h
    exact Or.inl hc

theorem answers_holding : ∀ {events : List (Event ConsumerWorker)} {t : System},
    answers events s = some t → ∀ {channel : Nat} {reply : ManagerReply},
    t.channels[channel]? = some (.holding reply) →
    s.channels[channel]? = some (.holding reply) ∨ ∃ lease worker message behind,
      .reply lease worker message behind true ∈ events ∧ worker.oneshotChannel = channel ∧
        reply = worker.managerReply message := by
  intro events
  induction events with
  | nil =>
    intro t h channel reply hc
    cases h
    exact Or.inl hc
  | cons event earlier ih =>
    intro t h channel reply hc
    obtain ⟨u, h1, h2⟩ := Option.bind_eq_some_iff.mp h
    rcases answer_holding h2 hc with hu | ⟨lease, worker, message, behind, rfl, hw⟩
    · refine (ih h1 hu).imp_right ?_
      rintro ⟨lease, worker, message, behind, hm, hw⟩
      exact ⟨lease, worker, message, behind, List.mem_cons_of_mem _ hm, hw⟩
    · exact Or.inr ⟨lease, worker, message, behind, List.mem_cons_self, hw⟩

/-- A session is made of an `Attached` for a handle of `attach`. -/
theorem managerReply_attached {worker : ConsumerWorker} {message : ConsumerReply}
    {session : LeaseSession} (h : .attached session = worker.managerReply message) :
    ∃ lease name generation token, worker.attachment = some lease ∧
      message = .attached name generation token ∧
        session = .new name lease generation token := by
  obtain ⟨channel, attachment⟩ := worker
  cases attachment with
  | none => cases h
  | some lease =>
    cases message with
    | attached name generation token =>
      cases h
      exact ⟨lease, name, generation, token, rfl, rfl, rfl⟩
    | failedToAttach | attachRejected _ | releaseResult _ => cases h

/-- What others do makes no session. -/
theorem act_holds {a : Action} (ha : ∀ env, a ≠ .handle env) (h : s.act a = some t)
    {session : LeaseSession} (hs : t.Holds session) : s.Holds session := by
  rcases hs with hs | hs
  · cases a with
    | handle env => exact absurd rfl (ha env)
    | attach _ _ | release _ | leaseTimer _ _ | databaseWorker _ | shutdown =>
      cases h
      exact Or.inl hs
    | attachEnds channel =>
      rw [act] at h
      split at h
      case h_2 => cases h
      case h_1 reply hc =>
        cases h
        rcases List.mem_append.mp hs with hs | hs
        · -- the caller takes the session out of its reply
          cases reply with
          | engine message =>
            cases message with
            | attached _ _ _ | failedToAttach | attachRejected _ | releaseResult _ => cases hs
          | attached other =>
            rw [attachResult] at hs
            split at hs
            · cases hs
            · cases List.mem_singleton.mp hs
              exact Or.inr (List.mem_of_getElem? hc)
        · exact Or.inl hs
    | dropReceiver channel =>
      rw [act] at h
      split at h <;> cases h <;> exact Or.inl hs
    | dropSession index =>
      rw [act] at h
      split at h <;> cases h
      exact Or.inl (List.mem_of_mem_eraseIdx hs)
  · obtain ⟨channel, hc⟩ := List.mem_iff_getElem?.mp hs
    exact Or.inr (List.mem_of_getElem? (act_holding ha h hc))

theorem answer_sessions {event : Event ConsumerWorker} (h : answer event s = some t) :
    t.sessions = s.sessions := by
  unfold answer at h
  split at h
  · split at h
    · split at h <;> cases h
      rfl
    · cases h
  · cases h
    rfl
  · cases h
    rfl

theorem answers_sessions : ∀ {events : List (Event ConsumerWorker)} {t : System},
    answers events s = some t → t.sessions = s.sessions := by
  intro events
  induction events with
  | nil =>
    intro t h
    cases h
    rfl
  | cons event earlier ih =>
    intro t h
    obtain ⟨u, h1, h2⟩ := Option.bind_eq_some_iff.mp h
    exact (answer_sessions h2).trans (ih h1)

/-- **A session that events make is one that they deliver.** -/
theorem answers_holds {events : List (Event ConsumerWorker)}
    (hk : ∀ event ∈ events, event.Known Attaches) (h : answers events s = some t)
    {session : LeaseSession} (hs : t.Holds session) :
    s.Holds session ∨ Delivers events session := by
  rcases hs with hs | hs
  · exact Or.inl (Or.inl (answers_sessions h ▸ hs))
  · obtain ⟨channel, hc⟩ := List.mem_iff_getElem?.mp hs
    rcases answers_holding h hc with hc | ⟨lease, worker, message, behind, hm, _, hreply⟩
    · exact Or.inl (Or.inr (List.mem_of_getElem? hc))
    · obtain ⟨lease', name, generation, token, ha, rfl, rfl⟩ := managerReply_attached hreply
      obtain ⟨hattaches, databaseId, rfl⟩ := hk _ hm _ _ _ _ _ _ rfl
      obtain rfl : lease' = lease := Option.some.inj (ha.symm.trans hattaches)
      exact Or.inr ⟨rfl, worker, databaseId, hm⟩

/-- What a message does to the engine, with the events that its replies make. -/
theorem handle_events (hb : s.Balanced) {env : Env ConsumerWorker} (h : s.handle env = some t) :
    ∃ message rest new, s.inbox = message :: rest ∧
      s.engine.processMessage env message = .ok t.engine ∧
      t.engine.history = new ++ s.engine.history ∧ (∀ event ∈ new, event.Known Attaches) ∧
      answers new { s with engine := t.engine, inbox := rest } = some t := by
  obtain ⟨message, rest, engine, hi, hok, ht⟩ := handle_cases h
  have hh := processMessage_handles hb.inv hb.noIdle
    (hb.known message (hi ▸ List.mem_cons_self)) hok
  obtain ⟨new, hnew, hknown⟩ := hh.path.known hb.inv
  rw [hnew, news_append] at ht
  have he : t.engine = engine := (answers_gives hknown ht).engine
  exact ⟨message, rest, new, hi, he ▸ hok, he ▸ hnew, hknown, he ▸ ht⟩

end System

variable {config : WorkerEngineConfig} {s : System}

/-- The engine of the system is the engine. -/
theorem system_engine (h : (system config).Reachable s) :
    (engine ConsumerWorker config).Reachable s.engine := by
  refine h.invariant (I := fun s => (engine ConsumerWorker config).Reachable s.engine)
    (fun s hs => .of_init hs.1) fun s a t hr hs hstep => ?_
  by_cases ha : ∃ env, a = .handle env
  · obtain ⟨env, rfl⟩ := ha
    obtain ⟨message, _, _, _, hok, _⟩ := System.handle_events (system_balanced hr) hstep.2
    exact hs.step (i := (env, message)) ⟨hstep.1, hok⟩
  · rw [(System.act_keeps (fun env he => ha ⟨env, he⟩) hstep.2).engine]
    exact hs

/-- **Every session was delivered.** -/
theorem system_sourced (h : (system config).Reachable s) {session : LeaseSession}
    (hs : s.Holds session) : System.Delivers s.engine.history session := by
  refine h.invariant (I := fun s => ∀ session, s.Holds session →
    System.Delivers s.engine.history session) ?_ ?_ session hs
  · rintro s ⟨_, _, hc, hses⟩ session hs
    rw [System.Holds, hc, hses] at hs
    rcases hs with hs | hs
    · exact absurd hs List.not_mem_nil
    · exact absurd hs List.not_mem_nil
  · intro s a t hr hI hstep session hs
    by_cases ha : ∃ env, a = .handle env
    · obtain ⟨env, rfl⟩ := ha
      obtain ⟨_, _, new, _, _, hnew, hknown, hanswers⟩ :=
        System.handle_events (system_balanced hr) hstep.2
      rw [hnew]
      rcases System.answers_holds hknown hanswers hs with hs | ⟨hd, consumer, databaseId, hm⟩
      · obtain ⟨hd, consumer, databaseId, hm⟩ := hI session hs
        exact ⟨hd, consumer, databaseId, List.mem_append_right _ hm⟩
      · exact ⟨hd, consumer, databaseId, List.mem_append_left _ hm⟩
    · have hne : ∀ env, a ≠ .handle env := fun env he => ha ⟨env, he⟩
      rw [(System.act_keeps hne hstep.2).engine]
      exact hI session (System.act_holds hne hstep.2 hs)

/-! ### What a session owns -/

namespace System

/-- The database that the session may use: that of its lease, at its generation. -/
def owned (s : System) (session : LeaseSession) : Option Database :=
  (s.engine.leases.lookup session.leaseId).bind fun entry =>
    if entry.generation = session.generation then some entry.database else none

theorem owned_eq_some {session : LeaseSession} {database : Database} :
    s.owned session = some database ↔ ∃ entry,
      s.engine.leases.lookup session.leaseId = some entry ∧
        entry.generation = session.generation ∧ entry.database = database := by
  rw [owned, Option.bind_eq_some_iff]
  refine exists_congr fun entry => and_congr_right fun _ => ?_
  split
  case isTrue h => simp [h]
  case isFalse h => simp [h]

end System

variable {session other : LeaseSession} {database database' : Database}

/-- A session names the database of its assignment, whose token is its generation. -/
theorem session_assigned (h : (system config).Reachable s) (hs : s.Holds session) :
    session.detachOnDrop = true ∧ session.cancellation = session.generation ∧
      ∃ databaseId, (session.leaseId, session.generation,
        ⟨databaseId, session.databaseName⟩) ∈ s.engine.assignments := by
  obtain ⟨hdetach, consumer, databaseId, hreply⟩ := system_sourced h hs
  obtain ⟨hassigned, htoken⟩ := engine_attested (system_engine h) _ _ _ _ _ _ _ hreply
  exact ⟨hdetach, htoken, databaseId, hassigned⟩

/-- The token of a session is live while the session owns its database. -/
theorem session_live_iff (h : (system config).Reachable s) (hrun : s.engine.rootCancelled = false)
    (hs : s.Holds session) :
    s.engine.isCancelled session.cancellation = false ↔ (s.owned session).isSome = true := by
  have hd := engine_disciplined (system_engine h) hrun
  obtain ⟨_, htoken, databaseId, hassigned⟩ := session_assigned h hs
  rw [htoken]
  constructor
  · intro hlive
    by_contra hnone
    have hend := hd.ended _ _ _ (mem_assignments.mp hassigned) fun entry hl hg => hnone ?_
    · exact absurd (hlive.symm.trans hend) nofun
    · rw [System.owned_eq_some.mpr ⟨entry, hl, hg, rfl⟩]
      rfl
  · intro hsome
    obtain ⟨database, howned⟩ := Option.isSome_iff_exists.mp hsome
    obtain ⟨entry, hl, hg, _⟩ := System.owned_eq_some.mp howned
    rw [← hg, ← (hd.own _ _ hl).1]
    exact hd.live _ _ hl

theorem owned_name (h : (system config).Reachable s) (hrun : s.engine.rootCancelled = false)
    (hs : s.Holds session) (howned : s.owned session = some database) :
    database.databaseName = session.databaseName := by
  have hd := engine_disciplined (system_engine h) hrun
  obtain ⟨_, _, databaseId, hassigned⟩ := session_assigned h hs
  obtain ⟨entry, hl, hg, rfl⟩ := System.owned_eq_some.mp howned
  have hown := mem_assignments.mpr (hd.own _ _ hl).2
  have heq := (engine_numbered (system_engine h)).assignment_unique hown hassigned hg
  rw [(Prod.mk.inj (Prod.mk.inj heq).2).2]

/-- Two sessions own one database for the same assignment only. -/
theorem owned_unique (h : (system config).Reachable s) (howned : s.owned session = some database)
    (hother : s.owned other = some database') :
    database'.databaseId = database.databaseId ↔
      other.leaseId = session.leaseId ∧ other.generation = session.generation := by
  obtain ⟨entry, hl, hg, rfl⟩ := System.owned_eq_some.mp howned
  obtain ⟨entry', hl', hg', rfl⟩ := System.owned_eq_some.mp hother
  constructor
  · intro hid
    have hlease := (system_balanced h).inv.books.leased_inj hl' hl hid
    rw [hlease, hl] at hl'
    cases hl'
    exact ⟨hlease, hg'.symm.trans hg⟩
  · rintro ⟨hlease, _⟩
    rw [hlease, hl] at hl'
    cases hl'
    rfl

/-- **Sessions own their database.**  While the engine runs, a session was assigned the
database it names, and its token is live exactly while that assignment is the current
one of its lease.  Until then the database is nobody else's: it is not ready, another
session with a live token has it only for the same assignment, no cleanup was asked for
it, and the session counts among the connections of the lease. -/
theorem sessions_own_database (h : (system config).Reachable s)
    (hrun : s.engine.rootCancelled = false) {session : LeaseSession} (hs : s.Holds session) :
    (∃ databaseId, (session.leaseId, session.generation,
      ⟨databaseId, session.databaseName⟩) ∈ s.engine.assignments) ∧
    (s.engine.isCancelled session.cancellation = false ↔ (s.owned session).isSome = true) ∧
    (∀ database, s.owned session = some database →
      database.databaseName = session.databaseName ∧ database ∉ s.engine.inventory.ready ∧
      (∀ request accepted, .requestedCleanup request accepted ∈ s.engine.history →
        request.databaseId ≠ database.databaseId) ∧
      (∀ other database', s.Holds other → s.owned other = some database' →
        (database'.databaseId = database.databaseId ↔
          other.leaseId = session.leaseId ∧ other.generation = session.generation)) ∧
      ∀ entry, s.engine.leases.lookup session.leaseId = some entry → 0 < entry.conns) := by
  have hb := system_balanced h
  obtain ⟨hdetach, _, databaseId, hassigned⟩ := session_assigned h hs
  refine ⟨⟨databaseId, hassigned⟩, session_live_iff h hrun hs, fun database howned => ?_⟩
  obtain ⟨entry, hl, hg, rfl⟩ := System.owned_eq_some.mp howned
  refine ⟨owned_name h hrun hs howned, fun hready => ?_,
    fun request accepted hr => not_cleaned_of_leased hb.inv hl hr,
    fun other database' _ hother => owned_unique h howned hother, fun entry' hl' => ?_⟩
  · exact hb.inv.books.not_ready_of_leased hl _ hready rfl
  · rw [hl] at hl'
    cases hl'
    rw [hb.conns _ _ hl]
    have hguards : session.guards (session.leaseId, entry.generation) = true := by
      rw [LeaseSession.guards, hdetach, hg, decide_eq_true rfl]
      rfl
    have hpos : 0 < s.guards (session.leaseId, entry.generation) := by
      rcases hs with hs | hs
      · exact Nat.add_pos_left (List.countP_pos_iff.mpr ⟨session, hs, hguards⟩) _
      · exact Nat.add_pos_right _ (List.countP_pos_iff.mpr ⟨_, hs, hguards⟩)
    exact Nat.add_pos_left hpos _

/-- A held session of the small system, after another one was given up. -/
theorem sessions_own_database_small : ∃ s : System,
    (system Engine.Sample.settings).Reachable s ∧ ∃ session, s.Holds session ∧
      s.engine.isCancelled session.cancellation = false ∧ (s.owned session).isSome = true := by
  have hrun : ((Sample.after (Sample.actions ++ [.attachEnds 1])).any fun s =>
      decide (s.engine.rootCancelled = false ∧ ∃ session ∈ s.sessions,
        s.engine.isCancelled session.cancellation = false)) = true := by decide
  obtain ⟨s, hs, hp⟩ := (Option.any_eq_true _ _).mp hrun
  obtain ⟨hroot, session, hm, hlive⟩ := of_decide_eq_true hp
  have hreach := Sample.reachable_after hs
  exact ⟨s, hreach, session, Or.inl hm, hlive,
    (sessions_own_database hreach hroot (Or.inl hm)).2.1.mp hlive⟩

end PgTest.Manager
