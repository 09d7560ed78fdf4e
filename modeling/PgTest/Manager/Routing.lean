import PgTest.Manager.Ownership

/-!
# Replies come back to those who asked

A call of `attach` waits on a channel of its own.  `asks` says which lease is asked for
over a channel, over a whole run: the handles that the engine keeps, the handles in the
inbox, and the sessions in unread replies all agree with it (`Routed`).
-/

namespace PgTest.Engine

variable {C : Type} {Q Q' : LeaseId → C → Prop}

theorem Event.Known.mono {event : Event C} (hQ : ∀ lease consumer, Q lease consumer →
    Q' lease consumer) (h : event.Known Q) : event.Known Q' := by
  intro lease consumer name generation token behind he
  obtain ⟨hq, hb⟩ := h lease consumer name generation token behind he
  exact ⟨hQ _ _ hq, hb⟩

end PgTest.Engine

namespace PgTest.Manager

open PgTest.Lib PgTest.Engine PgTest.Engine.WorkerEngine

namespace System

variable {asks : Nat → Option LeaseId} {s t : System}

/-- The handle answers where its lease was asked for. -/
def Routes (asks : Nat → Option LeaseId) (lease : LeaseId) (worker : ConsumerWorker) : Prop :=
  Attaches lease worker ∧ asks worker.oneshotChannel = some lease

/-- The session waits to be read from the channel. -/
def Unread (s : System) (channel : Nat) (session : LeaseSession) : Prop :=
  s.channels[channel]? = some (.holding (.attached session))

/-- **What is asked for over a channel is what comes back over it.** -/
structure Routed (asks : Nat → Option LeaseId) (s : System) : Prop where
  inv : Inv (Routes asks) s.engine
  noIdle : s.engine.NoIdle
  known : ∀ message ∈ s.inbox, message.Known (Routes asks)
  unread : ∀ channel session, s.Unread channel session → asks channel = some session.leaseId

/-! ### What is answered -/

/-- **A session that events make waits on the channel of its handle.** -/
theorem answers_unread {events : List (Event ConsumerWorker)}
    (hk : ∀ event ∈ events, event.Known (Routes asks)) (h : answers events s = some t)
    {channel : Nat} {session : LeaseSession} (hs : t.Unread channel session) :
    s.Unread channel session ∨ asks channel = some session.leaseId := by
  rcases answers_holding h hs with hs | ⟨lease, worker, message, behind, hm, rfl, hreply⟩
  · exact Or.inl hs
  · obtain ⟨lease', name, generation, token, ha, rfl, rfl⟩ := managerReply_attached hreply
    obtain ⟨⟨hattaches, hasks⟩, _⟩ := hk _ hm _ _ _ _ _ _ rfl
    obtain rfl : lease' = lease := Option.some.inj (ha.symm.trans hattaches)
    exact Or.inr hasks

/-- **Every action keeps the routes**, if `asks` knows what an `attach` asks for. -/
theorem Routed.act (h : s.Routed asks) {a : Action} (ha : s.act a = some t)
    (hasks : ∀ lease time, a = .attach lease time → asks s.channels.length = some lease) :
    t.Routed asks := by
  by_cases hh : ∃ env, a = .handle env
  · obtain ⟨env, rfl⟩ := hh
    obtain ⟨message, rest, engine, hi, hok, ht⟩ := handle_cases ha
    have hh := processMessage_handles h.inv h.noIdle
      (h.known message (hi ▸ List.mem_cons_self)) hok
    obtain ⟨new, hnew, hknown⟩ := hh.path.known h.inv
    rw [hnew, news_append] at ht
    obtain ⟨he, hinbox, _⟩ := answers_gives
      (fun event hm => (hknown event hm).mono fun _ _ hr => hr.1) ht
    have he : t.engine = engine := he
    have hinbox : t.inbox = rest := hinbox
    refine ⟨he ▸ hh.path.inv h.inv, he ▸ hh.noIdle, fun other hm => ?_,
      fun channel session hu => ?_⟩
    · exact h.known other (hi ▸ List.mem_cons_of_mem _ (hinbox ▸ hm))
    · exact (answers_unread hknown ht hu).elim (h.unread channel session) id
  · have hne : ∀ env, a ≠ .handle env := fun env he => hh ⟨env, he⟩
    have he := (act_keeps hne ha).engine
    obtain ⟨messages, hinbox, hposts⟩ := act_posts hne ha
    refine ⟨he ▸ h.inv, he ▸ h.noIdle, fun message hm => ?_, fun channel session hu =>
      h.unread channel session (act_holding hne ha hu)⟩
    rw [hinbox] at hm
    rcases List.mem_append.mp hm with hm | hm
    · exact h.known message hm
    · have hpost := hposts message hm
      cases a with
      | handle env => exact absurd rfl (hne env)
      | attach lease time =>
        obtain rfl : message = _ := hpost
        exact ⟨rfl, hasks lease time rfl⟩
      | release _ | leaseTimer _ _ | databaseWorker _ | shutdown =>
        obtain rfl : message = _ := hpost
        trivial
      | attachEnds _ | dropReceiver _ | dropSession _ =>
        obtain ⟨_, _, rfl⟩ := hpost
        trivial

/-- Before anybody asked, nothing has to be routed. -/
theorem Routed.init {config : WorkerEngineConfig} (h : (system config).init s) :
    s.Routed asks := by
  obtain ⟨⟨reports, hok⟩, hi, hc, _⟩ := h
  obtain ⟨hp, hw⟩ := tryInit_path (Q := Routes asks) hok
  refine ⟨hp.inv (.new config), Or.inr hw, by simp [hi], fun channel session hu => ?_⟩
  simp [Unread, hc] at hu

/-- An attachment takes its session from the channel that it waits on. -/
theorem attachResult_session {isCancelled : Nat → Bool} {reply : ManagerReply}
    {session : LeaseSession} (h : (attachResult isCancelled reply).1 = .ok session) :
    reply = .attached session := by
  cases reply with
  | engine message => cases message <;> simp [attachResult] at h
  | attached other =>
    rw [attachResult] at h
    split at h
    · cases h
    · cases h
      rfl

end System

end PgTest.Manager
