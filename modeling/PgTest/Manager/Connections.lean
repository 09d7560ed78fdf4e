import PgTest.Manager.Sessions

/-!
# Connections are counted exactly

A connection of an assignment is pending while a session guards it, in the hands
of a caller or in a reply channel, or while a `Detach` for it is in the inbox.
What callers do moves a connection from one place to the other and loses none
(`act_keeps`).  What the engine delivers is pending from then on
(`answers_gives`), and the engine's own count of what it delivered and let go
(`Counted`) does the rest: `Balanced` holds in every reachable state, and it says
that `conns` is the number of pending connections.
-/

namespace PgTest.Manager

open PgTest.Lib PgTest.Engine PgTest.Engine.WorkerEngine

/-- An assignment: a lease and a generation. -/
abbrev Key := LeaseId × Nat

/-! ### What is pending -/

/-- The session detaches from the assignment when it is dropped. -/
def LeaseSession.guards (key : Key) (session : LeaseSession) : Bool :=
  session.detachOnDrop && decide ((session.leaseId, session.generation) = key)

def ManagerReply.guards (key : Key) : ManagerReply → Bool
  | .attached session => session.guards key
  | .engine _ => false

/-- The unread reply in the channel holds a session that detaches. -/
def Channel.guards (key : Key) : Channel → Bool
  | .holding reply => reply.guards key
  | _ => false

def detaches (key : Key) : Message → Bool
  | .detach lease generation => decide ((lease, generation) = key)
  | _ => false

namespace System

/-- The live guards of an assignment. -/
def guards (s : System) (key : Key) : Nat :=
  s.sessions.countP (LeaseSession.guards key) + s.channels.countP (Channel.guards key)

/-- The `Detach` messages for an assignment that wait in the inbox. -/
def detaches (s : System) (key : Key) : Nat := s.inbox.countP (Manager.detaches key)

def pending (s : System) (key : Key) : Nat := s.guards key + s.detaches key

end System

theorem LeaseSession.countP_drop (session : LeaseSession) (key : Key) :
    session.drop.countP (detaches key) = (session.guards key).toNat := by
  rw [LeaseSession.drop, LeaseSession.guards]
  cases session.detachOnDrop with
  | false => rfl
  | true => simp [detaches, List.countP_cons, Bool.toNat, Bool.cond_decide]

theorem ManagerReply.countP_drop (reply : ManagerReply) (key : Key) :
    reply.drop.countP (detaches key) = (reply.guards key).toNat := by
  cases reply with
  | attached session => exact session.countP_drop key
  | engine message => rfl

/-- A reply that was not delivered posts nothing. -/
theorem ManagerReply.drop_disarm (reply : ManagerReply) : reply.disarm.drop = [] := by
  cases reply with
  | attached session => rfl
  | engine message => rfl

/-- One element of a list is replaced by another. -/
theorem countP_set_toNat {α : Type} {p : α → Bool} {l : List α} {i : Nat} {a b : α}
    (h : l[i]? = some b) :
    (l.set i a).countP p + (p b).toNat = l.countP p + (p a).toNat := by
  obtain ⟨hi, rfl⟩ := List.getElem?_eq_some_iff.mp h
  have hle : (if p l[i] = true then 1 else 0) ≤ l.countP p := List.boole_getElem_le_countP hi
  rw [List.countP_set hi]
  cases hb : p l[i] with
  | false => cases p a with | false => simp | true => simp
  | true =>
    rw [hb] at hle
    have hle : 1 ≤ l.countP p := hle
    cases p a with
    | false => show l.countP p - 1 + 0 + 1 = l.countP p + 0; omega
    | true => show l.countP p - 1 + 1 + 1 = l.countP p + 1; omega

/-- Elements are changed, and count as before. -/
theorem countP_modify {α : Type} {p : α → Bool} {f : α → α} (h : ∀ a, p (f a) = p a) :
    ∀ (l : List α) (i : Nat), (l.modify i f).countP p = l.countP p := by
  intro l
  induction l with
  | nil => intro i; rw [List.modify_nil]
  | cons a l ih =>
    intro i
    cases i with
    | zero => rw [List.modify_zero_cons, List.countP_cons, List.countP_cons, h]
    | succ i => rw [List.modify_succ_cons, List.countP_cons, List.countP_cons, ih]

theorem countP_eraseIdx_toNat {α : Type} {p : α → Bool} {l : List α} {i : Nat} {a : α}
    (h : l[i]? = some a) : (l.eraseIdx i).countP p + (p a).toNat = l.countP p := by
  obtain ⟨hi, rfl⟩ := List.getElem?_eq_some_iff.mp h
  rw [← (List.getElem_cons_eraseIdx_perm hi).countP_eq, List.countP_cons]
  cases p l[i] with
  | false => rfl
  | true => rfl

namespace System

variable {s t : System}

theorem pending_post (messages : List Message) (s : System) (key : Key) :
    (s.post messages).pending key = s.pending key + messages.countP (Manager.detaches key) := by
  show s.guards key + (s.inbox ++ messages).countP _ = _
  rw [List.countP_append, ← Nat.add_assoc]
  rfl

/-! ### What callers do -/

/-- The consumer of an `attach` knows its lease. -/
def Attaches (lease : LeaseId) (worker : ConsumerWorker) : Prop := worker.attachment = some lease

/-- Nothing is lost between the inbox, the channels and the sessions. -/
structure Keeps (s t : System) : Prop where
  engine : t.engine = s.engine
  pending : ∀ key, t.pending key = s.pending key
  known : (∀ message ∈ s.inbox, message.Known Attaches) →
    ∀ message ∈ t.inbox, message.Known Attaches

/-- New messages are known, and detach from what is not guarded any more. -/
theorem Keeps.post {u : System} {messages : List Message} (he : u.engine = s.engine)
    (hi : u.inbox = s.inbox)
    (hg : ∀ key, u.guards key + messages.countP (Manager.detaches key) = s.guards key)
    (hk : ∀ message ∈ messages, message.Known Attaches) : Keeps s (u.post messages) where
  engine := he
  pending := fun key => by
    have h1 := hg key
    rw [pending_post]
    show u.guards key + u.inbox.countP _ + _ = s.guards key + s.inbox.countP _
    rw [hi]
    omega
  known := fun h message hm => by
    rcases List.mem_append.mp hm with hm | hm
    · exact h message (hi ▸ hm)
    · exact hk message hm

theorem known_drop (session : LeaseSession) :
    ∀ message ∈ session.drop, message.Known Attaches := by
  intro message hm
  rw [LeaseSession.drop] at hm
  split at hm
  · rw [List.mem_singleton.mp hm]
    trivial
  · exact absurd hm List.not_mem_nil

theorem known_replyDrop (reply : ManagerReply) :
    ∀ message ∈ reply.drop, message.Known Attaches := by
  cases reply with
  | attached session => exact known_drop session
  | engine message => exact fun _ hm => absurd hm List.not_mem_nil

/-- A channel that holds no guard is new. -/
theorem guards_newChannel (s : System) (key : Key) :
    ({ s with channels := s.channels ++ [.waiting] } : System).guards key = s.guards key := by
  show _ + (s.channels ++ [Channel.waiting]).countP _ = _
  rw [List.countP_append]
  rfl

/-- A channel is closed; what it held is left over. -/
theorem guards_close {channel : Nat} {before : Channel} (h : s.channels[channel]? = some before)
    (key : Key) :
    ({ s with channels := s.channels.set channel .closed } : System).guards key +
      (before.guards key).toNat = s.guards key := by
  have hset := countP_set_toNat (p := Channel.guards key) (a := .closed) h
  show _ + (s.channels.set channel .closed).countP _ + _ = _ + _
  rw [Nat.add_assoc, hset]
  rfl

/-- How an `attach` ends: the session is held, or dropped. -/
theorem attachResult_countP (isCancelled : Nat → Bool) (reply : ManagerReply) (key : Key) :
    (attachResult isCancelled reply).1.toOption.toList.countP (LeaseSession.guards key) +
      (attachResult isCancelled reply).2.countP (Manager.detaches key) =
        (reply.guards key).toNat := by
  cases reply with
  | engine message =>
    cases message with
    | attached _ _ _ | failedToAttach | attachRejected _ | releaseResult _ => rfl
  | attached session =>
    rw [attachResult]
    split
    · exact (Nat.zero_add _).trans (session.countP_drop key)
    · show [session].countP _ + 0 = (session.guards key).toNat
      rw [List.countP_singleton]
      cases session.guards key with
      | false => rfl
      | true => rfl

theorem attachResult_known (isCancelled : Nat → Bool) (reply : ManagerReply) :
    ∀ message ∈ (attachResult isCancelled reply).2, message.Known Attaches := by
  cases reply with
  | engine message =>
    cases message with
    | attached _ _ _ | failedToAttach | attachRejected _ | releaseResult _ =>
      exact fun _ hm => absurd hm List.not_mem_nil
  | attached session =>
    rw [attachResult]
    split
    · exact known_drop session
    · exact fun _ hm => absurd hm List.not_mem_nil

/-- **What happens outside the engine loses no connection.** -/
theorem act_keeps {a : Action} (ha : ∀ env, a ≠ .handle env) (h : s.act a = some t) :
    Keeps s t := by
  cases a with
  | handle env => exact absurd rfl (ha env)
  | attach lease messageTime =>
    cases h
    refine .post rfl rfl (fun key => guards_newChannel s key) fun message hm => ?_
    rw [List.mem_singleton.mp hm]
    rfl
  | release lease =>
    cases h
    refine .post rfl rfl (fun key => guards_newChannel s key) fun message hm => ?_
    rw [List.mem_singleton.mp hm]
    trivial
  | leaseTimer _ _ | databaseWorker _ | shutdown =>
    cases h
    refine .post rfl rfl (fun key => rfl) fun message hm => ?_
    rw [List.mem_singleton.mp hm]
    trivial
  | attachEnds channel =>
    rw [act] at h
    split at h
    case h_1 reply hc =>
      cases h
      refine .post rfl rfl (fun key => ?_) (attachResult_known _ reply)
      have h1 := attachResult_countP s.engine.isCancelled reply key
      have h2 : s.sessions.countP _ + (s.channels.set channel .closed).countP _ +
        (reply.guards key).toNat = s.guards key := guards_close hc key
      show (_ ++ s.sessions).countP _ + (s.channels.set channel .closed).countP _ + _ = _
      rw [List.countP_append]
      omega
    case h_2 => cases h
  | dropReceiver channel =>
    rw [act] at h
    split at h
    case h_1 hc =>
      cases h
      refine ⟨rfl, fun key => ?_, fun h => h⟩
      exact congrArg (· + s.detaches key) (guards_close hc key)
    case h_2 reply hc =>
      cases h
      refine .post rfl rfl (fun key => ?_) (known_replyDrop reply)
      rw [reply.countP_drop key]
      exact guards_close hc key
    case h_3 => cases h
  | dropSession index =>
    rw [act] at h
    split at h
    case h_1 session hc =>
      cases h
      refine .post rfl rfl (fun key => ?_) (known_drop session)
      have hcount := countP_eraseIdx_toNat (p := LeaseSession.guards key) hc
      rw [session.countP_drop key]
      show (s.sessions.eraseIdx index).countP _ + s.channels.countP _ + _ =
        s.sessions.countP _ + s.channels.countP _
      omega
    case h_2 => cases h

/-! ### What the engine delivers -/

end System

/-- The assignments that events hand out. -/
def handedTo (events : List (Event ConsumerWorker)) : List Key :=
  (events.filterMap Event.handsOut).map fun h => (h.1, h.2.1)

theorem handedTo_append (new old : List (Event ConsumerWorker)) :
    handedTo (new ++ old) = handedTo new ++ handedTo old := by
  rw [handedTo, List.filterMap_append, List.map_append]
  rfl

theorem handedTo_undelivered (lease : LeaseId) (worker : ConsumerWorker) (message : ConsumerReply)
    (behind : Option Nat) : handedTo [.reply lease worker message behind false] = [] := by
  cases message with
  | attached _ _ _ => cases behind with | none => rfl | some _ => rfl
  | failedToAttach | attachRejected _ | releaseResult _ => rfl

/-- A delivered reply is guarded if it hands something out. -/
theorem guards_managerReply {lease : LeaseId} {worker : ConsumerWorker} {message : ConsumerReply}
    {behind : Option Nat}
    (h : (Event.reply lease worker message behind true).Known System.Attaches) (key : Key) :
    ((worker.managerReply message).guards key).toNat =
      (handedTo [.reply lease worker message behind true]).count key := by
  obtain ⟨channel, attachment⟩ := worker
  cases message with
  | attached name generation token =>
    obtain ⟨ha, databaseId, rfl⟩ := h _ _ _ _ _ _ rfl
    have ha : attachment = some lease := ha
    subst ha
    show (true && decide ((lease, generation) = key)).toNat = [(lease, generation)].count key
    simp [List.count_cons, Bool.toNat, Bool.cond_decide]
  | failedToAttach | attachRejected _ | releaseResult _ =>
    cases attachment with
    | none => rfl
    | some _ => rfl

namespace System

variable {s t : System}

/-- What the engine delivers is guarded, and nothing else changes. -/
structure Gives (events : List (Event ConsumerWorker)) (s t : System) : Prop where
  engine : t.engine = s.engine
  inbox : t.inbox = s.inbox
  guards : ∀ key, t.guards key = s.guards key + (handedTo events).count key

theorem answer_reply {lease : LeaseId} {worker : ConsumerWorker} {message : ConsumerReply}
    {behind : Option Nat} {delivered : Bool}
    (hk : (Event.reply lease worker message behind delivered).Known Attaches)
    (h : answer (.reply lease worker message behind delivered) s = some t) :
    Gives [.reply lease worker message behind delivered] s t := by
  rw [answer] at h
  split at h
  case h_2 => cases h
  case h_1 channel outcome posted hb =>
    split at h
    case isFalse => cases h
    case isTrue ho =>
      subst ho
      cases h
      obtain ⟨before, hc, hr⟩ := Option.bind_eq_some_iff.mp hb
      have hset := fun key => countP_set_toNat (p := Channel.guards key) (a := channel) hc
      cases before with
      | holding reply => cases hr
      | waiting =>
        cases hr
        refine ⟨rfl, List.append_nil _, fun key => ?_⟩
        rw [← guards_managerReply hk key]
        have hset := hset key
        show s.sessions.countP _ + (s.channels.set _ _).countP _ = _ + s.channels.countP _ + _
        rw [Nat.add_assoc]
        exact congrArg (s.sessions.countP (LeaseSession.guards key) + ·) hset
      | closed =>
        cases hr
        refine ⟨rfl, ?_, fun key => ?_⟩
        rotate_left
        · rw [handedTo_undelivered]
          exact congrArg (s.sessions.countP (LeaseSession.guards key) + ·) (hset key)
        show s.inbox ++ ManagerReply.drop _ = _
        rw [ManagerReply.drop_disarm, List.append_nil]

/-- **One event delivers what it hands out.** -/
theorem answer_gives {event : Event ConsumerWorker} (hk : event.Known Attaches)
    (h : answer event s = some t) : Gives [event] s t := by
  cases event with
  | reply lease worker message behind delivered => exact answer_reply hk h
  | expired lease worker =>
    cases h
    refine ⟨rfl, rfl, fun key => congrArg (s.sessions.countP (LeaseSession.guards key) + ·) ?_⟩
    refine countP_modify (fun channel => ?_) s.channels worker.oneshotChannel
    cases channel with
    | waiting | holding _ | closed => rfl
  | assigned _ _ _ | scheduled _ _ _ _ _ | cancelled _ | returned _ _ _ | requestedCreation _ _
  | requestedCleanup _ _ | created _ | creationFailed _ | cleaned _ | detached _ _ | grew =>
    cases h
    exact ⟨rfl, rfl, fun _ => rfl⟩

/-- **The events of a message deliver what they hand out.** -/
theorem answers_gives : ∀ {events : List (Event ConsumerWorker)} {t : System},
    (∀ event ∈ events, event.Known Attaches) → answers events s = some t → Gives events s t := by
  intro events
  induction events with
  | nil =>
    intro t _ h
    cases h
    exact ⟨rfl, rfl, fun _ => rfl⟩
  | cons event earlier ih =>
    intro t hk h
    obtain ⟨u, h1, h2⟩ := Option.bind_eq_some_iff.mp h
    have hu := ih (fun e he => hk e (List.mem_cons_of_mem _ he)) h1
    have ht := answer_gives (hk event List.mem_cons_self) h2
    refine ⟨ht.engine.trans hu.engine, ht.inbox.trans hu.inbox, fun key => ?_⟩
    rw [ht.guards, hu.guards, show handedTo (event :: earlier) = _ from
      handedTo_append [event] earlier, List.count_append]
    omega

/-! ### The balance -/

/-- **The invariant of the system.** -/
structure Balanced (s : System) : Prop where
  inv : Inv Attaches s.engine
  noIdle : s.engine.NoIdle
  known : ∀ message ∈ s.inbox, message.Known Attaches
  conns : ∀ lease entry, s.engine.leases.lookup lease = some entry →
    entry.conns = s.pending (lease, entry.generation)
  fresh : ∀ lease generation, s.engine.nextGeneration < generation →
    s.pending (lease, generation) = 0
  detachOnZero : s.engine.counters.detachOnZero = 0

theorem Balanced.keeps (h : Balanced s) (hk : Keeps s t) : Balanced t where
  inv := hk.engine ▸ h.inv
  noIdle := hk.engine ▸ h.noIdle
  known := hk.known h.known
  conns := fun lease entry hl => by
    rw [hk.pending]
    exact h.conns lease entry (hk.engine ▸ hl)
  fresh := fun lease generation hg => by
    rw [hk.pending]
    exact h.fresh lease generation (hk.engine ▸ hg)
  detachOnZero := hk.engine ▸ h.detachOnZero

/-- The events that `answers` sees are those the engine added. -/
theorem news_append (new old : List (Event ConsumerWorker)) : news (new ++ old) old = new := by
  rw [news, List.length_append, Nat.add_sub_cancel, List.take_left]

theorem handle_cases {env : Env ConsumerWorker} (h : s.handle env = some t) :
    ∃ message rest engine, s.inbox = message :: rest ∧
      s.engine.processMessage env message = .ok engine ∧
      answers (news engine.history s.engine.history)
        { s with engine := engine, inbox := rest } = some t := by
  rw [handle] at h
  split at h
  case h_1 => cases h
  case h_2 message rest hi =>
    split at h
    case h_1 => cases h
    case h_2 engine hok => exact ⟨message, rest, engine, hi, hok, h⟩

/-- What `Detach` does when nothing was counted wrong. -/
theorem detach_cases (e : WorkerEngine ConsumerWorker) (lease : LeaseId) (generation : Nat)
    (hpos : ∀ entry, e.leases.lookup lease = some entry → entry.generation = generation →
      entry.conns ≠ 0) :
    (e.detach lease generation = e ∧ ∀ entry, e.leases.lookup lease = some entry →
      entry.generation ≠ generation) ∨
    ∃ entry, e.leases.lookup lease = some entry ∧ entry.generation = generation ∧
      entry.conns ≠ 0 ∧ e.detach lease generation =
        { e with leases := e.leases.insert lease { entry with conns := entry.conns - 1 } }.log
          (.detached lease generation) := by
  rw [WorkerEngine.detach]
  cases hl : e.leases.lookup lease with
  | none => exact Or.inl ⟨rfl, fun _ h => by cases h⟩
  | some entry =>
    by_cases hg : entry.generation = generation
    · have hc := hpos entry hl hg
      refine Or.inr ⟨entry, rfl, hg, hc, ?_⟩
      simp only [if_pos hg, if_neg hc]
    · refine Or.inl ⟨if_neg hg, fun other ho => ?_⟩
      rw [← Option.some.inj ho]
      exact hg

/-- **A `Detach` from the inbox lets one connection go.** -/
theorem Balanced.detach (h : Balanced s) {lease : LeaseId} {generation : Nat}
    {rest : List Message} (hi : s.inbox = .detach lease generation :: rest)
    (ht : answers (news (s.engine.detach lease generation).history s.engine.history)
      { s with engine := s.engine.detach lease generation, inbox := rest } = some t) :
    Balanced t := by
  have hcount : ∀ key, s.pending key =
      ({ s with inbox := rest } : System).pending key +
        (decide ((lease, generation) = key)).toNat := by
    intro key
    show s.guards key + s.inbox.countP _ = s.guards key + rest.countP _ + _
    rw [hi, List.countP_cons, ← Nat.add_assoc]
    show _ + (if decide ((lease, generation) = key) = true then 1 else 0) = _
    cases decide ((lease, generation) = key) with
    | false => rfl
    | true => rfl
  have hself := hcount (lease, generation)
  rw [decide_eq_true rfl] at hself
  have hother : ∀ key, (lease, generation) ≠ key →
      ({ s with inbox := rest } : System).pending key = s.pending key := by
    intro key hne
    rw [hcount key, decide_eq_false hne]
    rfl
  have hle : ∀ key, ({ s with inbox := rest } : System).pending key ≤ s.pending key := fun key =>
    (hcount key) ▸ Nat.le_add_right _ _
  have hrest : ∀ m ∈ rest, m.Known Attaches := fun m hm =>
    h.known m (hi ▸ List.mem_cons_of_mem _ hm)
  have hfresh : ∀ l g, s.engine.nextGeneration < g →
      ({ s with inbox := rest } : System).pending (l, g) = 0 := fun l g hg =>
    Nat.le_zero.mp ((h.fresh l g hg) ▸ hle (l, g))
  have hpos : ∀ entry, s.engine.leases.lookup lease = some entry →
      entry.generation = generation → entry.conns ≠ 0 := by
    rintro entry hl rfl
    rw [h.conns lease entry hl, hself]
    exact Nat.succ_ne_zero _
  rcases detach_cases s.engine lease generation hpos with ⟨he, hne⟩ | ⟨entry, hl, rfl, hc, he⟩
  · rw [he, show news s.engine.history s.engine.history = [] from news_append [] _] at ht
    cases ht
    refine ⟨h.inv, h.noIdle, hrest, fun l e hl => ?_, hfresh, h.detachOnZero⟩
    refine (h.conns l e hl).trans (hother _ fun heq => ?_).symm
    cases heq
    exact hne e hl rfl
  · have hnews : ∀ u : WorkerEngine ConsumerWorker,
        u.history = .detached lease entry.generation :: s.engine.history →
          news u.history s.engine.history = [.detached lease entry.generation] := fun u hu => by
      rw [hu]
      exact news_append [_] _
    rw [he, hnews _ rfl] at ht
    cases ht
    have hmove : Move Attaches s.engine _ _ := .detach hl hc
    refine ⟨h.inv.move hmove, h.noIdle, hrest, fun l e hl' => ?_, hfresh, h.detachOnZero⟩
    rcases lookup_insert_eq_some.mp hl' with ⟨rfl, rfl⟩ | ⟨hne, hl'⟩
    · have h1 := h.conns l entry hl
      rw [hself] at h1
      exact h1 ▸ rfl
    · exact (h.conns l e hl').trans (hother _ fun heq => hne (Prod.mk.inj heq).1.symm).symm

/-- **Any other message leaves what is pending, and adds what it delivers.** -/
theorem Balanced.other (h : Balanced s) {env : Env ConsumerWorker} {message : Message}
    {rest : List Message} {engine : WorkerEngine ConsumerWorker}
    (hm : ∀ lease generation, message ≠ .detach lease generation)
    (hi : s.inbox = message :: rest) (hok : s.engine.processMessage env message = .ok engine)
    (ht : answers (news engine.history s.engine.history)
      { s with engine := engine, inbox := rest } = some t) : Balanced t := by
  have hh := processMessage_handles h.inv h.noIdle (h.known message (hi ▸ List.mem_cons_self)) hok
  have hp := hh.path
  have hinv := hp.inv h.inv
  obtain ⟨hletGo, hzero⟩ := hp.no_detach h.inv fun l g hd => hm l g hd
  obtain ⟨new, hnew, hknown⟩ := hp.known h.inv
  rw [hnew, news_append] at ht
  obtain ⟨hte, hti, htg⟩ := answers_gives hknown ht
  have hdel : ∀ key, engine.delivered.count key =
      (handedTo new).count key + s.engine.delivered.count key := by
    intro key
    rw [← List.count_append]
    show (handedTo engine.history).count key = _
    rw [hnew, handedTo_append]
    rfl
  have hpend : ∀ key, t.pending key = s.pending key + (handedTo new).count key := by
    intro key
    have hrest : s.inbox.countP (Manager.detaches key) = rest.countP (Manager.detaches key) := by
      rw [hi]
      refine List.countP_cons_of_neg ?_
      cases message with
      | detach l g => exact absurd rfl (hm l g)
      | attachOrJoin _ _ _ | releaseLease _ _ | leaseMaxTimeReached _ _ | databaseWorker _
      | shutdown => exact Bool.false_ne_true
    have hg : t.guards key = s.guards key + _ := htg key
    show t.guards key + t.inbox.countP _ = s.guards key + s.inbox.countP _ + _
    rw [hg, hti, hrest]
    show s.guards key + _ + rest.countP _ = _
    omega
  have hte : t.engine = engine := hte
  refine ⟨hte ▸ hinv, hte ▸ hh.noIdle, fun m hm => ?_, fun lease entry hl => ?_,
    fun lease generation hg => ?_, ?_⟩
  · rw [hti] at hm
    exact h.known m (hi ▸ List.mem_cons_of_mem _ hm)
  · rw [hte] at hl
    have h1 := hinv.counted.conns lease entry hl
    rw [hletGo, hdel] at h1
    rw [hpend]
    rcases hp.follows h.inv lease entry hl with ⟨old, h2, h3, _, _⟩ | h2
    · -- the assignment was there before
      have h4 := h.inv.counted.conns lease old h2
      have h5 := h.conns lease old h2
      rw [h3] at h1 ⊢
      omega
    · -- the assignment is new: nothing was pending for it
      have h3 := h.fresh lease entry.generation h2
      obtain ⟨h4, h5⟩ := @Counted.count_new _ s.engine h.inv.counted h.inv.handed lease _ h2
      omega
  · rw [hte] at hg
    have h1 := (@Counted.count_new _ engine hinv.counted hinv.handed lease _ hg).2
    have h2 := h.fresh lease generation (lt_of_le_of_lt (hp.nextGeneration h.inv) hg)
    rw [hdel] at h1
    rw [hpend]
    omega
  · rw [hte, hzero]
    exact h.detachOnZero

/-- **Every action keeps the balance.** -/
theorem Balanced.act (h : Balanced s) {a : Action} (ha : s.act a = some t) : Balanced t := by
  by_cases hh : ∃ env, a = .handle env
  · obtain ⟨env, rfl⟩ := hh
    obtain ⟨message, rest, engine, hi, hok, ht⟩ := handle_cases ha
    by_cases hm : ∃ lease generation, message = .detach lease generation
    · obtain ⟨lease, generation, rfl⟩ := hm
      cases hok
      exact h.detach hi ht
    · exact h.other (fun l g heq => hm ⟨l, g, heq⟩) hi hok ht
  · exact h.keeps (act_keeps (fun env heq => hh ⟨env, heq⟩) ha)

end System

variable {config : WorkerEngineConfig} {s : System}

/-- `try_init` assigns nothing. -/
theorem leases_of_tryInit {e : WorkerEngine ConsumerWorker}
    (h : Path System.Attaches tryInitActs (WorkerEngine.new config) e) : e.leases = ∅ := by
  refine h.invariant (I := fun e => e.leases = ∅) (fun e a u ha _ he hm => ?_) (.new config) rfl
  cases hm with
  | reserve _ _ _ _ | burn _ _ _ _ _ | settle _ _ => exact he
  | count _ _ | note _ | enroll _ _ | close _ _ _ | enqueue _ _ _ _ _ | dequeue _
  | assign _ _ _ _ _ _ | attach _ _ _ | restore _ _ _ | detach _ _ | detachIdle _ _ | retire _ _
  | clean _ | shutdown => exact ha.elim

theorem system_balanced (h : (system config).Reachable s) : s.Balanced := by
  refine h.invariant (fun s hs => ?_) fun s a t _ hs hstep => hs.act hstep.2
  obtain ⟨⟨reports, hok⟩, hi, hc, hses⟩ := hs
  obtain ⟨hp, hw⟩ := tryInit_path (Q := System.Attaches) hok
  have hinv : Inv System.Attaches s.engine := hp.inv (.new config)
  have hpend : ∀ key, s.pending key = 0 := by
    intro key
    show s.sessions.countP _ + s.channels.countP _ + s.inbox.countP _ = 0
    rw [hi, hc, hses]
    rfl
  refine ⟨hinv, Or.inr hw, fun m hm => ?_, fun lease entry hl => ?_, fun l g _ => hpend _, ?_⟩
  · rw [hi] at hm
    exact absurd hm List.not_mem_nil
  · rw [leases_of_tryInit hp] at hl
    cases (Finmap.lookup_empty lease).symm.trans hl
  · exact (hp.no_detach (.new config) fun _ _ => id).2

/-- **Connections are counted exactly.** -/
theorem connections_exact (h : (system config).Reachable s) :
    (∀ lease entry, s.engine.leases.lookup lease = some entry →
      entry.conns = s.guards (lease, entry.generation) + s.detaches (lease, entry.generation)) ∧
    s.engine.counters.detachOnZero = 0 :=
  ⟨(system_balanced h).conns, (system_balanced h).detachOnZero⟩

/-! ### A small system -/

namespace Sample

/-- An action while the engine runs. -/
def step (s : System) (a : Action) : Option System :=
  if s.engine.rootCancelled = false then s.act a else none

/-- The system after `try_init` and then `actions`. -/
def after (actions : List Action) : Option System :=
  match (WorkerEngine.new Engine.Sample.settings).tryInit Engine.Sample.reports with
  | .ok (.ok (), e) => actions.foldlM step ⟨e, [], [], []⟩
  | _ => none

theorem step_step (s : System) (a : Action) (t : System) (h : step s a = some t) :
    (system Engine.Sample.settings).step s a t := by
  rw [step] at h
  split at h
  case isTrue hrun => exact ⟨hrun, h⟩
  case isFalse => cases h

theorem reachable_after {actions : List Action} (h : after actions = some s) :
    (system Engine.Sample.settings).Reachable s := by
  rw [after] at h
  split at h
  case h_1 e he =>
    exact .run (.of_init ⟨⟨_, he⟩, rfl, rfl, rfl⟩) (.of_foldlM step_step h)
  case h_2 => cases h

/-- Every reply is delivered, or none. -/
def env (delivers : Bool) : Env ConsumerWorker where
  reply _ _ := delivers
  requestCreation _ := true
  requestCleanup _ := true
  sendDelayedMessage _ _ _ := true
  now _ := 0

/-- Three callers attach to one lease.  The first gives up, the second does not
read its reply, and the third drops its session. -/
def actions : List Action :=
  [.attach Engine.Sample.leaseA 0, .attach Engine.Sample.leaseA 0, .attach Engine.Sample.leaseA 0,
    .dropReceiver 0, .handle (env false), .handle (env true), .handle (env true), .attachEnds 2,
    .dropSession 0]

end Sample

/-- One connection is guarded by the unread reply, the other one is in the inbox. -/
theorem connections_exact_small : ∃ s, (system Engine.Sample.settings).Reachable s ∧
    ∃ entry, s.engine.leases.lookup Engine.Sample.leaseA = some entry ∧ entry.conns = 2 ∧
      s.guards (Engine.Sample.leaseA, entry.generation) = 1 ∧
      s.detaches (Engine.Sample.leaseA, entry.generation) = 1 ∧
      entry.conns = s.guards (Engine.Sample.leaseA, entry.generation) +
        s.detaches (Engine.Sample.leaseA, entry.generation) := by
  have hrun : ((Sample.after Sample.actions).any fun s =>
      decide (∃ entry ∈ s.engine.leases.lookup Engine.Sample.leaseA, entry.conns = 2 ∧
        s.guards (Engine.Sample.leaseA, entry.generation) = 1 ∧
        s.detaches (Engine.Sample.leaseA, entry.generation) = 1)) = true := by decide
  obtain ⟨s, hs, hp⟩ := (Option.any_eq_true _ _).mp hrun
  obtain ⟨entry, hl, h1, h2, h3⟩ := of_decide_eq_true hp
  have hreach := Sample.reachable_after hs
  exact ⟨s, hreach, entry, hl, h1, h2, h3, (connections_exact hreach).1 _ entry hl⟩

end PgTest.Manager
