import PgTest.Wire.Clients

/-!
# The connections of a lease, and the end of `serve`

The connections that the engine counts for a lease are the tasks that own a session for
it, the replies that no task has read yet, and the `Detach` messages in the inbox
(`clients_accounted`).  Once `serve` has shut its listeners down nobody else holds the
manager, whatever clients and the engine did, and it gets there by itself
(`serve_returns_manager`).
-/

namespace PgTest.Wire

open PgTest.Lib PgTest.Engine PgTest.Manager

variable {pgwire : Pgwire} {template : String} {configured : Configured}
variable {config : WorkerEngineConfig} {s t : Server}

/-! ### The engine keeps running -/

/-- The engine runs, and nobody told it to stop. -/
def Running (system : System) : Prop :=
  system.engine.rootCancelled = false ∧ ∀ message ∈ system.inbox, message ≠ .shutdown

/-- Only `shutdown` stops the engine. -/
theorem Running.act {system system' : System} {action : Action}
    (hr : (Manager.system config).Reachable system) (h : Running system)
    (ha : system.act action = some system') (hne : action ≠ .shutdown) : Running system' := by
  by_cases hh : ∃ env, action = .handle env
  · obtain ⟨env, rfl⟩ := hh
    obtain ⟨message, rest, new, hi, hok, hnew, hknown, hanswers⟩ :=
      System.handle_events (system_balanced hr) ha
    have hin : ∀ message ∈ system.inbox, message ≠ .shutdown := h.2
    rw [hi] at hin
    refine ⟨?_, fun other hm => ?_⟩
    · rw [engine_running (system_engine hr) (hin message List.mem_cons_self) hok]
      exact h.1
    · rw [(System.answers_gives hknown hanswers).inbox] at hm
      exact hin other (List.mem_cons_of_mem _ hm)
  · have hother : ∀ env, action ≠ .handle env := fun env he => hh ⟨env, he⟩
    obtain ⟨messages, hinbox, hposts⟩ := System.act_posts hother ha
    refine ⟨by rw [(System.act_keeps hother ha).engine]; exact h.1, fun message hm => ?_⟩
    rw [hinbox] at hm
    rcases List.mem_append.mp hm with hm | hm
    · exact h.2 message hm
    · rintro rfl
      have hpost := hposts _ hm
      cases action with
      | shutdown => exact hne rfl
      | handle env => exact hother env rfl
      | attach _ _ | release _ | leaseTimer _ _ | databaseWorker _ => cases hpost
      | attachEnds _ | dropReceiver _ | dropSession _ =>
        obtain ⟨_, _, heq⟩ := hpost
        cases heq

/-! ### The listeners -/

theorem route_listener (startup : Option Parameters) (client : Client) :
    (client.route startup).listener = client.listener := by
  unfold Client.route
  cases startup with
  | none => rfl
  | some params =>
    simp only
    split
    · rfl
    · split
      · rfl
      · split <;> rfl

/-- A task stays with its listener. -/
theorem progress_listener {progress : Progress} {system system' : System} {client after : Client}
    (h : client.progress pgwire template system progress = some (system', after)) :
    after.listener = client.listener := by
  cases progress <;> simp only [Client.progress] at h
  case startup params =>
    split at h <;> cases h
    exact route_listener params client
  case negotiated ok =>
    split at h <;> cases h
    split <;> rfl
  case authenticated ok now =>
    split at h
    case h_2 => cases h
    case h_1 =>
      split at h
      · unfold askForLease at h
        split at h
        · cases h
          rfl
        · split at h
          · cases h
            rfl
          · obtain ⟨_, _, he⟩ := Option.map_eq_some_iff.mp h
            cases he
            rfl
      · cases h
        rfl
  case replied =>
    split at h
    case h_2 => cases h
    case h_1 =>
      unfold takeReply at h
      split at h
      · obtain ⟨_, _, he⟩ := Option.map_eq_some_iff.mp h
        cases he
        split <;> rfl
      · cases h
  case timedOut | unanswered | closed =>
    split at h
    case h_2 => cases h
    case h_1 =>
      split at h <;> cases h
      rfl
  case connected stream =>
    split at h
    case h_2 => cases h
    case h_1 =>
      split at h
      · cases h
      · split at h <;> cases h <;> rfl
  case cancelled =>
    split at h
    case h_3 => cases h
    all_goals
      split at h <;> cases h
      rfl
  case release lease =>
    split at h
    case h_2 => cases h
    case h_1 =>
      obtain ⟨_, _, he⟩ := Option.map_eq_some_iff.mp h
      cases he
      rfl
  case rejected | released | left =>
    split at h <;> cases h
    rfl
  case aborted =>
    split at h <;> cases h
    rfl

/-- The listener has no task. -/
def Listening.Shut (listening : Listening) : Prop := listening = .unbound ∨ listening = .stopped

/-- The listeners that `serve` has shut down. -/
def Serving.Past : Serving → Listener → Prop
  | .closing .unix, .tcp => True
  | .unwrapping, _ | .done _, _ => True
  | _, _ => False

namespace Server

/-- **Tasks belong to listeners that are up**, and `serve` goes on when a listener is down. -/
structure Orderly (s : Server) : Prop where
  engine : Running s.system
  tasks : ∀ client ∈ s.clients, client.running = true → ¬(s.listeners client.listener).Shut
  past : ∀ listener, s.serving.Past listener → (s.listeners listener).Shut
  returned : ∀ retained, s.serving = .done retained → retained = false

variable {s t : Server}

/-- The listeners and the tasks stay as they are. -/
theorem Orderly.same (h : Orderly s) (he : Running t.system) (hl : t.listeners = s.listeners)
    (hc : ∀ client ∈ t.clients, client.running = true →
      ∃ before ∈ s.clients, before.running = true ∧ before.listener = client.listener)
    (hs : t.serving = s.serving) : Orderly t where
  engine := he
  tasks := fun client hm hrun => by
    obtain ⟨before, hb, hr, hsame⟩ := hc client hm hrun
    rw [hl, ← hsame]
    exact h.tasks before hb hr
  past := fun listener hp => by
    rw [hl]
    exact h.past listener (hs ▸ hp)
  returned := fun retained hd => h.returned retained (hs ▸ hd)

/-- Nobody holds the manager where no listener has a task. -/
theorem Orderly.holders_eq_zero (h : Orderly s) (hp : ∀ listener, s.serving.Past listener) :
    s.holders = 0 ∧ ∀ client ∈ s.clients, client.running = false := by
  have hshut := fun listener => h.past listener (hp listener)
  have hended : ∀ client ∈ s.clients, client.running = false := by
    intro client hm
    by_contra hrun
    exact h.tasks client hm (by simpa using hrun) (hshut _)
  refine ⟨?_, hended⟩
  have hlisteners : [Listener.tcp, .unix].countP (fun listener =>
      s.listeners listener = .accepting ∨ s.listeners listener = .stopping) = 0 := by
    rw [List.countP_eq_zero]
    intro listener _
    rcases hshut listener with hl | hl <;> simp [hl]
  have hclients : s.clients.countP Client.running = 0 := by
    rw [List.countP_eq_zero]
    intro client hm
    simp [hended client hm]
  rw [holders, hlisteners, hclients]

end Server

/-- A step of a task leaves the engine running. -/
theorem Running.goes {system system' : System} {client after : Client} {progress : Progress}
    (hr : (Manager.system config).Reachable system) (h : Running system)
    (hg : Goes system client progress system' after)
    (hm : ∀ session ∈ client.sessions, session ∈ system.sessions) : Running system' := by
  obtain ⟨actions, hactions, hcalled⟩ := hg.run h.1 hm
  have hall : (Manager.system config).Reachable system' ∧ Running system' := by
    refine hactions.invariant (I := fun system => (Manager.system config).Reachable system ∧
      Running system) (fun before action next ha hI hstep => ?_) ⟨hr, h⟩
    refine ⟨hI.1.step hstep, hI.2.act hI.1 hstep.2 ?_⟩
    rintro rfl
    cases hcalled _ ha
  exact hall.2

namespace Server

section Order

variable {s t : Server}

/-- A listener that accepts has a task. -/
theorem Orderly.accept (h : Orderly s) {listener : Listener}
    (hstep : s.act pgwire template configured (.accept listener) = some t) : Orderly t := by
  simp only [Server.act] at hstep
  split at hstep <;> cases hstep
  rename_i hl
  refine ⟨h.engine, fun client hm hr => ?_, h.past, h.returned⟩
  rcases List.mem_append.mp hm with hm | hm
  · exact h.tasks client hm hr
  · rw [List.mem_singleton.mp hm]
    simp [Listening.Shut, hl]

theorem Orderly.progress (h : Orderly s)
    (hs : (server pgwire template configured config).Reachable s) {index : Nat}
    {progress : Progress}
    (hstep : s.act pgwire template configured (.progress index progress) = some t) :
    Orderly t := by
  obtain ⟨hsystem, htended⟩ := server_tended hs
  obtain ⟨client, after, hc, hp, hclients, hlisteners, hserving⟩ := Server.act_progress hstep
  refine h.same (h.engine.goes hsystem (progress_goes hp) (htended.owns hc)) hlisteners
    (fun other hm hr => ?_) hserving
  rw [hclients] at hm
  rcases List.mem_or_eq_of_mem_set hm with hm | rfl
  · exact ⟨other, hm, hr, rfl⟩
  · exact ⟨client, List.mem_of_getElem? hc, progress_running hp, (progress_listener hp).symm⟩

theorem Orderly.handles (h : Orderly s)
    (hs : (server pgwire template configured config).Reachable s) {action : Action}
    (hstep : s.act pgwire template configured (.engine action) = some t) : Orderly t := by
  simp only [Server.act] at hstep
  split at hstep
  case isFalse => cases hstep
  case isTrue hout =>
    obtain ⟨system, ha, he⟩ := Option.map_eq_some_iff.mp hstep
    cases he
    refine h.same (h.engine.act (server_tended hs).1 ha ?_) rfl
      (fun client hm hr => ⟨client, hm, hr, rfl⟩) rfl
    rintro rfl
    cases hout

/-- No listener is shut down yet. -/
theorem Orderly.opens (h : Orderly s) {ok : Bool}
    (hstep : s.act pgwire template configured (.opens ok) = some t) : Orderly t := by
  simp only [Server.act] at hstep
  split at hstep
  case h_2 => cases hstep
  case h_1 listener hserving =>
    have hopen : ∀ other, ¬(Serving.afterOpen listener).Past other := by
      intro other
      cases listener <;> exact id
    have hdone : ∀ retained, Serving.afterOpen listener ≠ .done retained := by
      intro retained
      cases listener <;> simp [Serving.afterOpen]
    split at hstep
    · split at hstep <;> cases hstep
      · refine ⟨h.engine, fun client hm hr => ?_, fun other hp => absurd hp (hopen other),
          fun retained hd => absurd hd (hdone retained)⟩
        simp only [Function.update_apply]
        split
        · simp [Listening.Shut]
        · exact h.tasks client hm hr
      · exact ⟨h.engine, h.tasks, fun other hp => by cases other <;> exact hp.elim,
          fun retained hd => by cases hd⟩
    · cases hstep
      exact ⟨h.engine, h.tasks, fun other hp => absurd hp (hopen other),
        fun retained hd => absurd hd (hdone retained)⟩

theorem Orderly.signal (h : Orderly s)
    (hstep : s.act pgwire template configured .signal = some t) : Orderly t := by
  simp only [Server.act] at hstep
  split at hstep <;> cases hstep
  exact ⟨h.engine, h.tasks, fun other hp => by cases other <;> exact hp.elim,
    fun retained hd => by cases hd⟩

/-- `serve` goes on to the next listener when one is down. -/
theorem Orderly.close (h : Orderly s)
    (hstep : s.act pgwire template configured .close = some t) : Orderly t := by
  simp only [Server.act] at hstep
  split at hstep
  case h_2 => cases hstep
  case h_1 listener hserving =>
    have hafter : (s.listeners listener).Shut →
        ∀ other, (Serving.afterClose listener).Past other → (s.listeners other).Shut := by
      intro hshut other hp
      have hpast := h.past other
      rw [hserving] at hpast
      cases listener <;> cases other
      · exact hshut
      · exact hp.elim
      · exact hpast trivial
      · exact hshut
    have hdone : ∀ retained, Serving.afterClose listener ≠ .done retained := by
      intro retained
      cases listener <;> simp [Serving.afterClose]
    split at hstep
    case h_1 hl =>
      cases hstep
      exact ⟨h.engine, h.tasks, hafter (Or.inl hl), fun retained hd => absurd hd (hdone retained)⟩
    case h_2 hl =>
      cases hstep
      exact ⟨h.engine, h.tasks, hafter (Or.inr hl), fun retained hd => absurd hd (hdone retained)⟩
    case h_3 hl =>
      cases hstep
      refine ⟨h.engine, fun client hm hr => ?_, fun other hp => ?_, h.returned⟩
      · simp only [Function.update_apply]
        split
        · simp [Listening.Shut]
        · exact h.tasks client hm hr
      · have hpast := h.past other hp
        have hne : other ≠ listener := by
          rintro rfl
          rw [hl] at hpast
          simp [Listening.Shut] at hpast
        simp only [Function.update_of_ne hne]
        exact hpast
    case h_4 => cases hstep

/-- A listener stops when its tasks have ended. -/
theorem Orderly.stopped (h : Orderly s) {listener : Listener}
    (hstep : s.act pgwire template configured (.stopped listener) = some t) : Orderly t := by
  simp only [Server.act] at hstep
  split at hstep <;> cases hstep
  rename_i hl
  refine ⟨h.engine, fun client hm hr => ?_, fun other hp => ?_, h.returned⟩
  · have hnone := List.countP_eq_zero.mp hl.2 client hm
    have hne : client.listener ≠ listener := by
      rintro rfl
      simp [hr] at hnone
    simp only [Function.update_of_ne hne]
    exact h.tasks client hm hr
  · simp only [Function.update_apply]
    split
    · exact Or.inr rfl
    · exact h.past other hp

/-- `Arc::try_unwrap` finds nobody. -/
theorem Orderly.unwrap (h : Orderly s)
    (hstep : s.act pgwire template configured .unwrap = some t) : Orderly t := by
  simp only [Server.act] at hstep
  split at hstep <;> cases hstep
  rename_i hserving
  have hpast : ∀ listener, s.serving.Past listener := by
    intro listener
    rw [hserving]
    trivial
  refine ⟨h.engine, h.tasks, fun listener _ => h.past listener (hpast listener),
    fun retained hd => ?_⟩
  cases hd
  simp [(h.holders_eq_zero hpast).1]

end Order

end Server

/-- **The server stays in order.** -/
theorem server_orderly (h : (server pgwire template configured config).Reachable s) :
    s.Orderly := by
  refine h.invariant (fun s hs => ?_) fun s occurrence t hr hI ⟨_, hstep⟩ => ?_
  · obtain ⟨⟨⟨reports, hok⟩, hi, _, _⟩, hclients, hlisteners, hserving⟩ := hs
    refine ⟨⟨init_running ⟨reports, hok⟩, by simp [hi]⟩, by simp [hclients], fun listener _ =>
      Or.inl (hlisteners listener), fun retained hd => ?_⟩
    rw [hserving] at hd
    cases hd
  · cases occurrence with
    | accept listener => exact hI.accept hstep
    | progress index progress => exact hI.progress hr hstep
    | engine action => exact hI.handles hr hstep
    | opens ok => exact hI.opens hstep
    | signal => exact hI.signal hstep
    | close => exact hI.close hstep
    | stopped listener => exact hI.stopped hstep
    | unwrap => exact hI.unwrap hstep

/-! ### Connections -/

/-- Counting the entries of a list by their places. -/
theorem countP_range {α : Type} (p : α → Bool) (l : List α) :
    l.countP p = (List.range l.length).countP fun i => (l[i]?).any p := by
  have hmap : l.map some = (List.range l.length).map fun i => l[i]? := by
    refine List.ext_getElem? fun i => ?_
    by_cases hi : i < l.length
    · simp [hi]
    · simp [List.getElem?_eq_none (Nat.le_of_not_lt hi), List.getElem?_eq_none
        (by simpa using Nat.le_of_not_lt hi : (List.range l.length).length ≤ i)]
  calc l.countP p = (l.map some).countP (fun x => x.any p) := by
        rw [List.countP_map]
        rfl
    _ = _ := by
        rw [hmap, List.countP_map]
        rfl

/-- Where everybody has one at most, the entries are counted by who has them. -/
theorem countP_flatMap_le_one {α β : Type} (p : β → Bool) {f : α → List β}
    (h : ∀ a, (f a).length ≤ 1) (l : List α) :
    (l.flatMap f).countP p = l.countP fun a => (f a).any p := by
  induction l with
  | nil => rfl
  | cons a l ih =>
    rw [List.flatMap_cons, List.countP_append, ih, List.countP_cons]
    have ha := h a
    match hf : f a with
    | [] => simp
    | [b] => simp [List.countP_cons, Nat.add_comm]
    | b :: c :: rest => simp [hf] at ha

namespace Server

/-- The tasks that own a session for the assignment. -/
def connected (s : Server) (key : Key) : Nat :=
  s.clients.countP fun client => client.sessions.any (LeaseSession.guards key)

/-- The tasks that did not read their session yet. -/
def unread (s : Server) (key : Key) : Nat :=
  s.clients.countP fun client => client.channels.any fun channel =>
    (s.system.channels[channel]?).any (Channel.guards key)

variable {s : Server}

theorem Tended.connected_eq (h : Tended s) (key : Key) :
    s.connected key = s.system.sessions.countP (LeaseSession.guards key) := by
  have hone : ∀ client : Client, client.sessions.length ≤ 1 := by
    intro client
    unfold Client.sessions
    split <;> simp
  rw [connected, ← countP_flatMap_le_one _ hone]
  exact (Multiset.coe_eq_coe.mp h.sessions).countP_eq _

theorem Tended.unread_eq (h : Tended s) (key : Key) :
    s.unread key = s.system.channels.countP (Channel.guards key) := by
  have hone : ∀ client : Client, client.channels.length ≤ 1 := by
    intro client
    unfold Client.channels
    split <;> simp
  rw [unread, ← countP_flatMap_le_one _ hone, countP_range (Channel.guards key),
    List.countP_eq_length_filter, List.countP_eq_length_filter]
  refine List.Perm.length_eq ?_
  have hnd : (s.clients.flatMap Client.channels).Nodup := Multiset.coe_nodup.mp h.nodup
  refine (List.perm_ext_iff_of_nodup (hnd.filter _) (List.nodup_range.filter _)).mpr ?_
  intro channel
  rw [List.mem_filter, List.mem_filter, List.mem_range]
  refine and_congr_left fun hg => ⟨fun hm => h.fits channel (Multiset.mem_coe.mpr hm), ?_⟩
  intro _
  refine Multiset.mem_coe.mp (h.opened channel ?_)
  obtain ⟨state, hs, hp⟩ := (Option.any_eq_true _ _).mp hg
  refine ⟨state, hs, ?_⟩
  rintro rfl
  cases hp

end Server

/-- **Connections are tasks.**  The engine counts for an assignment the tasks that own a
session for it, connecting or relaying, the tasks whose reply brings one and is not read
yet, and the sessions that were dropped and whose `Detach` it has still to read. -/
theorem clients_accounted (h : (server pgwire template configured config).Reachable s)
    {lease : LeaseId} {entry : LeaseEntry}
    (hl : s.system.engine.leases.lookup lease = some entry) :
    entry.conns = s.connected (lease, entry.generation) + s.unread (lease, entry.generation) +
      s.system.detaches (lease, entry.generation) := by
  obtain ⟨hsystem, htended⟩ := server_tended h
  rw [(system_balanced hsystem).conns lease entry hl, htended.connected_eq, htended.unread_eq]
  rfl

/-! ### The end of `serve` -/

/-- The steps of `serve`, of the listeners, and of tasks that are aborted. -/
def Occurrence.own : Occurrence → Bool
  | .close | .unwrap | .stopped _ | .progress _ .aborted => true
  | _ => false

/-- A connection is accepted. -/
def Occurrence.accepts : Occurrence → Bool
  | .accept _ => true
  | _ => false

/-- The steps in which a listener that is up comes down. -/
def Listening.left : Listening → Nat
  | .accepting => 2
  | .stopping => 1
  | .unbound | .stopped => 0

/-- The steps in which `serve` goes on from one listener to the next, and to its end. -/
def Serving.left : Serving → Nat
  | .opening _ | .serving | .closing .tcp => 3
  | .closing .unix => 2
  | .unwrapping => 1
  | .done _ => 0

/-- `serve` shuts down, or has done so. -/
def Serving.Ending : Serving → Prop
  | .closing _ | .unwrapping | .done _ => True
  | .opening _ | .serving => False

namespace Server

/-- How many steps of their own `serve`, its listeners and its tasks take to end. -/
def left (s : Server) : Nat :=
  s.serving.left + ((s.listeners .tcp).left + (s.listeners .unix).left) +
    s.clients.countP Client.running

theorem left_le (s : Server) : s.left ≤ s.clients.length + 7 := by
  have hlistener : ∀ listening : Listening, listening.left ≤ 2 := by
    intro listening
    cases listening <;> simp [Listening.left]
  have hserving : s.serving.left ≤ 3 := by
    unfold Serving.left
    split <;> omega
  have hclients : s.clients.countP Client.running ≤ s.clients.length := List.countP_le_length
  have htcp := hlistener (s.listeners .tcp)
  have hunix := hlistener (s.listeners .unix)
  rw [left]
  omega

/-- One listener goes on. -/
theorem left_update (listeners : Listener → Listening) (listener : Listener)
    (after : Listening) :
    (Function.update listeners listener after .tcp).left +
        (Function.update listeners listener after .unix).left + (listeners listener).left =
      (listeners .tcp).left + (listeners .unix).left + after.left := by
  cases listener with
  | tcp =>
    rw [Function.update_self, Function.update_of_ne (by decide)]
    omega
  | unix =>
    rw [Function.update_self, Function.update_of_ne (by decide)]
    omega

variable {s t : Server} {occurrence : Occurrence}

/-- A step of a task ends no more than itself, and begins nothing. -/
theorem progress_left {index : Nat} {progress : Progress}
    (hstep : s.act pgwire template configured (.progress index progress) = some t) :
    t.serving = s.serving ∧ (Occurrence.progress index progress).own.toNat + t.left ≤ s.left := by
  obtain ⟨client, after, hc, hp, hclients, hlisteners, hserving⟩ := Server.act_progress hstep
  have hset := countP_set_toNat (p := Client.running) (a := after) hc
  rw [progress_running hp, Bool.toNat_true] at hset
  have hown : (Occurrence.progress index progress).own.toNat + after.running.toNat ≤ 1 := by
    cases progress with
    | aborted =>
      simp only [Client.progress] at hp
      split at hp
      case h_1 => cases hp
      case h_2 =>
        obtain ⟨_, rfl⟩ := Prod.mk.inj (Option.some.inj hp)
        exact le_refl _
    | startup _ | negotiated _ | authenticated _ _ | replied | timedOut | unanswered
    | connected _ | cancelled | closed | rejected | release _ | released | left =>
      simpa [Occurrence.own] using Bool.toNat_le _
  refine ⟨hserving, ?_⟩
  rw [left, left, hserving, hlisteners, hclients]
  omega

/-- **A step of its own leaves less to do**; only a connection that is accepted adds to it. -/
theorem ending_step (hs : s.serving.Ending)
    (hstep : s.act pgwire template configured occurrence = some t) :
    t.serving.Ending ∧ occurrence.own.toNat + t.left ≤ s.left + occurrence.accepts.toNat := by
  cases occurrence with
  | accept listener =>
    simp only [Server.act] at hstep
    split at hstep <;> cases hstep
    refine ⟨hs, ?_⟩
    simp only [left, List.countP_append, Occurrence.own, Occurrence.accepts, Bool.toNat_false,
      Bool.toNat_true]
    have hone : [({ listener := listener } : Client)].countP Client.running = 1 := rfl
    omega
  | progress index progress =>
    obtain ⟨hserving, hleft⟩ := progress_left hstep
    exact ⟨hserving ▸ hs, hleft⟩
  | engine action =>
    simp only [Server.act] at hstep
    split at hstep
    case isFalse => cases hstep
    case isTrue =>
      obtain ⟨system, _, he⟩ := Option.map_eq_some_iff.mp hstep
      cases he
      exact ⟨hs, by simp [left, Occurrence.own, Occurrence.accepts]⟩
  | opens ok =>
    simp only [Server.act] at hstep
    split at hstep
    case h_1 hserving =>
      rw [hserving] at hs
      exact hs.elim
    case h_2 => cases hstep
  | signal =>
    simp only [Server.act] at hstep
    split at hstep
    case h_1 hserving =>
      rw [hserving] at hs
      exact hs.elim
    case h_2 => cases hstep
  | close =>
    simp only [Server.act] at hstep
    split at hstep
    case h_2 => cases hstep
    case h_1 listener hserving =>
      have hless : (Serving.afterClose listener).Ending ∧
          1 + (Serving.afterClose listener).left = s.serving.left := by
        rw [hserving]
        cases listener <;> exact ⟨trivial, rfl⟩
      split at hstep
      case h_3 hl =>
        cases hstep
        have hupdate := left_update s.listeners listener .stopping
        rw [hl] at hupdate
        refine ⟨hs, ?_⟩
        simp only [left, Listening.left, Occurrence.own, Occurrence.accepts, Bool.toNat_true,
          Bool.toNat_false] at hupdate ⊢
        omega
      case h_4 => cases hstep
      all_goals
        cases hstep
        refine ⟨hless.1, ?_⟩
        simp only [left, Occurrence.own, Occurrence.accepts, Bool.toNat_true, Bool.toNat_false]
        omega
  | stopped listener =>
    simp only [Server.act] at hstep
    split at hstep <;> cases hstep
    rename_i hl
    have hupdate := left_update s.listeners listener .stopped
    rw [hl.1] at hupdate
    refine ⟨hs, ?_⟩
    simp only [left, Listening.left, Occurrence.own, Occurrence.accepts, Bool.toNat_true,
      Bool.toNat_false] at hupdate ⊢
    omega
  | unwrap =>
    simp only [Server.act] at hstep
    split at hstep <;> cases hstep
    rename_i hserving
    refine ⟨trivial, ?_⟩
    simp only [left, hserving, Serving.left, Occurrence.own, Occurrence.accepts, Bool.toNat_true,
      Bool.toNat_false]
    omega

/-- **The steps of its own are no more than there was to do**, with one more for each
connection that was accepted meanwhile. -/
theorem ending_run {occurrences : List Occurrence}
    (h : (server pgwire template configured config).Run s occurrences t)
    (hs : s.serving.Ending) :
    t.serving.Ending ∧ occurrences.countP Occurrence.own + t.left ≤
      s.left + occurrences.countP Occurrence.accepts := by
  induction h with
  | nil s => exact ⟨hs, by simp⟩
  | @cons s u t occurrence occurrences hstep _ ih =>
    obtain ⟨hu, hone⟩ := ending_step hs hstep.2
    obtain ⟨ht, hmore⟩ := ih hu
    refine ⟨ht, ?_⟩
    rw [List.countP_cons, List.countP_cons]
    have htoNat : ∀ b : Bool, b.toNat = if b = true then 1 else 0 := by decide
    rw [htoNat, htoNat] at hone
    omega

end Server

/-- Once the listeners are shut down no task owns anything. -/
theorem nothing_left (h : (server pgwire template configured config).Reachable s)
    (hpast : ∀ listener, s.serving.Past listener) :
    s.holders = 0 ∧ (∀ client ∈ s.clients, client.running = false) ∧ s.system.sessions = [] ∧
      ∀ channel, ¬Opened s.system channel := by
  obtain ⟨hholders, hended⟩ := (server_orderly h).holders_eq_zero hpast
  obtain ⟨_, htended⟩ := server_tended h
  have hnothing : ∀ client ∈ s.clients, client.sessions = [] ∧ client.channels = [] := by
    intro client hm
    have hstage := Client.running_eq_false.mp (hended client hm)
    simp [Client.sessions, Client.channels, hstage]
  refine ⟨hholders, hended, ?_, fun channel ho => ?_⟩
  · have hnone : s.clients.flatMap Client.sessions = [] :=
      List.flatMap_eq_nil_iff.mpr fun client hm => (hnothing client hm).1
    have heq := htended.sessions
    rw [Server.sessions, hnone] at heq
    exact (Multiset.coe_eq_zero _).mp heq.symm
  · obtain ⟨client, hm, hc⟩ := List.mem_flatMap.mp (Multiset.mem_coe.mp (htended.opened _ ho))
    rw [(hnothing client hm).2] at hc
    cases hc

/-- **`serve` never blocks**: until it has the manager, a step of its own can be next. -/
theorem ending_goes (h : (server pgwire template configured config).Reachable s)
    (hs : s.serving.Ending) : s.serving = .done false ∨ ∃ occurrence t,
      occurrence.own = true ∧ (server pgwire template configured config).step s occurrence t := by
  have horderly := server_orderly h
  have hrun := horderly.engine.1
  cases hserving : s.serving with
  | opening _ | serving =>
    rw [hserving] at hs
    exact hs.elim
  | done retained => exact Or.inl (by rw [horderly.returned retained hserving])
  | unwrapping =>
    refine Or.inr ⟨.unwrap, { s with serving := .done (decide (s.holders ≠ 0)) }, rfl, hrun, ?_⟩
    simp only [Server.act, hserving]
  | closing listener =>
    right
    cases hl : s.listeners listener with
    | unbound | stopped =>
      refine ⟨.close, { s with serving := .afterClose listener }, rfl, hrun, ?_⟩
      simp only [Server.act, hserving, hl]
    | accepting =>
      refine ⟨.close, { s with
        listeners := Function.update s.listeners listener .stopping }, rfl, hrun, ?_⟩
      simp only [Server.act, hserving, hl]
    | stopping =>
      by_cases hnone : s.unended listener = 0
      · exact ⟨.stopped listener, _, rfl, hrun, if_pos ⟨hl, hnone⟩⟩
      -- a task of the listener is still there, and is aborted
      · obtain ⟨client, hm, hp⟩ := List.countP_pos_iff.mp (Nat.pos_of_ne_zero hnone)
        obtain ⟨index, hc⟩ := List.mem_iff_getElem?.mp hm
        rw [Bool.and_eq_true, decide_eq_true_eq] at hp
        obtain ⟨after, hafter⟩ : ∃ after,
            client.progress pgwire template s.system .aborted = some after :=
          Client.progress_aborted s.system hp.1
        refine ⟨.progress index .aborted, { s with
          system := after.1
          clients := s.clients.set index after.2 }, rfl, hrun, ?_⟩
        simp only [Server.act, hc, hp.2, hl, hafter, Option.map_some]

/-- Both listeners are shut down, and the manager is taken out of its `Arc`. -/
theorem serve_ends (h : (server pgwire template configured config).Reachable s)
    (hs : s.serving.Ending) :
    ∃ occurrences t, (server pgwire template configured config).Run s occurrences t ∧
      occurrences.length ≤ s.left ∧ (∀ occurrence ∈ occurrences, occurrence.own = true) ∧
      t.serving = .done false := by
  obtain ⟨occurrences, t, hr, hlen, hown, _, ht⟩ := Machine.Run.toward
    (M := server pgwire template configured config) (m := Server.left)
    (G := fun s => s.serving = .done false) (P := fun occurrence => occurrence.own = true)
    (I := fun s => (server pgwire template configured config).Reachable s ∧ s.serving.Ending)
    (by
      intro u ⟨hu, hend⟩ hopen
      obtain ⟨occurrence, v, hown, hstep⟩ := (ending_goes hu hend).resolve_left hopen
      obtain ⟨hv, hless⟩ := Server.ending_step hend hstep.2
      have hnone : occurrence.accepts = false := by
        cases occurrence <;> first | rfl | cases hown
      rw [hown, hnone, Bool.toNat_true, Bool.toNat_false] at hless
      exact ⟨occurrence, v, hown, hstep, ⟨hu.step hstep, hv⟩, by omega⟩)
    ⟨h, hs⟩
  exact ⟨occurrences, t, hr, hlen, hown, ht⟩

/-- **Connections are tasks, and `serve` gets the manager back.**  The engine counts the
connections of a lease as the tasks that own a session, with those whose reply is unread and
the `Detach` messages in the inbox.  Once `serve` has shut its listeners down, every task has
ended and nobody holds the manager but `serve`, so `Arc::try_unwrap` never fails; no session
and no reply channel is left, and each connection that is still counted has its `Detach` in
the inbox.

From the moment `serve` begins to shut down, whatever clients, PostgreSQL and the engine do or
leave, the steps of its own in any run are at most `left` and the connections accepted
meanwhile, one of them is possible until it has the manager, and they alone lead there. -/
theorem serve_returns_manager (h : (server pgwire template configured config).Reachable s) :
    (∀ lease entry, s.system.engine.leases.lookup lease = some entry →
      entry.conns = s.connected (lease, entry.generation) +
        s.unread (lease, entry.generation) + s.system.detaches (lease, entry.generation)) ∧
    (s.serving = .unwrapping ∨ (∃ retained, s.serving = .done retained) →
      s.holders = 0 ∧ (∀ client ∈ s.clients, client.running = false) ∧
      s.system.sessions = [] ∧ (∀ channel, ¬Opened s.system channel) ∧
      (∀ lease entry, s.system.engine.leases.lookup lease = some entry →
        entry.conns = s.system.detaches (lease, entry.generation)) ∧
      ∀ retained, s.serving = .done retained → retained = false) ∧
    (s.serving.Ending →
      s.left ≤ s.clients.length + 7 ∧
      (∀ occurrences t, (server pgwire template configured config).Run s occurrences t →
        t.serving.Ending ∧
        occurrences.countP Occurrence.own + t.left ≤
          s.left + occurrences.countP Occurrence.accepts ∧
        (t.serving = .done false ∨ ∃ occurrence u, occurrence.own = true ∧
          (server pgwire template configured config).step t occurrence u)) ∧
      ∃ occurrences t, (server pgwire template configured config).Run s occurrences t ∧
        t.serving = .done false ∧ (∀ occurrence ∈ occurrences, occurrence.own = true) ∧
        occurrences.length ≤ s.left) := by
  refine ⟨fun lease entry hl => clients_accounted h hl, fun hserving => ?_, fun hending =>
    ⟨s.left_le, fun occurrences t hr => ?_, ?_⟩⟩
  · have hpast : ∀ listener, s.serving.Past listener := by
      intro listener
      rcases hserving with hs | ⟨_, hs⟩ <;> rw [hs] <;> trivial
    obtain ⟨hholders, hended, hsessions, hopened⟩ := nothing_left h hpast
    refine ⟨hholders, hended, hsessions, hopened, fun lease entry hl => ?_,
      (server_orderly h).returned⟩
    -- no session is left, and no reply that holds one
    have hguards : s.system.guards (lease, entry.generation) = 0 := by
      rw [System.guards, hsessions, List.countP_nil, Nat.zero_add, List.countP_eq_zero]
      intro state hm hg
      obtain ⟨channel, hc⟩ := List.mem_iff_getElem?.mp hm
      refine hopened channel ⟨state, hc, ?_⟩
      rintro rfl
      cases hg
    have hcount := (system_balanced (server_tended h).1).conns lease entry hl
    rw [System.pending, hguards] at hcount
    omega
  · obtain ⟨ht, hcount⟩ := Server.ending_run hr hending
    exact ⟨ht, hcount, ending_goes (h.run hr) ht⟩
  · obtain ⟨occurrences, t, hr, hlen, hown, ht⟩ := serve_ends h hending
    exact ⟨occurrences, t, hr, ht, hown, hlen⟩

/-- A server that shuts down while a client relays. -/
theorem serve_returns_manager_small : ∃ s : Server,
    (server Sample.decoder "t" Sample.configured Engine.Sample.settings).Reachable s ∧
      s.connected (Engine.Sample.leaseA, 1) = 1 ∧ s.left = 8 ∧
      ∃ occurrences t,
        (server Sample.decoder "t" Sample.configured Engine.Sample.settings).Run s occurrences t ∧
          t.serving = .done false ∧ occurrences.length ≤ 8 := by
  have hrun : ((Sample.served (Sample.connected ++ [.signal])).any fun s =>
      decide (s.serving = .closing .tcp ∧ s.connected (Engine.Sample.leaseA, 1) = 1 ∧
        s.left = 8)) = true := by decide
  obtain ⟨s, hs, hp⟩ := (Option.any_eq_true _ _).mp hrun
  obtain ⟨hserving, hcount, hleft⟩ := of_decide_eq_true hp
  have hreach := Sample.reachable_served hs
  have hending : s.serving.Ending := hserving ▸ trivial
  obtain ⟨_, _, occurrences, t, ht, hdone, _, hlen⟩ := (serve_returns_manager hreach).2.2 hending
  exact ⟨s, hreach, hcount, hleft, occurrences, t, ht, hdone, hleft ▸ hlen⟩

end PgTest.Wire
