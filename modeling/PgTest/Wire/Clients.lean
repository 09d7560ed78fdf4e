import PgTest.Manager.Workers
import PgTest.Wire.Server

/-!
# What the clients of the server own

`Goes` says once what a step of a connection's task can do to the system and to what the
task owns.  From it follows that the server is the callers' system, and that what callers
own is owned by exactly one task (`server_tended`).
-/

namespace PgTest.Wire

open PgTest.Lib PgTest.Engine PgTest.Manager

variable {pgwire : Pgwire} {template : String} {configured : Configured}
variable {config : WorkerEngineConfig}

/-! ### One step of a task -/

/-- The actions of the system that a connection takes. -/
def called : Action → Bool
  | .attach _ _ | .release _ | .attachEnds _ | .dropReceiver _ | .dropSession _ => true
  | .leaseTimer _ _ | .databaseWorker _ | .shutdown | .handle _ => false

/-- What a step does to the system and to what the task owns. -/
inductive Goes (system : System) (client : Client) (progress : Progress) :
    System → Client → Prop
  | keeps {after : Client} (hs : after.sessions = client.sessions)
      (hc : after.channels = client.channels) (hr : after.request = client.request) :
      Goes system client progress system after
  | forgets {after : Client} {channel : Nat} (hc : client.channels = [channel])
      (hclosed : system.channels[channel]? = some .closed) (hs : client.sessions = [])
      (hc' : after.channels = []) (hs' : after.sessions = [])
      (hr : after.request = client.request) : Goes system client progress system after
  | asks {after : Client} {lease : LeaseId} {now : Nat} {system' : System}
      (ha : system.act (.attach lease now) = some system')
      (hstage : client.stage = .authenticating) (hnow : progress = .authenticated true now)
      (hc : client.channels = [])
      (hs : client.sessions = [])
      (hc' : after.channels = [system.channels.length]) (hs' : after.sessions = [])
      (hr : after.request = some (lease, system.channels.length)) :
      Goes system client progress system' after
  | releases {after : Client} {lease : LeaseId} {system' : System}
      (ha : system.act (.release lease) = some system')
      (hc : client.channels = []) (hs : client.sessions = [])
      (hc' : after.channels = [system.channels.length]) (hs' : after.sessions = [])
      (hr : after.request = client.request) : Goes system client progress system' after
  | takes {after : Client} {channel : Nat} {reply : ManagerReply} {system' : System}
      (ha : system.act (.attachEnds channel) = some system')
      (hreply : system.channels[channel]? = some (.holding reply))
      (hc : client.channels = [channel]) (hs : client.sessions = []) (hc' : after.channels = [])
      (hs' : after.sessions =
        (attachResult system.engine.isCancelled reply).1.toOption.toList)
      (hr : after.request = client.request) : Goes system client progress system' after
  | drops {after : Client} {channel : Nat} (hc : client.channels = [channel])
      (hs : client.sessions = []) (hc' : after.channels = []) (hs' : after.sessions = [])
      (hr : after.request = client.request) :
      Goes system client progress (dropReceiver channel system) after
  | gives {after : Client} {session : LeaseSession} (hs : client.sessions = [session])
      (hc : client.channels = []) (hc' : after.channels = []) (hs' : after.sessions = [])
      (hr : after.request = client.request) :
      Goes system client progress (dropSession session system) after

theorem route_owns (startup : Option Parameters) (client : Client) :
    (client.route startup).sessions = [] ∧ (client.route startup).channels = [] ∧
      (client.route startup).request = client.request := by
  unfold Client.route
  cases startup with
  | none => exact ⟨rfl, rfl, rfl⟩
  | some params =>
    simp only
    split
    · exact ⟨rfl, rfl, rfl⟩
    · split
      · exact ⟨rfl, rfl, rfl⟩
      · split <;> exact ⟨rfl, rfl, rfl⟩

theorem askForLease_goes {now : Nat} {system system' : System} {before client after : Client}
    (hstage : before.stage = .authenticating) (hs : before.sessions = [])
    (hc : before.channels = [])
    (h : askForLease template now system client = some (system', after))
    (hr : client.request = before.request) :
    Goes system before (.authenticated true now) system' after := by
  unfold askForLease at h
  split at h
  · cases h
    exact .keeps hs.symm hc.symm hr
  · split at h
    · cases h
      exact .keeps hs.symm hc.symm hr
    · obtain ⟨_, ha, he⟩ := Option.map_eq_some_iff.mp h
      cases he
      exact .asks ha hstage rfl hc hs rfl rfl rfl

theorem takeReply_goes {channel : Nat} {progress : Progress} {system system' : System}
    {client after : Client} (hs : client.sessions = []) (hc : client.channels = [channel])
    (h : takeReply channel system client = some (system', after)) :
    Goes system client progress system' after := by
  unfold takeReply at h
  split at h
  case h_2 => cases h
  case h_1 reply hreply =>
    obtain ⟨_, ha, he⟩ := Option.map_eq_some_iff.mp h
    cases he
    refine .takes ha hreply hc hs ?_ ?_ ?_ <;> split <;> rename_i hres
    · rfl
    · rfl
    · simp [Client.sessions, hres, Except.toOption]
    · simp [Client.sessions, Client.refuse, Client.reject, Client.rejectWith, hres, Except.toOption]
    · rfl
    · rfl

section Stages

variable {progress : Progress} {system system' : System} {client after : Client}

/-- A step of a task that owns nothing, and takes nothing. -/
theorem Goes.nothing (hs : client.sessions = []) (hc : client.channels = [])
    (hs' : after.sessions = []) (hc' : after.channels = []) (hr : after.request = client.request) :
    Goes system client progress system after :=
  .keeps (hs'.trans hs.symm) (hc'.trans hc.symm) hr

theorem startup_goes (hstage : client.stage = .startup)
    (h : client.progress pgwire template system progress = some (system', after)) :
    Goes system client progress system' after := by
  have hs : client.sessions = [] := by simp [Client.sessions, hstage]
  have hc : client.channels = [] := by simp [Client.channels, hstage]
  cases progress <;> simp only [Client.progress, hstage, hs, hc, reduceCtorEq, List.foldr_nil,
    Option.some.injEq, Prod.mk.injEq] at h
  case startup params =>
    obtain ⟨rfl, rfl⟩ := h
    obtain ⟨h1, h2, h3⟩ := route_owns params client
    exact .nothing hs hc h1 h2 h3
  case aborted =>
    obtain ⟨rfl, rfl⟩ := h
    exact .nothing hs hc rfl rfl rfl

theorem negotiating_goes (hstage : client.stage = .negotiating)
    (h : client.progress pgwire template system progress = some (system', after)) :
    Goes system client progress system' after := by
  have hs : client.sessions = [] := by simp [Client.sessions, hstage]
  have hc : client.channels = [] := by simp [Client.channels, hstage]
  cases progress <;> simp only [Client.progress, hstage, hs, hc, reduceCtorEq, List.foldr_nil,
    Option.some.injEq, Prod.mk.injEq] at h
  case negotiated ok =>
    obtain ⟨rfl, rfl⟩ := h
    cases ok <;> exact .nothing hs hc rfl rfl rfl
  case aborted =>
    obtain ⟨rfl, rfl⟩ := h
    exact .nothing hs hc rfl rfl rfl

theorem authenticating_goes (hstage : client.stage = .authenticating)
    (h : client.progress pgwire template system progress = some (system', after)) :
    Goes system client progress system' after := by
  have hs : client.sessions = [] := by simp [Client.sessions, hstage]
  have hc : client.channels = [] := by simp [Client.channels, hstage]
  cases progress <;> simp only [Client.progress, hstage, hs, hc, reduceCtorEq, List.foldr_nil] at h
  case authenticated ok now =>
    cases ok with
    | false =>
      cases h
      exact .nothing hs hc rfl rfl rfl
    | true => exact askForLease_goes hstage hs hc ((if_pos rfl).symm.trans h) rfl
  case aborted =>
    cases h
    exact .nothing hs hc rfl rfl rfl

/-- A control connection, between its requests or in one. -/
theorem control_goes {release : Option Nat} (hstage : client.stage = .control release)
    (h : client.progress pgwire template system progress = some (system', after)) :
    Goes system client progress system' after := by
  have hs : client.sessions = [] := by simp [Client.sessions, hstage]
  cases release with
  | none =>
    have hc : client.channels = [] := by simp [Client.channels, hstage]
    cases progress <;> simp only [Client.progress, hstage, hs, hc, reduceCtorEq,
      List.foldr_nil] at h
    case release lease =>
      obtain ⟨_, ha, he⟩ := Option.map_eq_some_iff.mp h
      cases he
      exact .releases ha hc hs rfl rfl rfl
    case left | aborted =>
      cases h
      exact .nothing hs hc rfl rfl rfl
  | some channel =>
    have hc : client.channels = [channel] := by simp [Client.channels, hstage]
    cases progress <;> simp only [Client.progress, hstage, hs, hc, reduceCtorEq,
      List.foldr_nil, List.foldr_cons] at h
    case released | aborted =>
      cases h
      exact .drops hc hs rfl rfl rfl

theorem attaching_goes {channel : Nat} (hstage : client.stage = .attaching channel)
    (h : client.progress pgwire template system progress = some (system', after)) :
    Goes system client progress system' after := by
  have hs : client.sessions = [] := by simp [Client.sessions, hstage]
  have hc : client.channels = [channel] := by simp [Client.channels, hstage]
  cases progress <;> simp only [Client.progress, hstage, hs, hc, reduceCtorEq,
    List.foldr_nil, List.foldr_cons] at h
  case replied => exact takeReply_goes hs hc h
  case timedOut =>
    split at h
    · cases h
    · cases h
      exact .drops hc hs rfl rfl rfl
  case unanswered =>
    split at h
    · cases h
      exact .forgets hc ‹_› hs rfl rfl rfl
    · cases h
  case aborted =>
    cases h
    exact .drops hc hs rfl rfl rfl

/-- The session stays with the task until it was rejected. -/
theorem connecting_goes {session : LeaseSession} (hstage : client.stage = .connecting session)
    (h : client.progress pgwire template system progress = some (system', after)) :
    Goes system client progress system' after := by
  have hs : client.sessions = [session] := by simp [Client.sessions, hstage]
  have hc : client.channels = [] := by simp [Client.channels, hstage]
  cases progress <;> simp only [Client.progress, hstage, hs, hc, reduceCtorEq,
    List.foldr_nil, List.foldr_cons] at h
  case connected stream =>
    split at h
    · cases h
    · split at h <;> cases h <;> exact .keeps hs.symm hc.symm rfl
  case cancelled =>
    split at h
    · cases h
      exact .keeps hs.symm hc.symm rfl
    · cases h
  case aborted =>
    cases h
    exact .gives hs hc rfl rfl rfl

theorem rejecting_goes {owned : Option LeaseSession} (hstage : client.stage = .rejecting owned)
    (h : client.progress pgwire template system progress = some (system', after)) :
    Goes system client progress system' after := by
  have hc : client.channels = [] := by simp [Client.channels, hstage]
  cases owned with
  | none =>
    have hs : client.sessions = [] := by simp [Client.sessions, hstage]
    cases progress <;> simp only [Client.progress, hstage, hs, hc, reduceCtorEq,
      Option.toList_none, List.foldr_nil] at h
    case rejected | aborted =>
      cases h
      exact .nothing hs hc rfl rfl rfl
  | some session =>
    have hs : client.sessions = [session] := by simp [Client.sessions, hstage]
    cases progress <;> simp only [Client.progress, hstage, hs, hc, reduceCtorEq,
      Option.toList_some, List.foldr_nil, List.foldr_cons] at h
    case rejected | aborted =>
      cases h
      exact .gives hs hc rfl rfl rfl

theorem relaying_goes {session : LeaseSession} {upstream : UpstreamSession}
    (hstage : client.stage = .relaying session upstream)
    (h : client.progress pgwire template system progress = some (system', after)) :
    Goes system client progress system' after := by
  have hs : client.sessions = [session] := by simp [Client.sessions, hstage]
  have hc : client.channels = [] := by simp [Client.channels, hstage]
  cases progress <;> simp only [Client.progress, hstage, hs, hc, reduceCtorEq,
    List.foldr_nil, List.foldr_cons] at h
  case cancelled | closed =>
    split at h <;> cases h
    exact .gives hs hc rfl rfl rfl
  case aborted =>
    cases h
    exact .gives hs hc rfl rfl rfl

/-- A task that ended takes no step. -/
theorem progress_ended (hstage : client.stage = .ended) :
    client.progress pgwire template system progress = none := by
  cases progress <;> simp only [Client.progress, hstage]

theorem Client.running_eq_false : client.running = false ↔ client.stage = .ended := by
  unfold Client.running
  split
  case h_1 hstage => exact ⟨fun _ => hstage, fun _ => rfl⟩
  case h_2 hne => exact ⟨fun h => Bool.noConfusion h, fun hstage => absurd hstage hne⟩

/-- A task that runs can be aborted. -/
theorem Client.progress_aborted (system : System) (h : client.running = true) :
    ∃ after, client.progress pgwire template system .aborted = some after := by
  simp only [Client.progress]
  split
  case h_1 hstage => rw [Client.running_eq_false.mpr hstage] at h; cases h
  case h_2 => exact ⟨_, rfl⟩

/-- A task that takes a step runs. -/
theorem progress_running
    (h : client.progress pgwire template system progress = some (system', after)) :
    client.running = true := by
  by_contra hend
  rw [Bool.not_eq_true, Client.running_eq_false] at hend
  cases (progress_ended hend).symm.trans h

/-- **Every step of a task goes one of these ways.** -/
theorem progress_goes
    (h : client.progress pgwire template system progress = some (system', after)) :
    Goes system client progress system' after := by
  cases hstage : client.stage with
  | startup => exact startup_goes hstage h
  | control release => exact control_goes hstage h
  | negotiating => exact negotiating_goes hstage h
  | authenticating => exact authenticating_goes hstage h
  | attaching channel => exact attaching_goes hstage h
  | connecting session => exact connecting_goes hstage h
  | relaying session upstream => exact relaying_goes hstage h
  | rejecting owned => exact rejecting_goes hstage h
  | ended => cases (progress_ended hstage).symm.trans h

end Stages

/-! ### What becomes of the system -/

/-- A channel that is not done. -/
def Opened (system : System) (channel : Nat) : Prop :=
  ∃ state, system.channels[channel]? = some state ∧ state ≠ .closed

section Effects

variable {system system' : System}

theorem Opened.lt {channel : Nat} (h : Opened system channel) :
    channel < system.channels.length := by
  obtain ⟨state, hs, _⟩ := h
  exact (List.getElem?_eq_some_iff.mp hs).1

/-- A channel is closed, and no other changes. -/
theorem opened_set {channel other : Nat}
    (hc : system'.channels = system.channels.set channel .closed)
    (h : Opened system' other) : Opened system other ∧ other ≠ channel := by
  obtain ⟨state, hs, hne⟩ := h
  rw [hc, List.getElem?_set] at hs
  split at hs
  · split at hs
    · cases hs
      exact absurd rfl hne
    · cases hs
  · exact ⟨⟨state, hs, hne⟩, Ne.symm ‹_›⟩

theorem opened_append {channel : Nat} (hc : system'.channels = system.channels ++ [.waiting])
    (h : Opened system' channel) :
    Opened system channel ∨ channel = system.channels.length := by
  obtain ⟨state, hs, hne⟩ := h
  have hlt := (List.getElem?_eq_some_iff.mp hs).1
  rw [hc, List.length_append, List.length_singleton] at hlt
  by_cases hl : channel < system.channels.length
  · rw [hc, List.getElem?_append_left hl] at hs
    exact Or.inl ⟨state, hs, hne⟩
  · exact Or.inr (by omega)

/-- **A receiver is dropped.** -/
theorem dropReceiver_effect (channel : Nat) (system : System) :
    (dropReceiver channel system = system ∧ ¬Opened system channel ∨
      system.act (.dropReceiver channel) = some (dropReceiver channel system)) ∧
    (dropReceiver channel system).sessions = system.sessions ∧
    (dropReceiver channel system).channels.length = system.channels.length ∧
    ∀ other, Opened (dropReceiver channel system) other →
      Opened system other ∧ other ≠ channel := by
  have hdone : ¬Opened system channel → ∀ other, Opened system other →
      Opened system other ∧ other ≠ channel := by
    intro hno other ho
    refine ⟨ho, ?_⟩
    rintro rfl
    exact hno ho
  cases hc : system.channels[channel]? with
  | none =>
    have hact : system.act (.dropReceiver channel) = none := by simp only [System.act, hc]
    have hno : ¬Opened system channel := by
      rintro ⟨_, ho, _⟩
      cases hc.symm.trans ho
    rw [dropReceiver, hact]
    exact ⟨Or.inl ⟨rfl, hno⟩, rfl, rfl, hdone hno⟩
  | some state =>
    cases state with
    | waiting =>
      have hact : system.act (.dropReceiver channel) = some { system with
          channels := system.channels.set channel .closed } := by simp only [System.act, hc]
      rw [dropReceiver, hact]
      exact ⟨Or.inr rfl, rfl, by simp, fun _ => opened_set rfl⟩
    | holding reply =>
      have hact : system.act (.dropReceiver channel) = some (System.post reply.drop { system with
          channels := system.channels.set channel .closed }) := by simp only [System.act, hc]
      rw [dropReceiver, hact]
      exact ⟨Or.inr rfl, rfl, by simp [System.post], fun _ => opened_set rfl⟩
    | closed =>
      have hact : system.act (.dropReceiver channel) = none := by simp only [System.act, hc]
      have hno : ¬Opened system channel := by
        rintro ⟨_, ho, hne⟩
        rw [hc] at ho
        exact hne (Option.some.inj ho).symm
      rw [dropReceiver, hact]
      exact ⟨Or.inl ⟨rfl, hno⟩, rfl, rfl, hdone hno⟩

/-- **A session is dropped.** -/
theorem dropSession_effect {session : LeaseSession} (h : session ∈ system.sessions) :
    system.act (.dropSession (system.sessions.idxOf session)) =
      some (dropSession session system) ∧
    (dropSession session system).sessions = system.sessions.erase session ∧
    (dropSession session system).channels = system.channels := by
  have hget : system.sessions[system.sessions.idxOf session]? = some session := by
    rw [List.getElem?_eq_getElem (List.idxOf_lt_length_of_mem h)]
    simp
  have hact : system.act (.dropSession (system.sessions.idxOf session)) =
      some (System.post session.drop { system with
        sessions := system.sessions.eraseIdx (system.sessions.idxOf session) }) := by
    simp only [System.act, hget]
  unfold dropSession
  rw [hact]
  exact ⟨rfl, (List.erase_eq_eraseIdx_of_idxOf rfl).symm, rfl⟩

/-- **The end of an attachment.** -/
theorem attachEnds_effect {channel : Nat} {reply : ManagerReply}
    (hreply : system.channels[channel]? = some (.holding reply))
    (h : system.act (.attachEnds channel) = some system') :
    system'.sessions = (attachResult system.engine.isCancelled reply).1.toOption.toList ++
        system.sessions ∧
      system'.channels = system.channels.set channel .closed := by
  simp only [System.act, hreply, Option.some.injEq] at h
  subst h
  exact ⟨rfl, rfl⟩

/-- The engine answers on channels that wait. -/
theorem answer_channels {event : Event ConsumerWorker} (h : system.answer event = some system') :
    system'.sessions = system.sessions ∧
      system'.channels.length = system.channels.length ∧
      ∀ channel, Opened system' channel → Opened system channel := by
  cases event with
  | reply lease worker message behind delivered =>
    rw [System.answer] at h
    split at h
    case h_2 => cases h
    case h_1 state outcome posted hb =>
      split at h
      case isFalse => cases h
      case isTrue =>
        cases h
        refine ⟨rfl, by simp, fun channel ho => ?_⟩
        obtain ⟨after, hs, hne⟩ := ho
        rw [List.getElem?_set] at hs
        split at hs
        case isFalse => exact ⟨after, hs, hne⟩
        case isTrue heq =>
          subst heq
          obtain ⟨before, hbefore, hreply⟩ := Option.bind_eq_some_iff.mp hb
          refine ⟨before, hbefore, ?_⟩
          rintro rfl
          simp only [ConsumerWorker.reply, Channel.send, Option.some.injEq, Prod.mk.injEq]
            at hreply
          split at hs
          · exact hne ((Option.some.inj hs).symm.trans hreply.1.symm)
          · cases hs
  | expired lease worker =>
    cases h
    refine ⟨rfl, by simp, fun channel ho => ?_⟩
    obtain ⟨after, hs, hne⟩ := ho
    rw [List.getElem?_modify] at hs
    obtain ⟨before, hbefore, heq⟩ := Option.map_eq_some_iff.mp hs
    refine ⟨before, hbefore, ?_⟩
    rintro rfl
    refine hne (heq.symm.trans ?_)
    split <;> rfl
  | assigned _ _ _ | scheduled _ _ _ _ _ | cancelled _ | returned _ _ _ | requestedCreation _ _
  | requestedCleanup _ _ | created _ | creationFailed _ | cleaned _ | detached _ _ | grew =>
    cases h
    exact ⟨rfl, rfl, fun _ ho => ho⟩

theorem answers_channels : ∀ {events : List (Event ConsumerWorker)} {system' : System},
    System.answers events system = some system' →
    system'.sessions = system.sessions ∧
      system'.channels.length = system.channels.length ∧
      ∀ channel, Opened system' channel → Opened system channel := by
  intro events
  induction events with
  | nil =>
    intro system' h
    cases h
    exact ⟨rfl, rfl, fun _ ho => ho⟩
  | cons event earlier ih =>
    intro system' h
    obtain ⟨before, h1, h2⟩ := Option.bind_eq_some_iff.mp h
    obtain ⟨hs, hl, ho⟩ := ih h1
    obtain ⟨hs', hl', ho'⟩ := answer_channels h2
    exact ⟨hs'.trans hs, hl'.trans hl, fun channel hc => ho channel (ho' channel hc)⟩

/-- What happens to the engine opens no channel and touches no session. -/
theorem outside_effect {action : Action} (hout : Server.outside action = true)
    (h : system.act action = some system') :
    system'.sessions = system.sessions ∧
      system'.channels.length = system.channels.length ∧
      ∀ channel, Opened system' channel → Opened system channel := by
  cases action with
  | handle env =>
    obtain ⟨message, rest, engine, hi, hok, hanswers⟩ := System.handle_cases h
    obtain ⟨hs, hl, ho⟩ := answers_channels hanswers
    exact ⟨hs, hl, ho⟩
  | leaseTimer _ _ | databaseWorker _ =>
    cases h
    exact ⟨rfl, rfl, fun _ ho => ho⟩
  | attach _ _ | release _ | attachEnds _ | dropReceiver _ | dropSession _ | shutdown =>
    cases hout

end Effects

/-! ### The server is the callers' system -/

section Steps

variable {s t : Server} {occurrence : Occurrence}

theorem Server.act_progress {index : Nat} {progress : Progress}
    (h : s.act pgwire template configured (.progress index progress) = some t) :
    ∃ client after, s.clients[index]? = some client ∧
      client.progress pgwire template s.system progress = some (t.system, after) ∧
        t.clients = s.clients.set index after ∧ t.listeners = s.listeners ∧
          t.serving = s.serving := by
  simp only [Server.act] at h
  split at h
  case h_1 => cases h
  case h_2 client hc =>
    split at h
    case h_4 =>
      obtain ⟨⟨system, after⟩, hp, he⟩ := Option.map_eq_some_iff.mp h
      cases he
      exact ⟨client, after, hc, hp, rfl, rfl, rfl⟩
    all_goals cases h

/-- **What a step of the server is.** -/
theorem Server.act_cases (h : s.act pgwire template configured occurrence = some t) :
    (t.system = s.system ∧
      (t.clients = s.clients ∨ ∃ listener, t.clients = s.clients ++ [{ listener := listener }])) ∨
    (∃ index client after progress, occurrence = .progress index progress ∧
      s.clients[index]? = some client ∧ client.progress pgwire template s.system progress =
        some (t.system, after) ∧ t.clients = s.clients.set index after) ∨
    ∃ action, occurrence = .engine action ∧ outside action = true ∧
      s.system.act action = some t.system ∧ t.clients = s.clients := by
  cases occurrence with
  | accept listener =>
    simp only [Server.act] at h
    split at h <;> cases h
    exact Or.inl ⟨rfl, Or.inr ⟨listener, rfl⟩⟩
  | progress index progress =>
    obtain ⟨client, after, hc, hp, ht, _⟩ := Server.act_progress h
    exact Or.inr (Or.inl ⟨index, client, after, progress, rfl, hc, hp, ht⟩)
  | engine action =>
    simp only [Server.act] at h
    split at h
    case isFalse => cases h
    case isTrue hout =>
      obtain ⟨system, ha, he⟩ := Option.map_eq_some_iff.mp h
      cases he
      exact Or.inr (Or.inr ⟨action, rfl, hout, ha, rfl⟩)
  | opens ok =>
    simp only [Server.act] at h
    split at h
    case h_2 => cases h
    case h_1 =>
      split at h
      · split at h <;> cases h
        · exact Or.inl ⟨rfl, Or.inl rfl⟩
        · exact Or.inl ⟨rfl, Or.inl rfl⟩
      · cases h
        exact Or.inl ⟨rfl, Or.inl rfl⟩
  | signal | unwrap =>
    simp only [Server.act] at h
    split at h <;> cases h
    exact Or.inl ⟨rfl, Or.inl rfl⟩
  | close =>
    simp only [Server.act] at h
    split at h
    case h_2 => cases h
    case h_1 =>
      split at h <;> cases h <;> exact Or.inl ⟨rfl, Or.inl rfl⟩
  | stopped listener =>
    simp only [Server.act] at h
    split at h <;> cases h
    exact Or.inl ⟨rfl, Or.inl rfl⟩

/-- **A step of a task** is at most one action of a caller; the task asks for a lease where
the action is an attachment. -/
theorem Goes.action {system system' : System} {client after : Client} {progress : Progress}
    (h : Goes system client progress system' after)
    (hm : ∀ session ∈ client.sessions, session ∈ system.sessions) :
    system' = system ∨ ∃ action, system.act action = some system' ∧ called action = true ∧
      ∀ lease now, action = .attach lease now → client.stage = .authenticating ∧
        progress = .authenticated true now ∧
          after.request = some (lease, system.channels.length) := by
  cases h with
  | keeps _ _ _ | forgets _ _ _ _ _ _ => exact Or.inl rfl
  | asks ha hstage hnow _ _ _ _ hr =>
    refine Or.inr ⟨_, ha, rfl, fun lease now heq => ?_⟩
    cases heq
    exact ⟨hstage, hnow, hr⟩
  | releases ha _ _ _ _ _ => exact Or.inr ⟨_, ha, rfl, by simp⟩
  | takes ha _ _ _ _ _ _ => exact Or.inr ⟨_, ha, rfl, by simp⟩
  | @drops _ channel _ _ _ _ _ =>
    rcases (dropReceiver_effect channel system).1 with ⟨he, _⟩ | ha
    · exact Or.inl he
    · exact Or.inr ⟨_, ha, rfl, by simp⟩
  | @gives _ session hs _ _ _ _ =>
    have ha := (dropSession_effect (hm session (hs ▸ List.mem_cons_self))).1
    exact Or.inr ⟨_, ha, rfl, by simp⟩

/-- A step of a task is a run of the system. -/
theorem Goes.run {system system' : System} {client after : Client} {progress : Progress}
    (h : Goes system client progress system' after) (hrun : system.engine.rootCancelled = false)
    (hm : ∀ session ∈ client.sessions, session ∈ system.sessions) :
    ∃ actions, (Manager.system config).Run system actions system' ∧
      ∀ action ∈ actions, called action = true := by
  rcases h.action hm with rfl | ⟨action, ha, hc, _⟩
  · exact ⟨[], .nil _, by simp⟩
  · exact ⟨[action], .single ⟨hrun, ha⟩, by simpa using hc⟩

end Steps

/-! ### Everything has one owner -/

namespace Server

/-- The sessions that tasks own, and the reply channels. -/
def sessions (s : Server) : Multiset LeaseSession := (s.clients.flatMap Client.sessions : List _)

def channels (s : Server) : Multiset Nat := (s.clients.flatMap Client.channels : List _)

/-- **Every session and every open reply channel is owned by one task.** -/
structure Tended (s : Server) : Prop where
  sessions : s.sessions = (s.system.sessions : Multiset LeaseSession)
  nodup : s.channels.Nodup
  fits : ∀ channel ∈ s.channels, channel < s.system.channels.length
  opened : ∀ channel, Opened s.system channel → channel ∈ s.channels

variable {s t : Server}

/-- The sessions of a task are among those of the callers. -/
theorem Tended.owns (h : Tended s) {index : Nat} {client : Client}
    (hc : s.clients[index]? = some client) :
    ∀ session ∈ client.sessions, session ∈ s.system.sessions := by
  intro session hm
  rw [← Multiset.mem_coe, ← h.sessions]
  exact Multiset.mem_coe.mpr (List.mem_flatMap.mpr ⟨client, List.mem_of_getElem? hc, hm⟩)

/-- Tasks own the same, and the system has no more. -/
theorem Tended.same (h : Tended s) (hs : t.sessions = s.sessions) (hc : t.channels = s.channels)
    (hsystem : t.system.sessions = s.system.sessions)
    (hl : t.system.channels.length = s.system.channels.length)
    (ho : ∀ channel, Opened t.system channel → Opened s.system channel) : Tended t where
  sessions := by rw [hs, h.sessions, hsystem]
  nodup := hc ▸ h.nodup
  fits := fun channel hm => by
    rw [hl]
    exact h.fits channel (hc ▸ hm)
  opened := fun channel hm => hc ▸ h.opened channel (ho channel hm)

/-- A task lets its channel go. -/
theorem Tended.less (h : Tended s) (channel : Nat)
    (hc : s.channels = channel ::ₘ t.channels)
    (hs : t.sessions = (t.system.sessions : Multiset LeaseSession))
    (hl : t.system.channels.length = s.system.channels.length)
    (ho : ∀ other, Opened t.system other → Opened s.system other ∧ other ≠ channel) :
    Tended t where
  sessions := hs
  nodup := by
    have hnd := h.nodup
    rw [hc] at hnd
    exact (Multiset.nodup_cons.mp hnd).2
  fits := fun other hm => by
    rw [hl]
    exact h.fits other (hc ▸ Multiset.mem_cons_of_mem hm)
  opened := fun other hm => by
    obtain ⟨hopen, hne⟩ := ho other hm
    have hmem := h.opened other hopen
    rw [hc, Multiset.mem_cons] at hmem
    exact hmem.resolve_left hne

/-- A task opens a channel. -/
theorem Tended.more (h : Tended s)
    (hc : t.channels = s.system.channels.length ::ₘ s.channels)
    (hs : t.sessions = s.sessions) (hsystem : t.system.sessions = s.system.sessions)
    (hchannels : t.system.channels = s.system.channels ++ [.waiting]) : Tended t where
  sessions := by rw [hs, h.sessions, hsystem]
  nodup := by
    rw [hc, Multiset.nodup_cons]
    exact ⟨fun hm => absurd (h.fits _ hm) (lt_irrefl _), h.nodup⟩
  fits := fun channel hm => by
    rw [hchannels, List.length_append, List.length_singleton]
    rw [hc, Multiset.mem_cons] at hm
    rcases hm with rfl | hm
    · omega
    · exact Nat.lt_succ_of_lt (h.fits channel hm)
  opened := fun channel hm => by
    rw [hc, Multiset.mem_cons]
    rcases opened_append hchannels hm with ho | rfl
    · exact Or.inr (h.opened channel ho)
    · exact Or.inl rfl

/-- **A step of a task keeps every owner.** -/
theorem Tended.goes (h : Tended s) {index : Nat} {client after : Client} {progress : Progress}
    (hc : s.clients[index]? = some client) (hg : Goes s.system client progress t.system after)
    (ht : t.clients = s.clients.set index after) : Tended t := by
  have hsessions : t.sessions + client.sessions = s.sessions + after.sessions := by
    rw [Server.sessions, ht]
    exact Workers.flatMap_set Client.sessions client after hc
  have hchannels : t.channels + client.channels = s.channels + after.channels := by
    rw [Server.channels, ht]
    exact Workers.flatMap_set Client.channels client after hc
  generalize hsystem : t.system = system' at hg
  cases hg with
  | keeps h1 h2 _ =>
    rw [h1] at hsessions
    rw [h2] at hchannels
    exact h.same (add_right_cancel hsessions) (add_right_cancel hchannels) (by rw [hsystem])
      (by rw [hsystem]) fun channel => by rw [hsystem]; exact id
  | @forgets _ channel h1 hclosed h2 h3 h4 _ =>
    rw [h2, h4] at hsessions
    rw [h1, h3] at hchannels
    simp only [Multiset.coe_nil, add_zero] at hsessions hchannels
    refine h.less channel ?_ ?_ (by rw [hsystem]) fun other ho => ?_
    · rw [← hchannels, Multiset.coe_singleton, add_comm, Multiset.singleton_add]
    · rw [hsessions, h.sessions, hsystem]
    · rw [hsystem] at ho
      refine ⟨ho, ?_⟩
      rintro rfl
      obtain ⟨state, hs, hne⟩ := ho
      exact hne (Option.some.inj (hs.symm.trans hclosed))
  | @asks _ lease now _ ha _ _ h1 h2 h3 h4 _ =>
    rw [h2, h4] at hsessions
    rw [h1, h3] at hchannels
    simp only [Multiset.coe_nil, add_zero] at hsessions hchannels
    cases ha
    refine h.more ?_ hsessions (by rw [hsystem]; rfl) (by rw [hsystem]; rfl)
    rw [hchannels, Multiset.coe_singleton, add_comm, Multiset.singleton_add]
  | @releases _ lease _ ha h1 h2 h3 h4 _ =>
    rw [h2, h4] at hsessions
    rw [h1, h3] at hchannels
    simp only [Multiset.coe_nil, add_zero] at hsessions hchannels
    cases ha
    refine h.more ?_ hsessions (by rw [hsystem]; rfl) (by rw [hsystem]; rfl)
    rw [hchannels, Multiset.coe_singleton, add_comm, Multiset.singleton_add]
  | @takes _ channel reply _ ha hreply h1 h2 h3 h4 _ =>
    obtain ⟨hs', hc'⟩ := attachEnds_effect hreply ha
    rw [h2, h4] at hsessions
    rw [h1, h3] at hchannels
    simp only [Multiset.coe_nil, add_zero] at hsessions hchannels
    refine h.less channel ?_ ?_ (by rw [hsystem, hc']; simp) fun other ho => ?_
    · rw [← hchannels, Multiset.coe_singleton, add_comm, Multiset.singleton_add]
    · rw [hsessions, h.sessions, hsystem, hs', ← Multiset.coe_add, add_comm]
    · rw [hsystem] at ho
      exact opened_set hc' ho
  | @drops _ channel h1 h2 h3 h4 _ =>
    obtain ⟨_, hs', hl, ho⟩ := dropReceiver_effect channel s.system
    rw [h2, h4] at hsessions
    rw [h1, h3] at hchannels
    simp only [Multiset.coe_nil, add_zero] at hsessions hchannels
    refine h.less channel ?_ ?_ (by rw [hsystem, hl]) fun other hm => ?_
    · rw [← hchannels, Multiset.coe_singleton, add_comm, Multiset.singleton_add]
    · rw [hsessions, h.sessions, hsystem, hs']
    · rw [hsystem] at hm
      exact ho other hm
  | @gives _ session h1 h2 h3 h4 _ =>
    obtain ⟨_, hs', hc'⟩ := dropSession_effect (h.owns hc session (h1 ▸ List.mem_cons_self))
    rw [h1, h4] at hsessions
    rw [h2, h3] at hchannels
    simp only [Multiset.coe_nil, add_zero] at hsessions hchannels
    refine ⟨?_, hchannels ▸ h.nodup, fun channel hm => ?_, fun channel ho => ?_⟩
    · rw [hsystem, hs', ← Multiset.coe_erase, ← h.sessions, ← hsessions, Multiset.coe_singleton,
        add_comm, Multiset.singleton_add, Multiset.erase_cons_head]
    · rw [hsystem, hc']
      exact h.fits channel (hchannels ▸ hm)
    · rw [hchannels]
      refine h.opened channel ?_
      rw [hsystem] at ho
      unfold Opened at ho ⊢
      rw [hc'] at ho
      exact ho

end Server

/-- **The server refines the callers' system**, and every session and every open channel of
it is owned by one task. -/
theorem server_refines : (server pgwire template configured config).Refines (system config)
    Server.system Server.Tended where
  init := by
    rintro s ⟨hs, hclients, _, _⟩
    obtain ⟨_, _, hc, hses⟩ := id hs
    refine ⟨.of_init hs, ?_, ?_, fun channel hm => ?_, fun channel ho => ?_⟩
    · simp [Server.sessions, hclients, hses]
    · simp [Server.channels, hclients]
    · simp [Server.channels, hclients] at hm
    · have hlt := ho.lt
      simp [hc] at hlt
  step := by
    rintro s occurrence t _ hI ⟨hrun, hstep⟩
    rcases Server.act_cases hstep with ⟨hs, hc⟩ |
      ⟨index, client, after, progress, _, hc, hp, ht⟩ | ⟨action, _, hout, ha, hc⟩
    · have hclients : t.sessions = s.sessions ∧ t.channels = s.channels := by
        rcases hc with hc | ⟨listener, hc⟩
        · simp [Server.sessions, Server.channels, hc]
        · simp [Server.sessions, Server.channels, hc, Client.sessions, Client.channels]
      rw [hs]
      exact ⟨⟨[], .nil _⟩, hI.same hclients.1 hclients.2 (by rw [hs]) (by rw [hs]) fun channel => by
        rw [hs]; exact id⟩
    · have hg := progress_goes hp
      obtain ⟨actions, hactions, _⟩ := hg.run hrun (hI.owns hc)
      exact ⟨⟨actions, hactions⟩, hI.goes hc hg ht⟩
    · obtain ⟨hsessions, hl, ho⟩ := outside_effect hout ha
      refine ⟨⟨[action], .single ⟨hrun, ha⟩⟩, hI.same ?_ ?_ hsessions hl ho⟩
      · rw [Server.sessions, hc, Server.sessions]
      · rw [Server.channels, hc, Server.channels]

/-- A reachable server is a reachable system, with an owner for everything. -/
theorem server_tended {s : Server} (h : (server pgwire template configured config).Reachable s) :
    (system config).Reachable s.system ∧ s.Tended := server_refines.reachable h

/-- A run of the server is a run of the callers' system. -/
theorem server_run {s t : Server} {occurrences : List Occurrence}
    (h : (server pgwire template configured config).Reachable s)
    (hrun : (server pgwire template configured config).Run s occurrences t) :
    ∃ actions, (system config).Run s.system actions t.system :=
  (server_refines.run hrun (server_tended h).1 (server_tended h).2).1

end PgTest.Wire
