import PgTest.Manager.Routing
import PgTest.Wire.Clients

/-!
# Clients get what they asked for

What a task has sent and what it owns follow from the startup message of its client
(`Client.Sound`): a session is for the lease that the message names, since what is asked
for over a channel comes back over it, and it is connected to the database of the session.
-/

namespace PgTest.Wire

open PgTest.Lib PgTest.Engine PgTest.Manager

variable {pgwire : Pgwire} {template : String} {configured : Configured}
variable {config : WorkerEngineConfig}

/-! ### What a task knows -/

namespace Client

/-- The startup message asked for a database. -/
def Asks (database : String) (client : Client) : Prop :=
  ∃ params, client.params = some params ∧ params "replication" = none ∧
    params "database" = some database

/-- The task asked for the lease that its client named. -/
def Requested (template : String) (lease : LeaseId) (channel : Nat) (client : Client) : Prop :=
  client.request = some (lease, channel) ∧ client.Asks (fieldOf template lease.value) ∧
    client.sent = [.authenticationOk]

/-- **What the stage of a task says about it.** -/
def Sound (pgwire : Pgwire) (template : String) (client : Client) : Prop :=
  match client.stage with
  | .startup | .control _ => client.request = none ∧ client.sent = []
  | .negotiating | .authenticating =>
    client.request = none ∧ client.sent = [] ∧ ∃ database, client.Asks database
  | .attaching channel => ∃ lease, client.Requested template lease channel
  | .connecting session => ∃ channel, client.Requested template session.leaseId channel
  | .relaying session upstream =>
    (∃ channel, client.Requested template session.leaseId channel) ∧
      ∃ stream, connect pgwire session.databaseName (client.params.getD fun _ => none) stream =
        .ok upstream
  | .rejecting _ | .ended => ∃ code message,
    client.sent.Sublist [.authenticationOk, .errorResponse code message]

variable {client after : Client}

theorem Asks.database {database : String} (h : client.Asks database) :
    client.database = database := by
  obtain ⟨params, hp, _, hd⟩ := h
  simp [Client.database, hp, hd]

/-- `AuthenticationOk` is sent once and first, and an `ErrorResponse` once and last. -/
theorem Sound.polite (h : client.Sound pgwire template) : ∃ code message,
    client.sent.Sublist [.authenticationOk, .errorResponse code message] := by
  have hopened : client.sent = [.authenticationOk] → ∃ code message,
      client.sent.Sublist [.authenticationOk, .errorResponse code message] := by
    intro hsent
    exact ⟨"", "", by simp [hsent]⟩
  unfold Sound at h
  split at h
  case h_1 | h_2 => exact ⟨"", "", by simp [h.2]⟩
  case h_3 | h_4 => exact ⟨"", "", by simp [h.2.1]⟩
  case h_5 | h_6 =>
    obtain ⟨_, _, _, hsent⟩ := h
    exact hopened hsent
  case h_7 =>
    obtain ⟨⟨_, _, _, hsent⟩, _⟩ := h
    exact hopened hsent
  case h_8 | h_9 => exact h

theorem Sound.stop (h : client.Sound pgwire template) : client.stop.Sound pgwire template :=
  h.polite

/-- A task that sent no error may send one. -/
theorem sound_rejectWith (h : client.sent = [] ∨ client.sent = [.authenticationOk])
    (session : Option LeaseSession) (code message : String) :
    (client.rejectWith session code message).Sound pgwire template := by
  refine ⟨code, message, ?_⟩
  rcases h with h | h <;> simp [rejectWith, h]

end Client

section Steps

variable {system system' : System} {client after : Client}

theorem route_sound (h : client.Sound pgwire template) (hstage : client.stage = .startup)
    (startup : Option Parameters) : (client.route startup).Sound pgwire template := by
  obtain ⟨hrequest, hsent⟩ : client.request = none ∧ client.sent = [] := by
    simpa only [Client.Sound, hstage] using h
  unfold Client.route
  cases startup with
  | none => exact h.stop
  | some params =>
    have hreject : ∀ code message, ({ client with params := some params }.reject code message :
        Client).Sound pgwire template := by
      intro code message
      have hsent : ({ client with params := some params } : Client).sent = [] := hsent
      exact Client.sound_rejectWith (Or.inl hsent) none code message
    simp only
    split
    · exact hreject _ _
    · rename_i hreplication
      cases hd : params "database" with
      | none => exact hreject _ _
      | some database =>
        simp only
        split
        · exact ⟨hrequest, hsent⟩
        · exact ⟨hrequest, hsent, database, params, rfl, by simpa using hreplication, hd⟩

theorem askForLease_sound {now : Nat} {database : String} (hasks : client.Asks database)
    (hsent : client.sent = [.authenticationOk])
    (h : askForLease template now system client = some (system', after)) :
    after.Sound pgwire template := by
  have hreject : ∀ code message, (client.reject code message).Sound pgwire template :=
    fun code message => Client.sound_rejectWith (Or.inr hsent) none code message
  unfold askForLease at h
  split at h
  case h_1 =>
    cases h
    exact hreject _ _
  case h_2 named lease hparse =>
    split at h
    case isTrue =>
      cases h
      exact hreject _ _
    case isFalse heq =>
      obtain ⟨_, _, he⟩ := Option.map_eq_some_iff.mp h
      cases he
      obtain rfl : template = named := by_contra heq
      rw [hasks.database] at hparse
      obtain rfl := eq_fieldOf.mpr (parseConnectionField_iff.mp hparse).1
      exact ⟨lease, rfl, hasks, hsent⟩

theorem takeReply_sound {channel : Nat} {lease : LeaseId}
    (hrequested : client.Requested template lease channel)
    (hreply : ∀ session, system.Unread channel session → session.leaseId = lease)
    (ht : takeReply channel system client = some (system', after)) :
    after.Sound pgwire template := by
  unfold takeReply at ht
  split at ht
  case h_2 => cases ht
  case h_1 reply hc =>
    obtain ⟨_, _, he⟩ := Option.map_eq_some_iff.mp ht
    cases he
    split
    case h_2 => exact Client.sound_rejectWith (Or.inr hrequested.2.2) none _ _
    case h_1 session hresult =>
      cases System.attachResult_session hresult
      obtain rfl := hreply session hc
      exact ⟨channel, hrequested⟩

/-- **A step of a task keeps it sound**, where its channel brings what it asked for. -/
theorem progress_sound {progress : Progress} (h : client.Sound pgwire template)
    (hreply : ∀ channel lease session, client.request = some (lease, channel) →
      system.Unread channel session → session.leaseId = lease)
    (hp : client.progress pgwire template system progress = some (system', after)) :
    after.Sound pgwire template := by
  cases progress <;> simp only [Client.progress] at hp
  case startup params =>
    split at hp <;> cases hp
    exact route_sound h ‹_› params
  case negotiated ok =>
    split at hp <;> cases hp
    rename_i hstage
    cases ok with
    | false => exact h.stop
    | true =>
      have hknown : client.request = none ∧ client.sent = [] ∧
          ∃ database, client.Asks database := by
        simpa only [Client.Sound, hstage] using h
      exact hknown
  case authenticated ok now =>
    split at hp
    case h_2 => cases hp
    case h_1 hstage =>
      obtain ⟨_, hsent, database, hasks⟩ : client.request = none ∧ client.sent = [] ∧
          ∃ database, client.Asks database := by simpa only [Client.Sound, hstage] using h
      cases ok with
      | false =>
        cases hp
        exact h.stop
      | true =>
        rw [if_pos rfl] at hp
        have hopened : ({ client with sent := client.sent ++ [.authenticationOk] } : Client).Asks
          database := hasks
        exact askForLease_sound hopened (by simp [hsent]) hp
  case replied =>
    split at hp
    case h_2 => cases hp
    case h_1 channel hstage =>
      obtain ⟨lease, hrequested⟩ : ∃ lease, client.Requested template lease channel := by
        simpa only [Client.Sound, hstage] using h
      exact takeReply_sound hrequested (fun session => hreply channel lease session hrequested.1) hp
  case timedOut | unanswered =>
    split at hp
    case h_2 => cases hp
    case h_1 channel hstage =>
      obtain ⟨lease, hrequested⟩ : ∃ lease, client.Requested template lease channel := by
        simpa only [Client.Sound, hstage] using h
      split at hp <;> cases hp
      exact Client.sound_rejectWith (Or.inr hrequested.2.2) none _ _
  case connected stream =>
    split at hp
    case h_2 => cases hp
    case h_1 session hstage =>
      obtain ⟨channel, hrequested⟩ :
          ∃ channel, client.Requested template session.leaseId channel := by
        simpa only [Client.Sound, hstage] using h
      split at hp
      · cases hp
      · split at hp <;> cases hp
        · exact ⟨⟨channel, hrequested⟩, stream, ‹_›⟩
        · exact Client.sound_rejectWith (Or.inr hrequested.2.2) _ _ _
  case cancelled =>
    split at hp
    case h_3 => cases hp
    case h_1 session hstage =>
      obtain ⟨channel, hrequested⟩ :
          ∃ channel, client.Requested template session.leaseId channel := by
        simpa only [Client.Sound, hstage] using h
      split at hp <;> cases hp
      exact Client.sound_rejectWith (Or.inr hrequested.2.2) _ _ _
    case h_2 =>
      split at hp <;> cases hp
      exact h.stop
  case closed =>
    split at hp
    case h_2 => cases hp
    case h_1 =>
      split at hp <;> cases hp
      exact h.stop
  case release lease =>
    split at hp
    case h_2 => cases hp
    case h_1 hstage =>
      obtain ⟨_, _, he⟩ := Option.map_eq_some_iff.mp hp
      cases he
      simpa only [Client.Sound, hstage] using h
  case released =>
    split at hp <;> cases hp
    rename_i hstage
    simpa only [Client.Sound, hstage] using h
  case rejected | left | aborted =>
    split at hp <;> cases hp
    exact h.stop

end Steps

/-! ### What was asked for over a channel -/

/-- A task asks once, over a channel that is new. -/
theorem Goes.request {system system' : System} {client after : Client} {progress : Progress}
    (h : Goes system client progress system' after)
    (hm : ∀ session ∈ client.sessions, session ∈ system.sessions) :
    system.channels.length ≤ system'.channels.length ∧
    (after.request = client.request ∨ client.stage = .authenticating ∧
      ∃ lease, after.request = some (lease, system.channels.length) ∧
        system.channels.length < system'.channels.length) := by
  cases h with
  | keeps _ _ hr | forgets _ _ _ _ _ hr => exact ⟨le_refl _, Or.inl hr⟩
  | asks ha hstage _ _ _ _ _ hr =>
    cases ha
    have hlt : system.channels.length < (system.channels ++ [Channel.waiting]).length := by simp
    exact ⟨le_of_lt hlt, Or.inr ⟨hstage, _, hr, hlt⟩⟩
  | releases ha _ _ _ _ hr =>
    cases ha
    have hle : system.channels.length ≤ (system.channels ++ [Channel.waiting]).length := by simp
    exact ⟨hle, Or.inl hr⟩
  | takes ha hreply _ _ _ _ hr =>
    rw [(attachEnds_effect hreply ha).2, List.length_set]
    exact ⟨le_refl _, Or.inl hr⟩
  | drops _ _ _ _ hr =>
    rw [(dropReceiver_effect _ system).2.2.1]
    exact ⟨le_refl _, Or.inl hr⟩
  | gives hs _ _ _ hr =>
    rw [(dropSession_effect (hm _ (hs ▸ List.mem_cons_self))).2.2]
    exact ⟨le_refl _, Or.inl hr⟩

namespace Server

/-- `asks` knows what the clients asked for. -/
def Agrees (asks : Nat → Option LeaseId) (s : Server) : Prop :=
  ∀ client ∈ s.clients, ∀ lease channel, client.request = some (lease, channel) →
    asks channel = some lease

/-- **What comes back to a client is what it asked for.** -/
structure Traced (pgwire : Pgwire) (template : String) (s : Server) : Prop where
  routed : ∀ asks, s.Agrees asks → s.system.Routed asks
  sound : ∀ client ∈ s.clients, client.Sound pgwire template
  fits : ∀ client ∈ s.clients, ∀ lease channel, client.request = some (lease, channel) →
    channel < s.system.channels.length
  unique : ∀ client ∈ s.clients, ∀ other ∈ s.clients, ∀ lease lease' channel,
    client.request = some (lease, channel) → other.request = some (lease', channel) →
      lease = lease'

variable {s t : Server}

theorem Traced.exists_agrees (h : s.Traced pgwire template) : ∃ asks, s.Agrees asks := by
  classical
  refine ⟨fun channel => if hc : ∃ lease, ∃ client ∈ s.clients,
    client.request = some (lease, channel) then some hc.choose else none, ?_⟩
  intro client hm lease channel hr
  have hc : ∃ lease, ∃ client ∈ s.clients, client.request = some (lease, channel) :=
    ⟨lease, client, hm, hr⟩
  obtain ⟨other, hm', hr'⟩ := hc.choose_spec
  simp only [dif_pos hc]
  rw [h.unique other hm' client hm _ _ channel hr' hr]

/-- A channel brings its client a session for the lease it asked for. -/
theorem Traced.reply (h : s.Traced pgwire template) {client : Client} (hm : client ∈ s.clients)
    {channel : Nat} {lease : LeaseId} {session : LeaseSession}
    (hr : client.request = some (lease, channel)) (hu : s.system.Unread channel session) :
    session.leaseId = lease := by
  obtain ⟨asks, hagrees⟩ := h.exists_agrees
  have h1 := (h.routed asks hagrees).unread channel session hu
  rw [hagrees client hm lease channel hr] at h1
  exact (Option.some.inj h1).symm

/-- Nothing happens to the clients. -/
theorem Traced.same (h : s.Traced pgwire template) (hc : t.clients = s.clients)
    (hl : t.system.channels.length = s.system.channels.length)
    (hr : ∀ asks, s.system.Routed asks → t.system.Routed asks) : t.Traced pgwire template where
  routed := fun asks hagrees => hr asks (h.routed asks fun client hm => hagrees client (hc ▸ hm))
  sound := fun client hm => h.sound client (hc ▸ hm)
  fits := fun client hm lease channel hreq => by
    rw [hl]
    exact h.fits client (hc ▸ hm) lease channel hreq
  unique := fun client hm other hm' => h.unique client (hc ▸ hm) other (hc ▸ hm')

/-- A connection is accepted. -/
theorem Traced.accept (h : s.Traced pgwire template) {listener : Listener}
    (hc : t.clients = s.clients ++ [{ listener := listener }]) (hs : t.system = s.system) :
    t.Traced pgwire template := by
  have hold : ∀ client ∈ t.clients, ∀ lease channel, client.request = some (lease, channel) →
      client ∈ s.clients := by
    intro client hm lease channel hr
    rw [hc] at hm
    rcases List.mem_append.mp hm with hm | hm
    · exact hm
    · rw [List.mem_singleton.mp hm] at hr
      cases hr
  refine ⟨fun asks hagrees => ?_, fun client hm => ?_, fun client hm lease channel hr => ?_,
    fun client hm other hm' lease lease' channel hr hr' => ?_⟩
  · rw [hs]
    refine h.routed asks fun client hm => hagrees client ?_
    rw [hc]
    exact List.mem_append_left _ hm
  · rw [hc] at hm
    rcases List.mem_append.mp hm with hm | hm
    · exact h.sound client hm
    · rw [List.mem_singleton.mp hm]
      exact ⟨rfl, rfl⟩
  · rw [hs]
    exact h.fits client (hold client hm lease channel hr) lease channel hr
  · exact h.unique client (hold client hm lease channel hr) other
      (hold other hm' lease' channel hr') lease lease' channel hr hr'

/-- **A step of a task keeps everybody's replies apart.** -/
theorem Traced.goes (h : s.Traced pgwire template) (htended : s.Tended) {index : Nat}
    {client after : Client} {progress : Progress} (hc : s.clients[index]? = some client)
    (hp : client.progress pgwire template s.system progress = some (t.system, after))
    (ht : t.clients = s.clients.set index after) : t.Traced pgwire template := by
  have hmem := List.mem_of_getElem? hc
  have hg := progress_goes hp
  have howns := htended.owns hc
  obtain ⟨hle, hrequest⟩ := hg.request howns
  have hafter : after ∈ t.clients := by
    rw [ht]
    exact List.mem_set (List.getElem?_eq_some_iff.mp hc).1 after
  -- a task that asks had asked for nothing
  have hfresh : client.stage = .authenticating → client.request = none := by
    intro hstage
    have hsound := h.sound client hmem
    simp only [Client.Sound, hstage] at hsound
    exact hsound.1
  -- who asked before, or asks now over the new channel
  have hwho : ∀ other ∈ t.clients, ∀ lease channel, other.request = some (lease, channel) →
      (∃ before ∈ s.clients, before.request = some (lease, channel)) ∨
        other = after ∧ channel = s.system.channels.length := by
    intro other hm lease channel hr
    rw [ht] at hm
    rcases List.mem_or_eq_of_mem_set hm with hm | rfl
    · exact Or.inl ⟨other, hm, hr⟩
    · rcases hrequest with hsame | ⟨_, _, hnew, _⟩
      · exact Or.inl ⟨client, hmem, hsame ▸ hr⟩
      · rw [hnew] at hr
        cases hr
        exact Or.inr ⟨rfl, rfl⟩
  refine ⟨fun asks hagrees => ?_, fun other hm => ?_, fun other hm lease channel hr => ?_,
    fun other hm another hm' lease lease' channel hr hr' => ?_⟩
  · -- requests stay, so what is known now was known before
    have hbefore : s.Agrees asks := by
      intro other hm lease channel hr
      obtain ⟨i, hi⟩ := List.mem_iff_getElem?.mp hm
      by_cases hindex : index = i
      · subst hindex
        rw [hc] at hi
        cases hi
        refine hagrees after hafter lease channel ?_
        rcases hrequest with hsame | ⟨hstage, _⟩
        · exact hsame.trans hr
        · rw [hfresh hstage] at hr
          cases hr
      · refine hagrees other ?_ lease channel hr
        rw [ht]
        exact List.mem_of_getElem? ((List.getElem?_set_ne hindex).trans hi)
    have hrouted := h.routed asks hbefore
    rcases hg.action howns with hs | ⟨action, ha, _, hattach⟩
    · rw [hs]
      exact hrouted
    · refine hrouted.act ha fun lease time hact => ?_
      exact hagrees after hafter lease _ (hattach lease time hact).2.2
  · rw [ht] at hm
    rcases List.mem_or_eq_of_mem_set hm with hm | rfl
    · exact h.sound other hm
    · exact progress_sound (h.sound client hmem)
        (fun channel lease session hr hu => h.reply hmem hr hu) hp
  · rcases hwho other hm lease channel hr with ⟨before, hb, hr'⟩ | ⟨rfl, rfl⟩
    · exact lt_of_lt_of_le (h.fits before hb lease channel hr') hle
    · rcases hrequest with hsame | ⟨_, _, _, hlt⟩
      · exact lt_of_lt_of_le (h.fits client hmem lease _ (hsame ▸ hr)) hle
      · exact hlt
  · rcases hwho other hm lease channel hr with ⟨before, hb, hbr⟩ | ⟨rfl, rfl⟩
    · rcases hwho another hm' lease' channel hr' with ⟨before', hb', hbr'⟩ | ⟨rfl, rfl⟩
      · exact h.unique before hb before' hb' lease lease' channel hbr hbr'
      · exact absurd (h.fits before hb lease _ hbr) (lt_irrefl _)
    · rcases hwho another hm' lease' _ hr' with ⟨before', hb', hbr'⟩ | ⟨rfl, _⟩
      · exact absurd (h.fits before' hb' lease' _ hbr') (lt_irrefl _)
      · rw [hr] at hr'
        cases hr'
        rfl

end Server

end PgTest.Wire
