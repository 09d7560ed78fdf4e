import PgTest.Manager.Releases
import PgTest.Wire.Closing

/-!
# A released lease has nobody left

When a control connection reads that its release succeeded, the token of every session of
the lease is cancelled, wherever the session is: no task begins to relay for the lease, and
a task that relays for it can only end.
-/

namespace PgTest.Wire

open PgTest.Lib PgTest.Engine PgTest.Manager

variable {pgwire : Pgwire} {template : String} {configured : Configured}
variable {config : WorkerEngineConfig}

section Tasks

variable {system system' : System} {client after : Client} {progress : Progress}
variable {session : LeaseSession} {upstream : UpstreamSession}

/-- **A task begins to relay** while the token of its session is live. -/
theorem progress_relaying
    (h : client.progress pgwire template system progress = some (system', after))
    (hstage : after.stage = .relaying session upstream) :
    client.stage = .connecting session ∧
      system.engine.isCancelled session.cancellation = false := by
  cases progress <;> simp only [Client.progress] at h
  case startup params =>
    split at h <;> cases h
    obtain ⟨hnone, _⟩ := route_owns params client
    simp [Client.sessions, hstage] at hnone
  case negotiated ok =>
    split at h <;> cases h
    cases ok <;> cases hstage
  case authenticated ok now =>
    split at h
    case h_2 => cases h
    case h_1 =>
      cases ok with
      | false =>
        cases h
        cases hstage
      | true =>
        rw [if_pos rfl] at h
        unfold askForLease at h
        split at h
        · cases h
          cases hstage
        · split at h
          · cases h
            cases hstage
          · obtain ⟨_, _, he⟩ := Option.map_eq_some_iff.mp h
            cases he
            cases hstage
  case replied =>
    split at h
    case h_2 => cases h
    case h_1 =>
      unfold takeReply at h
      split at h
      case h_2 => cases h
      case h_1 =>
        obtain ⟨_, _, he⟩ := Option.map_eq_some_iff.mp h
        cases he
        split at hstage <;> cases hstage
  case connected stream =>
    split at h
    case h_2 => cases h
    case h_1 other hconnecting =>
      split at h
      · cases h
      · rename_i hlive
        split at h <;> cases h <;> cases hstage
        exact ⟨hconnecting, by simpa using hlive⟩
  case release lease =>
    split at h
    case h_2 => cases h
    case h_1 =>
      obtain ⟨_, _, he⟩ := Option.map_eq_some_iff.mp h
      cases he
      cases hstage
  case timedOut | unanswered | cancelled | closed | rejected | released | left | aborted =>
    repeat' split at h
    all_goals cases h
    all_goals cases hstage

/-- **A task that relays for a cancelled session** can only end. -/
theorem relaying_ends (hstage : client.stage = .relaying session upstream)
    (hcancel : system.engine.isCancelled session.cancellation = true)
    (h : client.progress pgwire template system progress = some (system', after)) :
    after = client.stop := by
  cases progress <;> simp only [Client.progress, hstage, hcancel, if_true, reduceCtorEq,
    Option.some.injEq, Prod.mk.injEq] at h
  case cancelled | aborted => exact h.2.symm

end Tasks

variable {s t u v : Server} {lease : LeaseId}

/-- The lease is closed for the system. -/
theorem server_closed {occurrences : List Occurrence}
    (h : (server pgwire template configured config).Reachable s)
    (hc : s.system.engine.leaseRecords.lookup lease = some .closed)
    (hrun : (server pgwire template configured config).Run s occurrences t) :
    t.system.engine.leaseRecords.lookup lease = some .closed := by
  obtain ⟨actions, hactions⟩ := server_run h hrun
  exact (system_closed (server_tended h).1 hc hactions).1

/-- **Tasks of a closed lease.**  None begins to relay, and one that relays can only end,
which it can at any time. -/
theorem closed_tasks (h : (server pgwire template configured config).Reachable u)
    (hc : u.system.engine.leaseRecords.lookup lease = some .closed)
    {index : Nat} {client : Client} {session : LeaseSession} {upstream : UpstreamSession}
    (hstage : client.stage = .relaying session upstream) (hl : session.leaseId = lease) :
    (∀ occurrence v, (server pgwire template configured config).step u occurrence v →
      v.clients[index]? = some client → u.clients[index]? = some client) ∧
    (u.clients[index]? = some client →
      (∃ v, (server pgwire template configured config).step u (.progress index .cancelled) v) ∧
      ∀ progress v, (server pgwire template configured config).step u (.progress index progress) v →
        v.clients[index]? = some client.stop) := by
  obtain ⟨hsystem, htended⟩ := server_tended h
  have hcancel : ∀ {owner : Client} {i : Nat}, u.clients[i]? = some owner →
      session ∈ owner.sessions → u.system.engine.isCancelled session.cancellation = true :=
    fun ho hm => closed_cancelled hsystem hc (Or.inl (htended.owns ho session hm)) hl
  have hrelays : session ∈ client.sessions := by simp [Client.sessions, hstage]
  constructor
  · rintro occurrence v ⟨_, hact⟩ hv
    rcases Server.act_cases hact with ⟨_, hclients⟩ |
      ⟨i, before, after, progress, _, hbefore, hp, hclients⟩ | ⟨_, _, _, _, hclients⟩
    · rcases hclients with hclients | ⟨listener, hclients⟩
      · rwa [hclients] at hv
      · -- a task that was just accepted does not relay
        rw [hclients, List.getElem?_append] at hv
        split at hv
        · exact hv
        · rw [List.getElem?_singleton] at hv
          split at hv <;> cases hv
          cases hstage
    · by_cases hi : i = index
      · subst hi
        rw [hclients, List.getElem?_set_self (List.getElem?_eq_some_iff.mp hbefore).1] at hv
        cases hv
        obtain ⟨hconnecting, hlive⟩ := progress_relaying hp hstage
        have hm : session ∈ before.sessions := by simp [Client.sessions, hconnecting]
        rw [hcancel hbefore hm] at hlive
        cases hlive
      · rwa [hclients, List.getElem?_set_ne hi] at hv
    · rwa [hclients] at hv
  · intro hu
    have hrun := (server_orderly h).engine.1
    refine ⟨?_, ?_⟩
    · have hact : u.act pgwire template configured (.progress index .cancelled) = some { u with
          system := dropSession session u.system
          clients := u.clients.set index client.stop } := by
        simp only [Server.act, hu, Client.progress, hstage, hcancel hu hrelays, if_true]
        rfl
      exact ⟨_, hrun, hact⟩
    · rintro progress v ⟨_, hact⟩
      obtain ⟨before, after, hbefore, hp, hclients, _⟩ := Server.act_progress hact
      obtain rfl : before = client := Option.some.inj (hbefore.symm.trans hu)
      rw [hclients, List.getElem?_set_self (List.getElem?_eq_some_iff.mp hbefore).1,
        relaying_ends hstage (hcancel hu hrelays) hp]

/-- **A released lease has nobody left.**  A control connection asks to release the lease,
on a reply channel of its own; from the moment that channel holds `Ok`, and for good, the
lease has no database and no place in the queue, and the token of every session for it is
cancelled, also of those that are still unread.  So no task begins to relay for the lease, and
one that relays can only end, which it can at any time. -/
theorem release_disconnects {s₁ : Server} {index : Nat} {waited later : List Occurrence}
    (h : (server pgwire template configured config).Reachable s)
    (hcall : (server pgwire template configured config).step s
      (.progress index (.release lease)) s₁)
    (hwait : (server pgwire template configured config).Run s₁ waited t)
    (hok : t.system.Acknowledged s.system.channels.length)
    (hlater : (server pgwire template configured config).Run t later u) :
    (lease ∉ u.system.engine.leases ∧ lease ∉ u.system.engine.waiters) ∧
    (∀ session, u.system.Holds session → session.leaseId = lease →
      u.system.engine.isCancelled session.cancellation = true) ∧
    ∀ (i : Nat) (client : Client) session upstream, client.stage = .relaying session upstream →
      session.leaseId = lease →
      (∀ occurrence v, (server pgwire template configured config).step u occurrence v →
        v.clients[i]? = some client → u.clients[i]? = some client) ∧
      (u.clients[i]? = some client →
        (∃ v, (server pgwire template configured config).step u (.progress i .cancelled) v) ∧
        ∀ progress v, (server pgwire template configured config).step u (.progress i progress) v →
          v.clients[i]? = some client.stop) := by
  have h₁ := h.step hcall
  have ht := h₁.run hwait
  have hu := ht.run hlater
  obtain ⟨hrun, hact⟩ := hcall
  -- the call is a release of the system
  obtain ⟨client, after, _, hp, _⟩ := Server.act_progress hact
  have hrelease : s.system.act (.release lease) = some s₁.system := by
    simp only [Client.progress] at hp
    split at hp
    case h_2 => cases hp
    case h_1 =>
      obtain ⟨_, ha, he⟩ := Option.map_eq_some_iff.mp hp
      cases he
      exact ha
  obtain ⟨actions, hactions⟩ := server_run h₁ hwait
  have hclosed := release_closes (server_tended h).1 hrun hrelease hactions hok
  have hc := server_closed ht hclosed hlater
  have hsystem := (server_tended hu).1
  exact ⟨(system_closed hsystem hc (.nil _)).2,
    fun session hs hl => closed_cancelled hsystem hc hs hl,
    fun i client session upstream hstage hl => closed_tasks hu hc hstage hl⟩

namespace Sample

/-- A control connection, beside the client that is connected. -/
def supervised : List Occurrence :=
  connected ++ [.accept .unix,
    .progress 1 (.startup (some fun name => if name = "database" then some "pgtest" else none))]

end Sample

/-- The lease of the small server is released while its client relays. -/
theorem release_disconnects_small : ∃ u : Server, ∃ session ∈ u.system.sessions,
    session.leaseId = Engine.Sample.leaseA ∧
      u.system.engine.isCancelled session.cancellation = true := by
  have hrun : ((Sample.served Sample.supervised).any fun s =>
      decide (s.system.engine.rootCancelled = false) &&
      (s.act Sample.decoder "t" Sample.configured
        (.progress 1 (.release Engine.Sample.leaseA))).any fun s₁ =>
          decide (s₁.system.engine.rootCancelled = false) &&
          (s₁.act Sample.decoder "t" Sample.configured
            (.engine (.handle (Manager.Sample.env true)))).any fun t =>
              decide (t.system.Acknowledged s.system.channels.length ∧
                ∃ session ∈ t.system.sessions, session.leaseId = Engine.Sample.leaseA)) = true := by
    decide
  obtain ⟨s, hs, hp⟩ := (Option.any_eq_true _ _).mp hrun
  rw [Bool.and_eq_true, decide_eq_true_eq] at hp
  obtain ⟨hroot, hp⟩ := hp
  obtain ⟨s₁, hcall, hp⟩ := (Option.any_eq_true _ _).mp hp
  rw [Bool.and_eq_true, decide_eq_true_eq] at hp
  obtain ⟨hroot₁, hp⟩ := hp
  obtain ⟨t, hhandle, hp⟩ := (Option.any_eq_true _ _).mp hp
  obtain ⟨hok, session, hm, hl⟩ := of_decide_eq_true hp
  obtain ⟨_, hcancelled, _⟩ := release_disconnects (Sample.reachable_served hs) ⟨hroot, hcall⟩
    (.single ⟨hroot₁, hhandle⟩) hok (.nil t)
  exact ⟨t, session, hm, hl, hcancelled session (Or.inl hm) hl⟩

end PgTest.Wire
