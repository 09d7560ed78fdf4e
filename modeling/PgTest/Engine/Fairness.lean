import PgTest.Engine.Matching
import PgTest.Engine.Waiting

/-!
# Nobody is overtaken

A lease that waits keeps its place: new leases queue behind it, and only those ahead
of it are assigned a database before it, in their order and each once.  Every creation
that succeeds takes somebody out of the queue in front, so a lease waits through no more
of them than there were leases ahead of it.

`Draws` follows the functions that `dispatch_waiters` is made of, `Waits` says what one
message does to the place of a lease, and `no_overtaking` what a run does.
-/

namespace PgTest.Engine

open PgTest.Lib

variable {C : Type} {Q : LeaseId → C → Prop}

/-- The lease that a database was assigned to. -/
def Event.assignee : Event C → Option LeaseId
  | .assigned lease _ _ => some lease
  | _ => none

/-- The database that a creation brought. -/
def Event.creation : Event C → Option Database
  | .created database => some database
  | _ => none

/-- The release that was answered `Ok`, with its caller. -/
def Event.acknowledges : Event C → Option (LeaseId × C)
  | .reply lease consumer (.releaseResult (.ok ())) _ _ => some (lease, consumer)
  | _ => none

namespace WorkerEngine

/-- The leases that were assigned a database, oldest first, also those that nobody took. -/
def assignees (s : WorkerEngine C) : List LeaseId := (s.history.filterMap Event.assignee).reverse

/-- How many creations succeeded. -/
def creations (s : WorkerEngine C) : Nat := (s.history.filterMap Event.creation).length

/-- The releases that were answered `Ok`, newest first. -/
def acknowledged (s : WorkerEngine C) : List (LeaseId × C) :=
  s.history.filterMap Event.acknowledges

/-- From `s` to `t` the leases `called` were assigned a database, in this order; no
creation was settled, no release acknowledged, and the queue was left alone. -/
structure Draws (called : List LeaseId) (s t : WorkerEngine C) : Prop where
  assignees : t.assignees = s.assignees ++ called
  creations : t.creations = s.creations
  acknowledged : t.acknowledged = s.acknowledged
  waiters : t.waiters = s.waiters

namespace Draws

variable {called more : List LeaseId} {s t u : WorkerEngine C}

theorem refl (s : WorkerEngine C) : Draws [] s s := ⟨(List.append_nil _).symm, rfl, rfl, rfl⟩

theorem trans (h : Draws called s t) (g : Draws more t u) : Draws (called ++ more) s u where
  assignees := by rw [g.assignees, h.assignees, List.append_assoc]
  creations := g.creations.trans h.creations
  acknowledged := g.acknowledged.trans h.acknowledged
  waiters := g.waiters.trans h.waiters

theorem before (h : Draws called s t) (g : Draws [] t u) : Draws called s u := by
  simpa using h.trans g

theorem after (h : Draws [] s t) (g : Draws more t u) : Draws more s u := by
  simpa using h.trans g

/-- Nothing is assigned, created or acknowledged. -/
theorem same (hw : t.waiters = s.waiters) (hh : ∃ new, t.history = new ++ s.history ∧
    ∀ event ∈ new, event.assignee = none ∧ event.creation = none ∧ event.acknowledges = none) :
    Draws [] s t := by
  obtain ⟨new, hh, hnew⟩ := hh
  have h1 := List.filterMap_eq_nil_iff.mpr fun event he => (hnew event he).1
  have h2 := List.filterMap_eq_nil_iff.mpr fun event he => (hnew event he).2.1
  have h3 := List.filterMap_eq_nil_iff.mpr fun event he => (hnew event he).2.2
  refine ⟨?_, ?_, ?_, hw⟩
  · simp [WorkerEngine.assignees, hh, h1]
  · simp [WorkerEngine.creations, hh, h2]
  · simp [WorkerEngine.acknowledged, hh, h3]

theorem log {event : Event C} (he : event.assignee = none) (hc : event.creation = none)
    (ha : event.acknowledges = none) : Draws [] s (s.log event) :=
  same rfl ⟨[event], rfl, by simp [he, hc, ha]⟩

end Draws

/-! ### The functions of dispatch -/

variable {env : Env C} {s t : WorkerEngine C} {lease : LeaseId}

theorem grow_draws (hok : grow env s = .ok t) : Draws [] s t := by
  rcases grow_cases hok with ⟨rfl, _⟩ | ⟨_, _, _, ⟨_, rfl⟩ | ⟨_, rfl⟩⟩
  · exact .log rfl rfl rfl
  · exact .same rfl ⟨[_, _], rfl, by simp [Event.assignee, Event.creation, Event.acknowledges]⟩
  · exact .same rfl ⟨[_, _], rfl, by simp [Event.assignee, Event.creation, Event.acknowledges]⟩

theorem replyAttached_draws {name : ReadString} {reply : C}
    (hok : replyAttached env lease name reply s = .ok t) :
    Draws [] s t ∧ (lease ∈ t.leases ↔ lease ∈ s.leases) := by
  unfold replyAttached at hok
  cases hl : s.leases.lookup lease with
  | none => simp [hl] at hok
  | some entry =>
    have hmem := mem_of_lookup hl
    simp only [hl] at hok
    split at hok
    · cases hok
      exact ⟨.log rfl rfl rfl, Iff.rfl⟩
    · split at hok
      · cases hok
        refine ⟨.same rfl ⟨[_], rfl, ?_⟩, by simp [hmem, log]⟩
        simp [Event.assignee, Event.creation, Event.acknowledges]
      · simp only [Nat.succ_ne_zero, if_false] at hok
        cases hok
        refine ⟨.same rfl ⟨[_], rfl, ?_⟩, by simp [hmem, log]⟩
        simp [Event.assignee, Event.creation, Event.acknowledges]

theorem restoreUnclaimedDatabase_draws {restored : Bool}
    (hok : restoreUnclaimedDatabase lease s = .ok (restored, t)) : Draws [] s t := by
  rcases restoreUnclaimedDatabase_cases hok with ⟨_, rfl⟩ | ⟨_, entry, _, _, rfl⟩
  · exact .refl _
  · exact .same rfl ⟨[_, _], rfl, by simp [Event.assignee, Event.creation, Event.acknowledges]⟩

theorem assignment_draws {database : Database} {rest : List Database}
    {scheduling : List (Event C)} (hsched : s.Scheduling lease scheduling) :
    Draws [lease] s (s.assignment lease database rest scheduling) := by
  have hnone : scheduling.filterMap Event.assignee = [] ∧
      scheduling.filterMap Event.creation = [] ∧ scheduling.filterMap Event.acknowledges = [] := by
    rw [Scheduling] at hsched
    split at hsched
    · obtain ⟨accepted, rfl⟩ := hsched
      exact ⟨rfl, rfl, rfl⟩
    · subst hsched
      exact ⟨rfl, rfl, rfl⟩
  refine ⟨?_, ?_, ?_, rfl⟩
  · simp [assignees, assignment, Event.assignee, hnone.1]
  · simp [creations, assignment, List.filterMap_cons, Event.creation, hnone.2.1]
  · simp [acknowledged, assignment, List.filterMap_cons, Event.acknowledges, hnone.2.2]

theorem claimDatabase_draws {name : ReadString}
    (hok : claimDatabase env lease s = .ok (name, t)) :
    lease ∈ t.leases ∧
      (Draws [] s t ∧ lease ∈ s.leases ∨ Draws [lease] s t ∧ lease ∉ s.leases) := by
  unfold claimDatabase at hok
  cases hl : s.leases.lookup lease with
  | some entry =>
    simp only [hl] at hok
    cases hok
    exact ⟨mem_of_lookup hl, Or.inl ⟨.refl _, mem_of_lookup hl⟩⟩
  | none =>
    simp only [hl, DatabaseInventory.takeReady] at hok
    cases hready : s.inventory.ready with
    | nil => simp [hready] at hok
    | cons database rest =>
      simp only [hready] at hok
      obtain ⟨hnot, _, _, scheduling, hsched, rfl⟩ := assignDatabase_cases hok
      exact ⟨by simp [assignment], Or.inr ⟨assignment_draws hsched, hnot⟩⟩

theorem serveRequest_draws {request : C × Nat} (hok : serveRequest env lease s request = .ok t) :
    Draws [] s t ∧ (lease ∈ t.leases ↔ lease ∈ s.leases) ∨
      Draws [lease] s t ∧ lease ∉ s.leases ∧ lease ∈ t.leases := by
  unfold serveRequest at hok
  split at hok
  · cases hok
    exact Or.inl ⟨.same rfl ⟨[_], rfl, by
      simp [Event.assignee, Event.creation, Event.acknowledges]⟩, Iff.rfl⟩
  · obtain ⟨⟨name, s₁⟩, h1, h2⟩ := bind_ok hok
    obtain ⟨hreply, hkeep⟩ := replyAttached_draws h2
    obtain ⟨hm, ⟨hd, hl⟩ | ⟨hd, hl⟩⟩ := claimDatabase_draws h1
    · exact Or.inl ⟨hd.before hreply, iff_of_true (hkeep.mpr hm) hl⟩
    · exact Or.inr ⟨hd.before hreply, hl, hkeep.mpr hm⟩

/-- **The inner loop** assigns once, if the lease has no database yet. -/
theorem serveRequests_draws : ∀ {replies : List (C × Nat)} {s t : WorkerEngine C},
    replies.foldlM (serveRequest env lease) s = .ok t →
    Draws [] s t ∨ Draws [lease] s t ∧ lease ∉ s.leases := by
  intro replies
  induction replies with
  | nil =>
    intro s t hok
    cases hok
    exact Or.inl (.refl _)
  | cons request replies ih =>
    intro s t hok
    rw [List.foldlM_cons] at hok
    obtain ⟨s₁, h1, h2⟩ := bind_ok hok
    rcases serveRequest_draws h1 with ⟨hd, hkeep⟩ | ⟨hd, hnot, hm⟩
    · rcases ih h2 with hrest | ⟨hrest, hl⟩
      · exact Or.inl (hd.after hrest)
      · exact Or.inr ⟨hd.after hrest, fun h => hl (hkeep.mpr h)⟩
    · rcases ih h2 with hrest | ⟨_, hl⟩
      · exact Or.inr ⟨hd.before hrest, hnot⟩
      · exact absurd hm hl

theorem serveGroup_draws {replies : List (C × Nat)}
    (hok : serveGroup env lease replies s = .ok t) : Draws [] s t ∨ Draws [lease] s t := by
  unfold serveGroup at hok
  split at hok
  · cases hok
    rw [foldl_send]
    refine Or.inl (.same rfl ⟨_, rfl, fun event he => ?_⟩)
    obtain ⟨request, _, rfl⟩ := List.mem_map.mp (List.mem_reverse.mp he)
    exact ⟨rfl, rfl, rfl⟩
  · obtain ⟨served, h1, h2⟩ := bind_ok hok
    have hserved := serveRequests_draws h1
    split at h2
    · cases h2
      exact hserved.imp_right And.left
    · obtain ⟨⟨restored, s₂⟩, h3, h4⟩ := bind_ok h2
      cases h4
      have hback := restoreUnclaimedDatabase_draws h3
      exact hserved.imp (fun h => h.before hback) fun h => h.1.before hback

/-- **The outer loop** takes groups from the front and assigns to some of them, in their
order.  It takes one at least where a database is ready. -/
theorem dispatchLoop_draws : ∀ {queue : List LeaseId} {s t : WorkerEngine C},
    s.waiters = queue → dispatchLoop env queue s = .ok t →
    ∃ met called, queue = met ++ t.waiters ∧ called.Sublist met ∧
      t.assignees = s.assignees ++ called ∧ t.creations = s.creations ∧
      t.acknowledged = s.acknowledged ∧ (s.inventory.ready ≠ [] → queue ≠ [] → met ≠ []) := by
  intro queue
  induction queue with
  | nil =>
    intro s t hq hok
    cases hok
    exact ⟨[], [], by simp [hq], .refl _, by simp, rfl, rfl, fun _ h => absurd rfl h⟩
  | cons lease rest ih =>
    intro s t hq hok
    unfold dispatchLoop at hok
    split at hok
    · rename_i hempty
      cases hok
      refine ⟨[], [], by simp [hq], .refl _, by simp, rfl, rfl, fun h => absurd ?_ h⟩
      exact List.isEmpty_iff.mp hempty
    · simp only at hok
      split at hok
      · obtain ⟨met, called, hmet, hsub, ha, hc, hk, _⟩ := ih rfl hok
        exact ⟨lease :: met, called, congrArg (lease :: ·) hmet, hsub.cons lease, ha, hc, hk,
          fun _ _ => List.cons_ne_nil _ _⟩
      · obtain ⟨s₁, h1, h2⟩ := bind_ok hok
        rcases serveGroup_draws h1 with hd | hd
        · obtain ⟨met, called, hmet, hsub, ha, hc, hk, _⟩ := ih hd.waiters h2
          refine ⟨lease :: met, called, congrArg (lease :: ·) hmet, hsub.cons lease, ?_,
            hc.trans hd.creations, hk.trans hd.acknowledged, fun _ _ => List.cons_ne_nil _ _⟩
          rw [ha, hd.assignees, List.append_nil]
          rfl
        · obtain ⟨met, called, hmet, hsub, ha, hc, hk, _⟩ := ih hd.waiters h2
          refine ⟨lease :: met, lease :: called, congrArg (lease :: ·) hmet, hsub.cons_cons lease,
            ?_, hc.trans hd.creations, hk.trans hd.acknowledged, fun _ _ => List.cons_ne_nil _ _⟩
          rw [ha, hd.assignees, List.append_assoc]
          rfl

/-! ### One message -/

/-- What becomes of the place of `lease` in the queue, from `s` to `t`: who is assigned a
database meanwhile was ahead of it, and who was ahead of it and is not any more made room. -/
structure Waits (lease : LeaseId) (s t : WorkerEngine C) (served : List LeaseId) : Prop where
  assignees : t.assignees = s.assignees ++ served
  stays : lease ∈ t.waiters → (served ++ ahead lease t.waiters).Sublist (ahead lease s.waiters) ∧
    t.creations + (ahead lease t.waiters).length ≤
      s.creations + (ahead lease s.waiters).length
  leaves : lease ∈ served → (ahead lease served).Sublist (ahead lease s.waiters)
  creations : t.creations ≤ s.creations + (ahead lease s.waiters).length + 1

/-- Nobody is assigned a database, and the queue ahead gets no longer. -/
theorem Waits.of_draws {u : WorkerEngine C} (h : Draws [] u t)
    (ha : u.assignees = s.assignees) (hc : u.creations = s.creations)
    (hw : lease ∈ u.waiters → (ahead lease u.waiters).Sublist (ahead lease s.waiters)) :
    Waits lease s t [] where
  assignees := by rw [h.assignees, ha]
  stays := fun hm => by
    rw [h.waiters] at hm ⊢
    exact ⟨hw hm, by rw [h.creations, hc]; exact Nat.add_le_add_left (hw hm).length_le _⟩
  leaves := fun hm => absurd hm List.not_mem_nil
  creations := by rw [h.creations, hc]; omega

theorem Waits.of_same (h : Draws [] s t) : Waits lease s t [] :=
  .of_draws h rfl rfl fun _ => List.Sublist.refl _

theorem retired_draws {entry : LeaseEntry} : Draws [] s (s.retired env lease entry) :=
  .same rfl ⟨[_, _], rfl, by simp [Event.assignee, Event.creation, Event.acknowledges]⟩

theorem retireLease_draws (hok : retireLease env lease s = .ok t) : Draws [] s t := by
  cases hl : s.leases.lookup lease with
  | none =>
    rw [retireLease_none hl] at hok
    cases hok
    exact .refl _
  | some entry => exact retired_draws.after (grow_draws (retireLease_some hl hok))

theorem admitLease_draws {other : LeaseId} {result : Except ReleaseError LeaseStatus}
    (h : s.admitLease other = (result, t)) : Draws [] s t := by
  rw [admitLease_keeps h]
  exact .same rfl ⟨[], rfl, by simp⟩

/-- A lease that is closed is assigned nothing, and its release is not answered yet. -/
theorem closedWith_same (other : LeaseId) (s : WorkerEngine C) :
    (s.closedWith other (s.rejections env other)).assignees = s.assignees ∧
      (s.closedWith other (s.rejections env other)).creations = s.creations ∧
      (s.closedWith other (s.rejections env other)).acknowledged = s.acknowledged := by
  have hsilent : ∀ event ∈ s.rejections env other,
      event.assignee = none ∧ event.creation = none ∧ event.acknowledges = none := by
    intro event he
    obtain ⟨request, _, rfl⟩ := List.mem_map.mp (List.mem_reverse.mp he)
    exact ⟨rfl, rfl, rfl⟩
  have h1 := List.filterMap_eq_nil_iff.mpr fun event he => (hsilent event he).1
  have h2 := List.filterMap_eq_nil_iff.mpr fun event he => (hsilent event he).2.1
  have h3 := List.filterMap_eq_nil_iff.mpr fun event he => (hsilent event he).2.2
  refine ⟨?_, ?_, ?_⟩
  · simp [closedWith, WorkerEngine.assignees, h1]
  · simp [closedWith, WorkerEngine.creations, h2]
  · simp [closedWith, WorkerEngine.acknowledged, h3]

/-- A lease that is closed leaves the queue; nobody else does. -/
theorem releaseLease_waits {other : LeaseId} {result : Except ReleaseError Unit}
    (hok : releaseLease env other s = .ok (result, t)) : Waits lease s t [] ∧
      (lease ∈ s.waiters → lease ∉ t.waiters → other = lease) := by
  cases ha : s.admitLease other with
  | mk outcome s₀ =>
    have hd := admitLease_draws ha
    cases outcome with
    | error error =>
      rw [releaseLease, ha] at hok
      cases hok
      exact ⟨.of_same hd, fun h1 h2 => absurd (hd.waiters ▸ h1) h2⟩
    | ok status =>
      cases status with
      | closed =>
        rw [releaseLease, ha] at hok
        cases hok
        exact ⟨.of_same hd, fun h1 h2 => absurd (hd.waiters ▸ h1) h2⟩
      | opened =>
        obtain ⟨_, hret⟩ := releaseLease_opened ha hok
        have hdraws := retireLease_draws hret
        have hwaiters : (s₀.closedWith other (s₀.rejections env other)).waiters =
            s.waiters.filter (· ≠ other) := by
          rw [← hd.waiters]
          rfl
        have hassignees := hd.assignees
        rw [List.append_nil] at hassignees
        obtain ⟨h1, h2, _⟩ := @closedWith_same C env other s₀
        refine ⟨.of_draws hdraws (h1.trans hassignees) (h2.trans hd.creations) fun hm => ?_,
          fun h1 h2 => ?_⟩
        · rw [hwaiters] at hm ⊢
          have hne : other ≠ lease := by
            rintro rfl
            simp at hm
          rw [ahead_filter hne]
          exact List.filter_sublist
        · rw [hdraws.waiters, hwaiters] at h2
          by_contra hne
          exact h2 (List.mem_filter.mpr ⟨h1, by simpa using Ne.symm hne⟩)

theorem detach_draws (other : LeaseId) (generation : Nat) (s : WorkerEngine C) :
    Draws [] s (s.detach other generation) := by
  unfold detach
  split
  · exact .refl _
  · split
    · split
      · exact .same rfl ⟨[], rfl, by simp⟩
      · exact .same rfl ⟨[.detached other generation], rfl,
          by simp [Event.assignee, Event.creation, Event.acknowledges]⟩
    · exact .refl _

theorem leaseMaxTimeReached_draws {other : LeaseId} {generation : Nat}
    (hok : leaseMaxTimeReached env other generation s = .ok t) : Draws [] s t := by
  unfold leaseMaxTimeReached at hok
  split at hok
  · have hcount : Draws [] s { s with counters := { s.counters with
        rejectedAttachMaxLifetime := s.counters.rejectedAttachMaxLifetime + 1 } } :=
      .same rfl ⟨[], rfl, by simp⟩
    exact hcount.after (retireLease_draws hok)
  · cases hok
    exact .refl _

theorem cleanupFinished_draws {databaseId : Nat} {result : Except PostgresDDLClientError Unit}
    (hok : handleDatabaseWorkerMessage env (.cleanupFinished databaseId result) s = .ok t) :
    Draws [] s t := by
  simp only [handleDatabaseWorkerMessage] at hok
  split at hok <;> cases hok
  · exact .refl _
  · exact .same rfl ⟨[.cleaned databaseId], rfl,
      by simp [Event.assignee, Event.creation, Event.acknowledges]⟩
  · exact .same rfl ⟨[], rfl, by simp⟩

theorem shutdown_draws (s : WorkerEngine C) : Draws [] s { s with rootCancelled := true } :=
  .same rfl ⟨[], rfl, by simp⟩

/-- With nothing ready, an attachment queues behind everybody. -/
theorem attachOpen_waits {other : LeaseId} {reply : C} {messageTime : Nat}
    (hready : s.inventory.ready = []) (hw : lease ∈ s.waiters)
    (hok : attachOpen env other reply messageTime s = .ok t) :
    Waits lease s t [] ∧ lease ∈ t.waiters := by
  unfold attachOpen at hok
  split at hok
  · have hd := (replyAttached_draws hok).1
    exact ⟨.of_same hd, hd.waiters ▸ hw⟩
  · simp only [DatabaseInventory.takeReady, hready] at hok
    have hd := grow_draws hok
    have hahead : ahead lease (s.enqueue other reply messageTime).waiters =
        ahead lease s.waiters := by
      unfold enqueue
      split
      · rfl
      · exact ahead_append_of_mem hw [other]
    refine ⟨.of_draws hd rfl rfl fun _ => ?_, ?_⟩
    · rw [hahead]
    · rw [hd.waiters]
      unfold enqueue
      split
      · exact hw
      · exact List.mem_append_left _ hw

theorem attachOrJoin_waits {other : LeaseId} {reply : C} {messageTime : Nat}
    (hready : s.inventory.ready = []) (hw : lease ∈ s.waiters)
    (hok : attachOrJoin env other reply messageTime s = .ok t) :
    Waits lease s t [] ∧ lease ∈ t.waiters := by
  cases ha : s.admitLease other with
  | mk outcome s₀ =>
    have hkeep := admitLease_keeps ha
    have hd := admitLease_draws ha
    have hsend : ∀ error, Waits lease s (s₀.send env other (.attachRejected error) reply) [] ∧
        lease ∈ (s₀.send env other (.attachRejected error) reply).waiters := fun error =>
      ⟨.of_same (hd.before (.log rfl rfl rfl)), hd.waiters ▸ hw⟩
    unfold attachOrJoin at hok
    simp only [ha] at hok
    cases outcome with
    | error error =>
      cases error with
      | invalidLeaseId =>
        cases hok
        exact hsend _
      | leaseRecordLimitReached | engineUnavailable | replyTimedOut | unexpectedReply =>
        cases hok
        exact hsend _
    | ok status =>
      cases status with
      | closed =>
        cases hok
        exact hsend _
      | opened =>
        have hready₀ : s₀.inventory.ready = [] := by
          rw [hkeep]
          exact hready
        obtain ⟨h1, h2⟩ := attachOpen_waits hready₀ (hd.waiters ▸ hw) hok
        refine ⟨⟨?_, fun hm => ?_, fun hm => absurd hm List.not_mem_nil, ?_⟩, h2⟩
        · simpa [hd.assignees] using h1.assignees
        · simpa [hd.waiters, hd.creations] using h1.stays hm
        · simpa [hd.waiters, hd.creations] using h1.creations

/-- The consumers that queued for `lease` do not want the database: their requests are
expired, or the replies do not reach them. -/
def Declines (env : Env C) (s : WorkerEngine C) (lease : LeaseId) (database : Database) : Prop :=
  ∃ generation, s.takers env database generation (s.requests lease) = []

/-- **A creation that succeeds** takes somebody out of the queue in front. -/
theorem creationFinished_waits {databaseId : Nat}
    {result : Except PostgresDDLClientError ReadString} (h : Inv Q s)
    (hready : s.inventory.ready = []) (hw : lease ∈ s.waiters)
    (hok : handleDatabaseWorkerMessage env (.creationFinished databaseId result) s = .ok t) :
    (∃ served, Waits lease s t served) ∧ (lease ∉ t.waiters → lease ∈ t.leases ∨
      ∃ name, result = .ok name ∧ s.Declines env lease ⟨databaseId, name⟩) := by
  rcases creationFinished_cases hok with ⟨_, rfl⟩ | ⟨hc, s₂, h1, h2⟩
  · exact ⟨⟨[], .of_same (.refl _)⟩, fun hm => absurd hw hm⟩
  obtain ⟨_, _, _, hsome, hnone⟩ := @held_settle C s (s.settledWith databaseId result)
    databaseId result hc rfl rfl
  obtain ⟨met, called, hmet, hsub, hassign, hcreate, _, hsome'⟩ := dispatchLoop_draws rfl h1
  have hgrow := grow_draws h2
  have hkeep := grow_keeps h2
  replace hmet : s.waiters = met ++ t.waiters := by
    rw [hgrow.waiters]
    exact hmet
  have hnd : (met ++ t.waiters).Nodup := hmet ▸ h.queue.nodup
  have hserved : t.assignees = s.assignees ++ called := by
    rw [hgrow.assignees, List.append_nil, hassign]
    cases result with
    | ok name => rfl
    | error error => rfl
  have hahead : lease ∈ t.waiters →
      ahead lease s.waiters = met ++ ahead lease t.waiters := by
    intro hm
    rw [hmet]
    exact ahead_append_of_notMem (fun hmem => (List.nodup_append.mp hnd).2.2 _ hmem _ hm rfl) _
  have hcount : t.creations ≤ s.creations + 1 ∧
      (lease ∈ t.waiters → t.creations ≤ s.creations + met.length) := by
    rw [hgrow.creations, hcreate]
    cases result with
    | ok name =>
      refine ⟨le_refl _, fun _ => Nat.add_le_add_left (List.length_pos_iff.mpr ?_) _⟩
      refine hsome' ?_ (List.ne_nil_of_mem hw)
      show (s.settledWith databaseId (.ok name)).inventory.ready ≠ []
      simp [(hsome name rfl).1]
    | error error => exact ⟨Nat.le_succ _, fun _ => Nat.le_add_right _ _⟩
  refine ⟨⟨called, hserved, fun hm => ?_, fun hm => ?_, ?_⟩, fun hm => ?_⟩
  · rw [hahead hm]
    refine ⟨hsub.append_right _, ?_⟩
    have := hcount.2 hm
    rw [List.length_append]
    omega
  · rw [hmet]
    refine ahead_sublist (hsub.trans (List.sublist_append_left _ _)) hnd hm
  · have := hcount.1
    omega
  · -- the lease was met, so it took the new database or did not want it
    have hmove : Move Q s (.settle databaseId) (s.settledWith databaseId result) :=
      .settle result hc
    have hcounted : Move Q (s.settledWith databaseId result) .note _ :=
      .count (s.counters.afterCreation result) (s.counters.afterCreation_detachOnZero result)
    have hd := dispatchLoop_matches ((h.move hmove).move hcounted) rfl rfl (fun _ _ => rfl) h1
    have hgone : lease ∉ s₂.waiters := by
      rw [← hgrow.waiters]
      exact hm
    rw [hd.waiters] at hgone
    obtain ⟨item, hitem, hcase⟩ := serve_met _ (show lease ∈ _ from hw) hgone
    have hname : ∃ name, result = .ok name ∧ item = ⟨databaseId, name⟩ := by
      cases result with
      | ok name =>
        have hr : item ∈ (s.settledWith databaseId (.ok name)).inventory.ready := hitem
        simp only [(hsome name rfl).1, hready, List.nil_append, List.mem_singleton] at hr
        exact ⟨name, rfl, hr⟩
      | error error =>
        have hr : item ∈ (s.settledWith databaseId (.error error)).inventory.ready := hitem
        simp [(hnone error rfl).1, hready] at hr
    obtain ⟨name, hres, rfl⟩ := hname
    rcases hcase with ⟨m, hmatch, rfl⟩ | ⟨ticket, hv⟩
    · refine Or.inl ?_
      rw [hkeep.1]
      exact mem_of_lookup (hd.assigned m hmatch)
    · refine Or.inr ⟨name, hres, ticket + 1, ?_⟩
      by_contra hne
      exact hv (verdict_takes_iff.mpr hne)

/-- **One message** keeps the place of a lease that waits.  The lease leaves the queue when
it is released, when it is assigned a database, and when nobody wants one for it. -/
theorem processMessage_waits {message : EngineMessage C} (h : Inv Q s) (hidle : s.NoIdle)
    (hw : lease ∈ s.waiters) (hok : processMessage env message s = .ok t) :
    (∃ served, Waits lease s t served) ∧ (lease ∉ t.waiters →
      (∃ reply, message = .releaseLease lease reply) ∨ lease ∈ t.leases ∨
      ∃ databaseId name, message = .databaseWorker (.creationFinished databaseId (.ok name)) ∧
        s.Declines env lease ⟨databaseId, name⟩) := by
  have hready : s.inventory.ready = [] := hidle.resolve_right (List.ne_nil_of_mem hw)
  have same : Draws [] s t → (∃ served, Waits lease s t served) ∧ lease ∈ t.waiters := fun hd =>
    ⟨⟨[], .of_same hd⟩, hd.waiters ▸ hw⟩
  cases message with
  | attachOrJoin other reply messageTime =>
    obtain ⟨h1, h2⟩ := attachOrJoin_waits hready hw hok
    exact ⟨⟨[], h1⟩, fun hm => absurd h2 hm⟩
  | releaseLease other reply =>
    obtain ⟨⟨result, s₁⟩, h1, h2⟩ := bind_ok hok
    cases h2
    obtain ⟨hwaits, hleaves⟩ : Waits lease s s₁ [] ∧
        (lease ∈ s.waiters → lease ∉ s₁.waiters → other = lease) := releaseLease_waits h1
    refine ⟨⟨[], ?_⟩, fun hm => Or.inl ⟨reply, by rw [hleaves hw hm]⟩⟩
    refine ⟨?_, hwaits.stays, hwaits.leaves, hwaits.creations⟩
    exact hwaits.assignees
  | detach other generation =>
    cases hok
    have hd := s.detach_draws other generation
    exact ⟨(same hd).1, fun hm => absurd (same hd).2 hm⟩
  | leaseMaxTimeReached other generation =>
    have hd : Draws [] s t := leaseMaxTimeReached_draws hok
    exact ⟨(same hd).1, fun hm => absurd (same hd).2 hm⟩
  | databaseWorker message =>
    cases message with
    | creationFinished databaseId result =>
      obtain ⟨h1, h2⟩ := creationFinished_waits h hready hw hok
      refine ⟨h1, fun hm => Or.inr ((h2 hm).imp_right ?_)⟩
      rintro ⟨name, rfl, hdecl⟩
      exact ⟨databaseId, name, rfl, hdecl⟩
    | cleanupFinished databaseId result =>
      have hok : handleDatabaseWorkerMessage env (.cleanupFinished databaseId result) s = .ok t :=
        hok
      have hd := cleanupFinished_draws hok
      exact ⟨(same hd).1, fun hm => absurd (same hd).2 hm⟩
  | shutdown =>
    cases hok
    have hd := s.shutdown_draws
    exact ⟨(same hd).1, fun hm => absurd (same hd).2 hm⟩

/-- What happens to a place in two parts of a run, of which the first keeps it. -/
theorem Waits.trans {u : WorkerEngine C} {served more : List LeaseId}
    (h : Waits lease s t served) (hm : lease ∈ t.waiters) (g : Waits lease t u more) :
    Waits lease s u (served ++ more) := by
  obtain ⟨hsub, hcount⟩ := h.stays hm
  have hnot : lease ∉ served := fun hl =>
    notMem_ahead lease s.waiters (hsub.subset (List.mem_append_left _ hl))
  refine ⟨?_, fun hu => ?_, fun hl => ?_, ?_⟩
  · rw [g.assignees, h.assignees, List.append_assoc]
  · obtain ⟨gsub, gcount⟩ := g.stays hu
    refine ⟨?_, le_trans gcount hcount⟩
    rw [List.append_assoc]
    exact (gsub.append_left served).trans hsub
  · have hl' := (List.mem_append.mp hl).resolve_left hnot
    rw [ahead_append_of_notMem hnot]
    exact ((g.leaves hl').append_left served).trans hsub
  · have := g.creations
    omega

end WorkerEngine

open WorkerEngine

variable {config : WorkerEngineConfig} {s t u : WorkerEngine C} {lease : LeaseId}

/-- A run in which `lease` waits all the time. -/
theorem waits_run {is : List (Env C × EngineMessage C)} (h : (engine C config).Reachable s)
    (hrun : ((engine C config).within fun s => lease ∈ s.waiters).Run s is t)
    (hw : lease ∈ s.waiters) : (engine C config).Reachable t ∧ lease ∈ t.waiters ∧
      ∃ served, Waits lease s t served := by
  induction hrun with
  | nil s => exact ⟨h, hw, [], .of_same (.refl s)⟩
  | @cons s t u i is hstep _ ih =>
    obtain ⟨_, hs, ht⟩ := hstep
    obtain ⟨hinv, hidle⟩ := engine_inv h
    obtain ⟨⟨served, hwaits⟩, _⟩ := processMessage_waits hinv hidle hw hs.2
    obtain ⟨hu, hmem, more, hrest⟩ := ih (h.step hs) ht
    exact ⟨hu, hmem, served ++ more, hwaits.trans ht hrest⟩

/-- **Nobody is overtaken, and nobody waits for more creations than leases were ahead.**
Take any run in which `lease` waits all the time, and one message more.  The leases that
are assigned a database before it were ahead of it at the start, in their order and each
once; while it waits, those and the ones still ahead are all it started behind, and every
creation that succeeded made its place better by one at least.  It leaves the queue only
when it is released, when it has a database, or when the consumers that queued for it do
not want the one that was just created. -/
theorem no_overtaking {is : List (Env C × EngineMessage C)} {i : Env C × EngineMessage C}
    (h : (engine C config).Reachable s) (hw : lease ∈ s.waiters)
    (hrun : ((engine C config).within fun s => lease ∈ s.waiters).Run s is t)
    (hstep : (engine C config).step t i u) :
    (∃ served, u.assignees = s.assignees ++ served ∧
      (lease ∈ u.waiters →
        (served ++ ahead lease u.waiters).Sublist (ahead lease s.waiters) ∧
        u.creations + (ahead lease u.waiters).length ≤
          s.creations + (ahead lease s.waiters).length) ∧
      (lease ∈ served → (ahead lease served).Sublist (ahead lease s.waiters)) ∧
      u.creations ≤ s.creations + (ahead lease s.waiters).length + 1) ∧
    (lease ∉ u.waiters → (∃ reply, i.2 = .releaseLease lease reply) ∨ lease ∈ u.leases ∨
      ∃ databaseId name, i.2 = .databaseWorker (.creationFinished databaseId (.ok name)) ∧
        t.Declines i.1 lease ⟨databaseId, name⟩) := by
  obtain ⟨ht, hmem, served, hwaits⟩ := waits_run h hrun hw
  obtain ⟨hinv, hidle⟩ := engine_inv ht
  obtain ⟨⟨more, hlast⟩, hleaves⟩ := processMessage_waits hinv hidle hmem hstep.2
  have hall := hwaits.trans hmem hlast
  exact ⟨⟨_, hall.assignees, hall.stays, hall.leaves, hall.creations⟩, hleaves⟩

/-- The fourth lease of the small engine waits behind the third, which takes the next
database; meanwhile the first gets another connection. -/
theorem no_overtaking_small : ∃ s u : WorkerEngine Nat,
    ahead Sample.leaseD s.waiters = [Sample.leaseC] ∧ Sample.leaseD ∈ u.waiters ∧
    Sample.leaseC ∈ u.leases ∧ ∃ served, u.assignees = s.assignees ++ served ∧
      (served ++ ahead Sample.leaseD u.waiters).Sublist [Sample.leaseC] ∧
      u.creations + (ahead Sample.leaseD u.waiters).length ≤ s.creations + 1 := by
  obtain ⟨s, hs, hw, hahead, hlater⟩ := Sample.reached
    [.attachOrJoin Sample.leaseA 0 0, .attachOrJoin Sample.leaseB 1 0,
      .attachOrJoin Sample.leaseC 2 0, .attachOrJoin Sample.leaseD 3 0]
    (fun s => Sample.leaseD ∈ s.waiters ∧ ahead Sample.leaseD s.waiters = [Sample.leaseC] ∧
      (Sample.next s (Sample.env, .attachOrJoin Sample.leaseA 4 0)).any (fun t =>
        decide (Sample.leaseD ∈ t.waiters) &&
        (Sample.next t (Sample.env, .databaseWorker (.creationFinished 3 (.ok "third")))).any
          fun u => decide (Sample.leaseD ∈ u.waiters ∧ Sample.leaseC ∈ u.leases)) = true)
    (by decide)
  obtain ⟨t, hjoin, ht⟩ := (Option.any_eq_true _ _).mp hlater
  rw [Bool.and_eq_true, decide_eq_true_eq] at ht
  obtain ⟨u, hlast, hu⟩ := (Option.any_eq_true _ _).mp ht.2
  obtain ⟨hwaits, hserved⟩ := of_decide_eq_true hu
  obtain ⟨⟨served, hassignees, hstays, _, _⟩, _⟩ := no_overtaking hs hw
    (.single ⟨hw, Sample.next_step hjoin, ht.1⟩) (Sample.next_step hlast)
  rw [hahead] at hstays
  exact ⟨s, u, hahead, hwaits, hserved, served, hassignees, hstays hwaits⟩

end PgTest.Engine
