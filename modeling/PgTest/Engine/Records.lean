import PgTest.Engine.Late

/-!
# The lease records

The table of lease records is capped, only grows, and a status in it goes from
open to closed.  A lease that is recorded passes admission however full the
table is: no function that runs after admission answers with the limit error
(`limitErrors`), so closing is never blocked.
-/

namespace PgTest.Engine

open PgTest.Lib

variable {C : Type} {Q : LeaseId → C → Prop}

/-- A reply that says that the table of lease records is full. -/
def Event.limitError : Event C → Bool
  | .reply _ _ (.attachRejected .leaseRecordLimitReached) _ _ => true
  | .reply _ _ (.releaseResult (.error .leaseRecordLimitReached)) _ _ => true
  | _ => false

/-- A change of the records of one lease, and only from open to closed. -/
def LeaseStatus.Becomes : LeaseStatus → LeaseStatus → Prop
  | .opened, _ => True
  | .closed, status => status = .closed

theorem LeaseStatus.Becomes.refl (status : LeaseStatus) : status.Becomes status := by
  cases status with
  | opened => trivial
  | closed => rfl

theorem LeaseStatus.Becomes.trans {a b c : LeaseStatus} (h : a.Becomes b) (g : b.Becomes c) :
    a.Becomes c := by
  cases a with
  | opened => trivial
  | closed =>
    cases h
    exact g

/-! ### The cap -/

theorem card_insert_new {lease : LeaseId} {status : LeaseStatus}
    {records : Finmap fun _ : LeaseId => LeaseStatus} (h : lease ∉ records) :
    (records.insert lease status).keys.card = records.keys.card + 1 := by
  rw [Finset.card, keys_insert status h, Multiset.card_cons, Finset.card]

theorem card_insert_old {lease : LeaseId} {status : LeaseStatus}
    {records : Finmap fun _ : LeaseId => LeaseStatus} (h : lease ∈ records) :
    (records.insert lease status).keys.card = records.keys.card := by
  have hkeys : records.keys.card = (records.erase lease).keys.card + 1 := by
    rw [Finset.card, keys_erase h, Multiset.card_cons, Finset.card]
  rw [← insert_erase, card_insert_new Finmap.notMem_erase_self, hkeys]

namespace WorkerEngine

/-- No more leases are recorded than the configuration allows. -/
def Capped (s : WorkerEngine C) : Prop := s.leaseRecords.keys.card ≤ s.config.maxLeaseRecords

theorem Capped.move {s s' : WorkerEngine C} {a : Act} (h : s.Capped) (hm : Move Q s a s') :
    s'.Capped := by
  unfold Capped at h ⊢
  cases hm with
  | count _ _ | note _ | enqueue _ _ _ _ _ | dequeue _ | assign _ _ _ _ _ _ | attach _ _ _
  | restore _ _ _ | detach _ _ | detachIdle _ _ | retire _ _ | reserve _ _ _ _ | burn _ _ _ _ _
  | settle _ _ | clean _ | shutdown => exact h
  | enroll hnew hcap => exact (card_insert_new hnew).trans_le hcap
  | close hopen _ _ => exact (card_insert_old (mem_of_lookup hopen)).trans_le h

theorem ledger_capped {s : WorkerEngine C} (h : (ledger Q).Reachable s) : s.Capped := by
  refine h.invariant (I := fun s => s.Capped) (fun s hs => ?_) fun _ _ _ _ hs hm => hs.move hm
  obtain ⟨config, rfl⟩ := hs
  exact Nat.zero_le _

end WorkerEngine

/-! ### What was recorded -/

open WorkerEngine

/-- A record stays, open or closed. -/
theorem Move.recorded {s s' : WorkerEngine C} {a : Act} (h : Move Q s a s') {lease : LeaseId}
    {status : LeaseStatus} (hl : s.leaseRecords.lookup lease = some status) :
    ∃ later, s'.leaseRecords.lookup lease = some later ∧ status.Becomes later := by
  cases h with
  | count _ _ | note _ | enqueue _ _ _ _ _ | dequeue _ | assign _ _ _ _ _ _ | attach _ _ _
  | restore _ _ _ | detach _ _ | detachIdle _ _ | retire _ _ | reserve _ _ _ _ | burn _ _ _ _ _
  | settle _ _ | clean _ | shutdown => exact ⟨status, hl, .refl status⟩
  | @enroll other hnew _ =>
    have hne : lease ≠ other := by
      rintro rfl
      exact hnew (mem_of_lookup hl)
    exact ⟨status, (Finmap.lookup_insert_of_ne _ hne).trans hl, .refl status⟩
  | @close other _ hopen _ _ =>
    by_cases hne : lease = other
    · subst hne
      rw [hopen] at hl
      cases hl
      exact ⟨.closed, Finmap.lookup_insert _, trivial⟩
    · exact ⟨status, (Finmap.lookup_insert_of_ne _ hne).trans hl, .refl status⟩

theorem Path.recorded {P : Act → Prop} {s t : WorkerEngine C} (h : Path Q P s t) (hs : Inv Q s)
    {lease : LeaseId} {status : LeaseStatus} (hl : s.leaseRecords.lookup lease = some status) :
    ∃ later, t.leaseRecords.lookup lease = some later ∧ status.Becomes later := by
  refine h.invariant (I := fun t => ∃ later, t.leaseRecords.lookup lease = some later ∧
    status.Becomes later) ?_ hs ⟨status, hl, .refl status⟩
  rintro s₁ a t₁ _ _ ⟨middle, h1, h2⟩ hm
  obtain ⟨later, h3, h4⟩ := hm.recorded h1
  exact ⟨later, h3, h2.trans h4⟩

/-! ### After admission -/

namespace WorkerEngine

/-- The limit errors that were answered. -/
def limitErrors (s : WorkerEngine C) : List (Event C) := s.history.filter Event.limitError

theorem limitErrors_congr {s t : WorkerEngine C} (h : t.history = s.history) :
    t.limitErrors = s.limitErrors := by
  rw [limitErrors, h, limitErrors]

theorem limitErrors_append {s t : WorkerEngine C} {new : List (Event C)}
    (h : t.history = new ++ s.history) :
    t.limitErrors = s.limitErrors ↔ ∀ event ∈ new, event.limitError = false := by
  rw [limitErrors, limitErrors, h, List.filter_append]
  simp

section Functions

variable {env : Env C} {s t : WorkerEngine C}

theorem grow_limitErrors (hok : grow env s = .ok t) : t.limitErrors = s.limitErrors := by
  rcases grow_cases hok with ⟨rfl, _⟩ | ⟨_, _, _, ⟨_, rfl⟩ | ⟨_, rfl⟩⟩ <;> rfl

theorem replyAttached_limitErrors {lease : LeaseId} {name : ReadString} {reply : C}
    (hok : replyAttached env lease name reply s = .ok t) : t.limitErrors = s.limitErrors := by
  rw [replyAttached] at hok
  cases hl : s.leases.lookup lease with
  | none =>
    rw [hl] at hok
    cases hok
  | some entry =>
    rw [hl] at hok
    simp only at hok
    split at hok
    · cases hok
      rfl
    · split at hok
      · cases hok
        rfl
      · split at hok
        · cases hok
        · cases hok
          rfl

theorem assignDatabase_limitErrors {lease : LeaseId} {database : Database}
    {rest : List Database} {name : ReadString} (hok : assignDatabase env lease database
      { s with inventory := { s.inventory with ready := rest } } = .ok (name, t)) :
    t.limitErrors = s.limitErrors := by
  obtain ⟨_, _, _, scheduling, hsched, rfl⟩ := assignDatabase_cases hok
  rw [Scheduling] at hsched
  split at hsched
  · obtain ⟨_, rfl⟩ := hsched
    rfl
  · subst hsched
    rfl

theorem claimDatabase_limitErrors {lease : LeaseId} {name : ReadString}
    (hok : claimDatabase env lease s = .ok (name, t)) : t.limitErrors = s.limitErrors := by
  rw [claimDatabase] at hok
  cases hl : s.leases.lookup lease with
  | some entry =>
    rw [hl] at hok
    cases hok
    rfl
  | none =>
    rw [hl, DatabaseInventory.takeReady] at hok
    cases hready : s.inventory.ready with
    | nil =>
      rw [hready] at hok
      cases hok
    | cons database rest =>
      rw [hready] at hok
      exact assignDatabase_limitErrors hok

theorem restoreUnclaimedDatabase_limitErrors {lease : LeaseId} {restored : Bool}
    (hok : restoreUnclaimedDatabase lease s = .ok (restored, t)) :
    t.limitErrors = s.limitErrors := by
  rcases restoreUnclaimedDatabase_cases hok with ⟨_, rfl⟩ | ⟨_, _, _, _, rfl⟩ <;> rfl

theorem serveRequest_limitErrors {lease : LeaseId} {request : C × Nat}
    (hok : serveRequest env lease s request = .ok t) : t.limitErrors = s.limitErrors := by
  rw [serveRequest] at hok
  split at hok
  · cases hok
    rfl
  · obtain ⟨⟨name, s₁⟩, h1, h2⟩ := bind_ok hok
    exact (replyAttached_limitErrors h2).trans (claimDatabase_limitErrors h1)

/-- Requests of a closed lease are told so. -/
theorem rejected_limitErrors (lease : LeaseId) (replies : List (C × Nat)) :
    (replies.foldl (fun s request => s.send env lease (.attachRejected .leaseClosed) request.1)
      s).limitErrors = s.limitErrors := by
  rw [foldl_send, limitErrors_append rfl]
  intro event he
  obtain ⟨request, _, rfl⟩ := List.mem_map.mp (List.mem_reverse.mp he)
  rfl

theorem serveGroup_limitErrors {lease : LeaseId} {replies : List (C × Nat)}
    (hok : serveGroup env lease replies s = .ok t) : t.limitErrors = s.limitErrors := by
  rw [serveGroup] at hok
  split at hok
  · cases hok
    exact rejected_limitErrors lease replies
  · obtain ⟨served, h1, h2⟩ := bind_ok hok
    have hserved : served.limitErrors = s.limitErrors :=
      foldlM_ok (I := fun t => t.limitErrors = s.limitErrors)
        (fun _ _ _ _ hI hs => (serveRequest_limitErrors hs).trans hI) rfl h1
    split at h2
    · cases h2
      exact hserved
    · obtain ⟨⟨restored, s₂⟩, h3, h4⟩ := bind_ok h2
      cases h4
      exact (restoreUnclaimedDatabase_limitErrors h3).trans hserved

theorem dispatchLoop_limitErrors {queue : List LeaseId}
    (hok : dispatchLoop env queue s = .ok t) : t.limitErrors = s.limitErrors := by
  induction queue generalizing s with
  | nil =>
    cases hok
    rfl
  | cons lease rest ih =>
    rw [dispatchLoop] at hok
    split at hok
    · cases hok
      rfl
    · simp only at hok
      split at hok
      · exact (ih hok).trans (limitErrors_congr rfl)
      · obtain ⟨s₁, h1, h2⟩ := bind_ok hok
        exact (ih h2).trans ((serveGroup_limitErrors h1).trans (limitErrors_congr rfl))

theorem attachOpen_limitErrors {lease : LeaseId} {reply : C} {messageTime : Nat}
    (hok : attachOpen env lease reply messageTime s = .ok t) : t.limitErrors = s.limitErrors := by
  cases hl : s.leases.lookup lease with
  | some entry =>
    rw [attachOpen, hl] at hok
    exact replyAttached_limitErrors hok
  | none =>
    cases hready : s.inventory.ready with
    | nil =>
      rw [attachOpen, hl, DatabaseInventory.takeReady, hready] at hok
      exact (grow_limitErrors hok).trans (limitErrors_congr rfl)
    | cons database rest =>
      obtain ⟨name, s₁, s₂, restored, s₃, s₄, h1, h2, h3, h4, h5⟩ := attachOpen_fresh hl hready hok
      have hbefore : s₃.limitErrors = s.limitErrors := by
        rw [restoreUnclaimedDatabase_limitErrors h3, replyAttached_limitErrors h2,
          assignDatabase_limitErrors h1]
      rcases h4 with h4 | ⟨_, rfl⟩
      · exact (grow_limitErrors h5).trans ((dispatchLoop_limitErrors h4).trans hbefore)
      · exact (grow_limitErrors h5).trans hbefore

theorem retireLease_limitErrors {lease : LeaseId} (hok : retireLease env lease s = .ok t) :
    t.limitErrors = s.limitErrors := by
  cases hl : s.leases.lookup lease with
  | none =>
    rw [retireLease_none hl] at hok
    cases hok
    rfl
  | some entry =>
    refine (grow_limitErrors (retireLease_some hl hok)).trans ?_
    rw [@limitErrors_append C s _ [_, _] rfl]
    simp [Event.limitError]

/-- The release of a recorded lease succeeds. -/
theorem releaseLease_recorded {lease : LeaseId} {result : Except ReleaseError Unit}
    (hl : lease ∈ s.leaseRecords) (hok : releaseLease env lease s = .ok (result, t)) :
    result = .ok () ∧ t.limitErrors = s.limitErrors := by
  obtain ⟨status, hl⟩ := Finmap.mem_iff.mp hl
  have ha : s.admitLease lease = (.ok status, s) := by rw [admitLease, hl]
  cases status with
  | closed =>
    rw [releaseLease, ha] at hok
    cases hok
    exact ⟨rfl, rfl⟩
  | opened =>
    obtain ⟨hresult, hret⟩ := releaseLease_opened ha hok
    refine ⟨hresult, (retireLease_limitErrors hret).trans ?_⟩
    rw [@limitErrors_append C s _ (s.rejections env lease) rfl]
    intro event he
    obtain ⟨request, _, rfl⟩ := List.mem_map.mp (List.mem_reverse.mp he)
    rfl

/-- The attachment of a recorded lease is not refused for the limit. -/
theorem attachOrJoin_recorded {lease : LeaseId} {reply : C} {messageTime : Nat}
    (hl : lease ∈ s.leaseRecords) (hok : attachOrJoin env lease reply messageTime s = .ok t) :
    t.limitErrors = s.limitErrors := by
  obtain ⟨status, hl⟩ := Finmap.mem_iff.mp hl
  have ha : s.admitLease lease = (.ok status, s) := by rw [admitLease, hl]
  rw [attachOrJoin, ha] at hok
  cases status with
  | closed =>
    cases hok
    rfl
  | opened => exact attachOpen_limitErrors hok

end Functions

theorem admitLease_full {s : WorkerEngine C} {lease : LeaseId} (hl : lease ∉ s.leaseRecords)
    (hfull : s.config.maxLeaseRecords ≤ s.leaseRecords.keys.card) :
    s.admitLease lease = (.error .leaseRecordLimitReached, s) := by
  rw [admitLease, Finmap.lookup_eq_none.mpr hl]
  simp [hfull]

end WorkerEngine

/-- **The lease record limit is a hard cap that never blocks closing.**  The
table holds no more than it may, records stay and go from open to closed only,
and who has a database or waits for one is open.  Where the table is full, a new
lease is answered with the limit error, or not at all where the message has no
answer, and nothing else happens.  A recorded lease is never answered so, and its
release succeeds. -/
theorem record_limit_never_blocks_closing {config : WorkerEngineConfig} {s : WorkerEngine C}
    (h : (engine C config).Reachable s) :
    s.leaseRecords.keys.card ≤ config.maxLeaseRecords ∧
    (∀ is t, (engine C config).Run s is t → ∀ lease status,
      s.leaseRecords.lookup lease = some status →
        ∃ later, t.leaseRecords.lookup lease = some later ∧ status.Becomes later) ∧
    (∀ lease, lease ∈ s.leases ∨ lease ∈ s.groupWaiters →
      s.leaseRecords.lookup lease = some .opened) ∧
    (∀ lease, lease ∉ s.leaseRecords → s.leaseRecords.keys.card = config.maxLeaseRecords →
      ∀ env,
        (∀ reply messageTime, processMessage env (.attachOrJoin lease reply messageTime) s =
          .ok (s.send env lease (.attachRejected .leaseRecordLimitReached) reply)) ∧
        (∀ reply, processMessage env (.releaseLease lease reply) s =
          .ok (s.send env lease (.releaseResult (.error .leaseRecordLimitReached)) reply)) ∧
        ∀ generation, processMessage env (.detach lease generation) s = .ok s ∧
          processMessage env (.leaseMaxTimeReached lease generation) s = .ok s) ∧
    ∀ lease, lease ∈ s.leaseRecords → ∀ env reply t new, t.history = new ++ s.history →
      (∀ messageTime, processMessage env (.attachOrJoin lease reply messageTime) s = .ok t →
        ∀ event ∈ new, event.limitError = false) ∧
      (processMessage env (.releaseLease lease reply) s = .ok t →
        (∃ u : WorkerEngine C, t = u.send env lease (.releaseResult (.ok ())) reply) ∧
          ∀ event ∈ new, event.limitError = false) := by
  have hinv := (engine_inv h).1
  have hconfig := engine_config h
  have hcap : s.leaseRecords.keys.card ≤ s.config.maxLeaseRecords :=
    ledger_capped ((engine_refines C config).reachable h).1
  rw [hconfig] at hcap
  refine ⟨hcap, ?_, ?_, ?_, ?_⟩
  · intro is t hr lease status hl
    exact (engine_run h hr).recorded hinv hl
  · rintro lease (hl | hl)
    · exact hinv.queue.leased_open lease hl
    · exact hinv.queue.waiting_open lease hl
  · intro lease hl hfull env
    have ha : s.admitLease lease = (.error .leaseRecordLimitReached, s) :=
      admitLease_full hl (by rw [hconfig, hfull])
    have hended : ∀ generation, s.Ended lease generation := by
      intro generation entry he
      exact absurd (mem_of_lookup (hinv.queue.leased_open lease (mem_of_lookup he))) hl
    refine ⟨fun reply messageTime => ?_, fun reply => ?_, fun generation =>
      ⟨inert_detach (hended generation) env, inert_leaseMaxTimeReached (hended generation) env⟩⟩
    · rw [processMessage, attachOrJoin, ha]
    · rw [processMessage, releaseLease, ha]
      rfl
  · intro lease hl env reply t new hnew
    refine ⟨fun messageTime hok => ?_, fun hok => ?_⟩
    · exact (limitErrors_append hnew).mp (attachOrJoin_recorded hl hok)
    · obtain ⟨⟨result, u⟩, h1, h2⟩ := bind_ok hok
      obtain ⟨rfl, hu⟩ := releaseLease_recorded hl h1
      cases h2
      exact ⟨⟨u, rfl⟩, (limitErrors_append hnew).mp hu⟩

/-- The small engine with room for one lease, which is taken. -/
theorem record_limit_never_blocks_closing_full : ∃ s : WorkerEngine Nat,
    (engine Nat { Sample.settings with maxLeaseRecords := 1 }).Reachable s ∧
    Sample.leaseA ∈ s.leases ∧
    processMessage Sample.env (.attachOrJoin Sample.leaseB 1 0) s =
      .ok (s.send Sample.env Sample.leaseB (.attachRejected .leaseRecordLimitReached) 1) := by
  obtain ⟨s, hs, hp⟩ := (Option.any_eq_true _ _).mp (show ((started
    { Sample.settings with maxLeaseRecords := 1 } Sample.reports
    [(Sample.env, .attachOrJoin Sample.leaseA 0 0)]).any fun s => decide
      (Sample.leaseA ∈ s.leases ∧ Sample.leaseB ∉ s.leaseRecords ∧
        s.leaseRecords.keys.card = 1)) = true by decide)
  obtain ⟨hleased, hnew, hfull⟩ := of_decide_eq_true hp
  have hreach := started_reachable hs
  have hcap := (record_limit_never_blocks_closing hreach).2.2.2.1
  exact ⟨s, hreach, hleased, (hcap Sample.leaseB hnew hfull Sample.env).1 1 0⟩

end PgTest.Engine
