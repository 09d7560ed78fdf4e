import PgTest.Engine.Fairness
import PgTest.Engine.Release

/-!
# Releases are acknowledged to those who asked

`Ok` is the answer to a `ReleaseLease` only, for the lease that it names and to the
consumer that it brings (`processMessage_acknowledged`).  The lease is closed by then,
and stays closed.
-/

namespace PgTest.Engine

open PgTest.Lib

variable {C : Type} {config : WorkerEngineConfig} {env : Env C} {s t : WorkerEngine C}
  {lease : LeaseId}

namespace WorkerEngine

/-! ### One message -/

theorem dispatchWaiters_acknowledged (hok : dispatchWaiters env s = .ok t) :
    t.acknowledged = s.acknowledged := by
  obtain ⟨_, _, _, _, _, _, h, _⟩ := dispatchLoop_draws rfl hok
  exact h

theorem attachOpen_acknowledged {reply : C} {messageTime : Nat}
    (hok : attachOpen env lease reply messageTime s = .ok t) :
    t.acknowledged = s.acknowledged := by
  cases hl : s.leases.lookup lease with
  | some entry =>
    rw [attachOpen, hl] at hok
    exact (replyAttached_draws hok).1.acknowledged
  | none =>
    cases hready : s.inventory.ready with
    | nil =>
      rw [attachOpen, hl, DatabaseInventory.takeReady, hready] at hok
      exact (grow_draws hok).acknowledged
    | cons database rest =>
      obtain ⟨name, s₁, s₂, restored, s₃, s₄, h1, h2, h3, h4, h5⟩ := attachOpen_fresh hl hready hok
      obtain ⟨_, _, _, scheduling, hsched, rfl⟩ := assignDatabase_cases h1
      have hdispatch : s₄.acknowledged = s₃.acknowledged := by
        rcases h4 with h4 | ⟨_, rfl⟩
        · exact dispatchWaiters_acknowledged h4
        · rfl
      calc t.acknowledged = s₄.acknowledged := (grow_draws h5).acknowledged
        _ = s₃.acknowledged := hdispatch
        _ = s₂.acknowledged := (restoreUnclaimedDatabase_draws h3).acknowledged
        _ = _ := (replyAttached_draws h2).1.acknowledged
        _ = s.acknowledged := (assignment_draws hsched).acknowledged

theorem attachOrJoin_acknowledged {reply : C} {messageTime : Nat}
    (hok : attachOrJoin env lease reply messageTime s = .ok t) :
    t.acknowledged = s.acknowledged := by
  cases ha : s.admitLease lease with
  | mk outcome s₀ =>
    have hd : s₀.acknowledged = s.acknowledged := (admitLease_draws ha).acknowledged
    unfold attachOrJoin at hok
    simp only [ha] at hok
    cases outcome with
    | error error =>
      cases error with
      | invalidLeaseId =>
        cases hok
        exact hd
      | leaseRecordLimitReached | engineUnavailable | replyTimedOut | unexpectedReply =>
        cases hok
        exact hd
    | ok status =>
      cases status with
      | closed =>
        cases hok
        exact hd
      | opened => exact (attachOpen_acknowledged hok).trans hd

/-- A release answers nobody before it is done. -/
theorem releaseLease_acknowledged {result : Except ReleaseError Unit}
    (hok : releaseLease env lease s = .ok (result, t)) : t.acknowledged = s.acknowledged := by
  cases ha : s.admitLease lease with
  | mk outcome s₀ =>
    have hd : s₀.acknowledged = s.acknowledged := (admitLease_draws ha).acknowledged
    cases outcome with
    | error error =>
      rw [releaseLease, ha] at hok
      cases hok
      exact hd
    | ok status =>
      cases status with
      | closed =>
        rw [releaseLease, ha] at hok
        cases hok
        exact hd
      | opened =>
        obtain ⟨_, hret⟩ := releaseLease_opened ha hok
        obtain ⟨_, _, hclosed⟩ := @closedWith_same C env lease s₀
        exact (retireLease_draws hret).acknowledged.trans (hclosed.trans hd)

theorem creationFinished_acknowledged {databaseId : Nat}
    {result : Except PostgresDDLClientError ReadString}
    (hok : handleDatabaseWorkerMessage env (.creationFinished databaseId result) s = .ok t) :
    t.acknowledged = s.acknowledged := by
  rcases creationFinished_cases hok with ⟨_, rfl⟩ | ⟨_, s₂, h1, h2⟩
  · rfl
  · refine (grow_draws h2).acknowledged.trans ((dispatchWaiters_acknowledged h1).trans ?_)
    cases result with
    | ok name => rfl
    | error error => rfl

/-- **`Ok` answers a release**: the one that is handled, and no other message. -/
theorem processMessage_acknowledged {message : EngineMessage C}
    (hok : processMessage env message s = .ok t) : t.acknowledged = s.acknowledged ∨
      ∃ lease reply, message = .releaseLease lease reply ∧
        t.acknowledged = (lease, reply) :: s.acknowledged := by
  cases message with
  | attachOrJoin lease reply messageTime => exact Or.inl (attachOrJoin_acknowledged hok)
  | releaseLease lease reply =>
    obtain ⟨⟨result, s₁⟩, h1, h2⟩ := bind_ok hok
    cases h2
    have hsame := releaseLease_acknowledged h1
    cases result with
    | ok => exact Or.inr ⟨lease, reply, rfl, congrArg ((lease, reply) :: ·) hsame⟩
    | error error => exact Or.inl hsame
  | detach lease generation =>
    cases hok
    exact Or.inl (s.detach_draws lease generation).acknowledged
  | leaseMaxTimeReached lease generation =>
    exact Or.inl (leaseMaxTimeReached_draws hok).acknowledged
  | databaseWorker message =>
    cases message with
    | creationFinished databaseId result => exact Or.inl (creationFinished_acknowledged hok)
    | cleanupFinished databaseId result =>
      have hok : handleDatabaseWorkerMessage env (.cleanupFinished databaseId result) s = .ok t :=
        hok
      exact Or.inl (cleanupFinished_draws hok).acknowledged
  | shutdown =>
    cases hok
    exact Or.inl s.shutdown_draws.acknowledged

theorem mem_acknowledged {consumer : C} : (lease, consumer) ∈ s.acknowledged ↔
    ∃ behind delivered, .reply lease consumer (.releaseResult (.ok ())) behind delivered ∈
      s.history := by
  rw [acknowledged, List.mem_filterMap]
  constructor
  · rintro ⟨event, hm, he⟩
    unfold Event.acknowledges at he
    split at he
    · cases he
      exact ⟨_, _, hm⟩
    · cases he
  · rintro ⟨behind, delivered, hm⟩
    exact ⟨_, hm, rfl⟩

end WorkerEngine

open WorkerEngine

/-- Nothing was released before `try_init` returns. -/
theorem init_acknowledged (h : (engine C config).init s) : s.acknowledged = [] := by
  obtain ⟨reports, hok⟩ := h
  refine (tryInit_path (Q := Anyone) hok).1.invariant (I := fun s => s.acknowledged = [])
    (fun s a t ha _ hI hm => ?_) (.new config) rfl
  cases hm with
  | reserve _ _ _ hev =>
    rcases hev with rfl | rfl
    · exact hI
    · exact hI
  | burn _ _ _ _ _ => exact hI
  | settle result _ =>
    cases result with
    | ok name => exact hI
    | error error => exact hI
  | count _ _ | note _ | enroll _ _ | close _ _ _ | enqueue _ _ _ _ _ | dequeue _
  | assign _ _ _ _ _ _ | attach _ _ _ | restore _ _ _ | detach _ _ | detachIdle _ _ | retire _ _
  | clean _ | shutdown => exact ha.elim

/-! ### The lease of an acknowledged release -/

/-- **A lease whose release was acknowledged** is closed. -/
theorem engine_acknowledged {consumer : C} (h : (engine C config).Reachable s)
    (ha : (lease, consumer) ∈ s.acknowledged) : s.leaseRecords.lookup lease = some .closed := by
  obtain ⟨_, _, hm⟩ := mem_acknowledged.mp ha
  exact (engine_inv h).1.kept.released _ _ _ _ hm

/-- It stays closed, and is nowhere in the engine. -/
theorem engine_closed {is : List (Env C × EngineMessage C)} (h : (engine C config).Reachable s)
    (hc : s.leaseRecords.lookup lease = some .closed) (hrun : (engine C config).Run s is t) :
    t.leaseRecords.lookup lease = some .closed ∧ lease ∉ t.leases ∧ lease ∉ t.waiters := by
  have hinv := (engine_inv h).1
  have hp := engine_run h hrun
  have hc' := hp.closed hinv hc
  have hout := (hp.inv hinv).queue.of_closed hc'
  exact ⟨hc', hout.1, hout.2.1⟩

end PgTest.Engine
