import PgTest.Engine.Refinement

/-!
# Release is final

A lease that was released is closed and stays closed, and a closed lease is
answered without looking at anything but its record.  The requests that were
queued for the lease are rejected by the release itself.
-/

namespace PgTest.Engine

open PgTest.Lib WorkerEngine

variable {C : Type} {config : WorkerEngineConfig} {s t : WorkerEngine C} {env : Env C}
  {lease : LeaseId}

/-! ### A closed lease -/

theorem admitLease_closed (hc : s.leaseRecords.lookup lease = some .closed) :
    s.admitLease lease = (.ok .closed, s) := by
  rw [admitLease, hc]

theorem attachOrJoin_closed (hc : s.leaseRecords.lookup lease = some .closed) (reply : C)
    (messageTime : Nat) :
    processMessage env (.attachOrJoin lease reply messageTime) s =
      .ok (s.send env lease (.attachRejected .leaseClosed) reply) := by
  rw [processMessage, attachOrJoin, admitLease_closed hc]

/-- A second release changes nothing. -/
theorem releaseLease_closed (hc : s.leaseRecords.lookup lease = some .closed) :
    releaseLease env lease s = .ok (.ok (), s) := by
  rw [releaseLease, admitLease_closed hc]

theorem processMessage_release_closed (hc : s.leaseRecords.lookup lease = some .closed)
    (reply : C) :
    processMessage env (.releaseLease lease reply) s =
      .ok (s.send env lease (.releaseResult (.ok ())) reply) := by
  rw [processMessage, releaseLease_closed hc]
  rfl

/-- A closed lease is nowhere in the engine. -/
theorem WorkerEngine.Queue.of_closed {Q : LeaseId → C → Prop} (h : Queue Q s)
    (hc : s.leaseRecords.lookup lease = some .closed) :
    lease ∉ s.leases ∧ lease ∉ s.waiters ∧ lease ∉ s.groupWaiters := by
  have hg : lease ∉ s.groupWaiters := by
    intro hg
    have ho := h.waiting_open lease hg
    rw [hc] at ho
    cases ho
  refine ⟨?_, fun hw => hg ((h.keys lease).mp hw), hg⟩
  intro hl
  have ho := h.leased_open lease hl
  rw [hc] at ho
  cases ho

/-! ### The requests of a lease that is being closed -/

theorem rejections_of_not_waiting (h : lease ∉ s.groupWaiters) : s.rejections env lease = [] := by
  rw [rejections, Finmap.lookup_eq_none.mpr h]
  rfl

theorem retireLease_history (hok : retireLease env lease s = .ok t) :
    ∃ more, t.history = more ++ s.history := by
  cases hl : s.leases.lookup lease with
  | none =>
    rw [retireLease_none hl] at hok
    cases hok
    exact ⟨[], rfl⟩
  | some entry =>
    rcases grow_cases (retireLease_some hl hok) with ⟨rfl, _⟩ | ⟨_, _, _, ⟨_, rfl⟩ | ⟨_, rfl⟩⟩
    · exact ⟨[.grew, _, _], rfl⟩
    · exact ⟨[_, .grew, _, _], rfl⟩
    · exact ⟨[_, .grew, _, _], rfl⟩

/-- **A release answers every queued request of its lease**, in order, with
`LeaseClosed`. -/
theorem release_rejects {Q : LeaseId → C → Prop} (h : Inv Q s) {reply : C}
    (hok : processMessage env (.releaseLease lease reply) s = .ok t) :
    ∃ more, t.history = more ++ (s.rejections env lease ++ s.history) := by
  obtain ⟨⟨result, s₁⟩, h1, h2⟩ := bind_ok hok
  cases h2
  have key : ∃ more, s₁.history = more ++ (s.rejections env lease ++ s.history) := by
    cases ha : s.admitLease lease with
    | mk outcome s₀ =>
      have hkeep := admitLease_keeps ha
      cases outcome with
      | error error =>
        rw [releaseLease, ha] at h1
        cases h1
        rcases admitLease_cases ha with ⟨_, _, hr, _⟩ | ⟨rfl, hnew, _⟩ | ⟨_, _, hr, _⟩
        · cases hr
        · have hg : lease ∉ s₁.groupWaiters := fun hg =>
            hnew (mem_of_lookup (h.queue.waiting_open lease hg))
          rw [rejections_of_not_waiting hg]
          exact ⟨[], rfl⟩
        · cases hr
      | ok status =>
        cases status with
        | closed =>
          rw [releaseLease, ha] at h1
          cases h1
          rcases admitLease_cases ha with ⟨rfl, _, hr, hl⟩ | ⟨_, _, _, hr⟩ | ⟨_, _, hr, _⟩
          · cases hr
            rw [rejections_of_not_waiting (h.queue.of_closed hl).2.2]
            exact ⟨[], rfl⟩
          · cases hr
          · cases hr
        | opened =>
          obtain ⟨_, hret⟩ := releaseLease_opened ha h1
          obtain ⟨more, hmore⟩ := retireLease_history hret
          rw [hkeep] at hmore
          exact ⟨more, hmore⟩
  obtain ⟨more, hmore⟩ := key
  exact ⟨_ :: more, congrArg (_ :: ·) hmore⟩

/-! ### Afterwards -/

/-- If the event is an `Attached` reply, it is not for `lease`. -/
def Event.NotFor (lease : LeaseId) : Event C → Prop
  | .reply other _ (.attached _ _ _) _ _ => other ≠ lease
  | _ => True

theorem notFor_of_honest {event : Event C} (h : s.Honest event) (hl : lease ∉ s.leases) :
    event.NotFor lease := by
  cases event with
  | reply other consumer message behind delivered =>
    cases message with
    | attached name generation token =>
      obtain ⟨entry, he, _⟩ := h
      rintro rfl
      exact hl (mem_of_lookup he)
    | failedToAttach | attachRejected _ | releaseResult _ => trivial
  | assigned _ _ _ | scheduled _ _ _ _ _ | cancelled _ | returned _ _ _ | requestedCreation _ _
  | requestedCleanup _ _ | created _ | creationFailed _ | cleaned _ | expired _ _ | detached _ _
  | grew => trivial

/-- A path never hands out a closed lease. -/
theorem closed_path {Q : LeaseId → C → Prop} {P : Act → Prop} (h : Inv Q s)
    (hc : s.leaseRecords.lookup lease = some .closed) (hp : Path Q P s t) :
    ∃ new, t.history = new ++ s.history ∧ ∀ event ∈ new, event.NotFor lease := by
  have key := hp.invariant (I := fun t => t.leaseRecords.lookup lease = some .closed ∧
      ∃ new, t.history = new ++ s.history ∧ ∀ event ∈ new, event.NotFor lease)
    (fun s₁ a t₁ _ hinv₁ hI hm => ⟨hm.closed hI.1, ?_⟩) h
    ⟨hc, [], rfl, fun _ he => absurd he List.not_mem_nil⟩
  · exact key.2
  · obtain ⟨hc₁, new, hnew, hnot⟩ := hI
    obtain ⟨more, _, hon, hmore⟩ := hm.news
    have hl := (hinv₁.queue.of_closed hc₁).1
    refine ⟨more ++ new, by rw [hmore, hnew, List.append_assoc], fun event he => ?_⟩
    rcases List.mem_append.mp he with he | he
    · exact notFor_of_honest (hon event he) hl
    · exact hnot event he

/-- **Release is final and idempotent.**  A release rejects the queued requests
of its lease.  Once a release was answered `Ok`, the lease is closed and nowhere
in the engine in every later state, no `Attached` reply is produced for it, a
further attachment is answered `LeaseClosed`, and a further release is answered
`Ok` and changes nothing. -/
theorem release_is_final (h : (engine C config).Reachable s) (lease : LeaseId) :
    (∀ env reply t, processMessage env (.releaseLease lease reply) s = .ok t →
      ∃ more, t.history = more ++ (s.rejections env lease ++ s.history)) ∧
    (∀ consumer behind delivered,
      .reply lease consumer (.releaseResult (.ok ())) behind delivered ∈ s.history →
      ∀ is t, (engine C config).Run s is t →
        t.leaseRecords.lookup lease = some .closed ∧
        (lease ∉ t.leases ∧ lease ∉ t.waiters ∧ lease ∉ t.groupWaiters) ∧
        (∀ new, t.history = new ++ s.history →
          ∀ consumer name generation token behind delivered,
            .reply lease consumer (.attached name generation token) behind delivered ∉ new) ∧
        (∀ env reply messageTime, processMessage env (.attachOrJoin lease reply messageTime) t =
          .ok (t.send env lease (.attachRejected .leaseClosed) reply)) ∧
        (∀ env reply, processMessage env (.releaseLease lease reply) t =
          .ok (t.send env lease (.releaseResult (.ok ())) reply))) := by
  have hinv := (engine_inv h).1
  refine ⟨fun env reply t hok => release_rejects hinv hok, ?_⟩
  intro consumer behind delivered hr is t hrun
  have hc := hinv.kept.released _ _ _ _ hr
  have hp := engine_run h hrun
  have hc' := hp.closed hinv hc
  refine ⟨hc', (hp.inv hinv).queue.of_closed hc', ?_, ?_, ?_⟩
  · intro new hnew consumer name generation token behind delivered hmem
    obtain ⟨new', hnew', hnot⟩ := closed_path hinv hc hp
    rw [hnew] at hnew'
    rw [List.append_cancel_right hnew'] at hmem
    exact hnot _ hmem rfl
  · exact fun env reply messageTime => attachOrJoin_closed hc' reply messageTime
  · exact fun env reply => processMessage_release_closed hc' reply

namespace Sample

/-- After the release of the first lease: it is asked for again, its timer fires late, and a
database arrives. -/
def afterRelease : List (Env Nat × EngineMessage Nat) :=
  [(Sample.env, .attachOrJoin leaseA 3 0), (Sample.env, .leaseMaxTimeReached leaseA 1),
    (Sample.env, .databaseWorker (.creationFinished 3 (.ok "third")))]

end Sample

/-- A released lease of the small engine, and what comes for it later. -/
theorem release_is_final_small : ∃ s t : WorkerEngine Nat,
    (engine Nat Sample.settings).Reachable s ∧
      (engine Nat Sample.settings).Run s Sample.afterRelease t ∧
      t.inventory.ready = [⟨3, "third"⟩] ∧
      t.leaseRecords.lookup Sample.leaseA = some .closed ∧ Sample.leaseA ∉ t.leases ∧
      processMessage Sample.env (.releaseLease Sample.leaseA 4) t =
        .ok (t.send Sample.env Sample.leaseA (.releaseResult (.ok ())) 4) := by
  obtain ⟨s, hs, hr, hlater⟩ := Sample.reached
    [.attachOrJoin Sample.leaseA 0 0, .attachOrJoin Sample.leaseB 1 0,
      .releaseLease Sample.leaseA 2]
    (fun s => .reply Sample.leaseA 2 (.releaseResult (.ok ())) none true ∈ s.history ∧
      (Sample.afterRelease.foldlM Sample.next s).any (fun t =>
        decide (t.inventory.ready = [⟨3, "third"⟩])) = true) (by decide)
  obtain ⟨t, ht, hready⟩ := (Option.any_eq_true _ _).mp hlater
  have hrun := Machine.Run.of_foldlM (fun _ _ _ => Sample.next_step) ht
  obtain ⟨hclosed, hnowhere, _, _, hagain⟩ :=
    (release_is_final hs Sample.leaseA).2 _ _ _ hr Sample.afterRelease t hrun
  exact ⟨s, t, hs, hrun, of_decide_eq_true hready, hclosed, hnowhere.1, hagain Sample.env 4⟩

end PgTest.Engine
