import PgTest.Engine.Refinement

/-!
# Isolation, and what a lease keeps

Two consumers are handed the same database only if they joined the same
assignment of the same lease, and a database that was handed out is never ready
again.  While the assignment lasts, no message but its own release, its own
timer and `Shutdown` can end it.
-/

namespace PgTest.Engine

open PgTest.Lib WorkerEngine

variable {C : Type} {config : WorkerEngineConfig} {s t : WorkerEngine C}

/-- The database behind a delivered reply, from the history. -/
theorem behind_delivered (h : (engine C config).Reachable s) {lease : LeaseId} {consumer : C}
    {name : ReadString} {generation token : Nat} {behind : Option Nat}
    (hr : .reply lease consumer (.attached name generation token) behind true ∈ s.history) :
    ∃ d, behind = some d ∧ .created ⟨d, name⟩ ∈ s.history ∧ (lease, generation, d) ∈ s.handed := by
  obtain ⟨d, rfl, hc⟩ := (engine_inv h).1.kept.named _ _ _ _ _ _ _ hr
  obtain ⟨event, he, hlife⟩ := List.mem_filterMap.mp hc
  refine ⟨d, rfl, ?_, mem_handed hr rfl⟩
  cases event with
  | created database =>
    injection hlife with hlife
    injection hlife with hlife
    rw [← hlife]
    exact he
  | reply _ _ _ _ _ | assigned _ _ _ | scheduled _ _ _ _ _ | cancelled _ | returned _ _ _
  | requestedCreation _ _ | requestedCleanup _ _ | creationFailed _ | cleaned _ | expired _ _
  | detached _ _ | grew => cases hlife

/-- **Isolation.**  The databases behind two delivered `Attached` replies are the
same exactly when the replies carry the same lease and the same generation.  The
database behind a delivered reply is not ready, and nothing that happens after
the reply makes it ready. -/
theorem isolation (h : (engine C config).Reachable s) :
    (∀ lease consumer name generation token behind
        lease' consumer' name' generation' token' behind',
      .reply lease consumer (.attached name generation token) behind true ∈ s.history →
      .reply lease' consumer' (.attached name' generation' token') behind' true ∈ s.history →
        ∃ d d', behind = some d ∧ behind' = some d' ∧
          (d = d' ↔ lease = lease' ∧ generation = generation')) ∧
    (∀ lease consumer name generation token d,
      .reply lease consumer (.attached name generation token) (some d) true ∈ s.history →
        .created ⟨d, name⟩ ∈ s.history ∧ ∀ database ∈ s.inventory.ready, database.databaseId ≠ d) ∧
    s.history.Pairwise (fun later earlier => ∀ lease consumer name generation token d,
      earlier = .reply lease consumer (.attached name generation token) (some d) true →
        later.readies ≠ some d) := by
  have hinv := (engine_inv h).1
  refine ⟨?_, ?_, ?_⟩
  · intro lease consumer name generation token behind
      lease' consumer' name' generation' token' behind' h1 h2
    obtain ⟨d, hd, _, hd1⟩ := behind_delivered h h1
    obtain ⟨d', hd', _, hd2⟩ := behind_delivered h h2
    exact ⟨d, d', hd, hd', hinv.handed.unique _ _ _ _ _ _ hd1 hd2⟩
  · intro lease consumer name generation token d h1
    obtain ⟨d', hd, hcreated, hd1⟩ := behind_delivered h h1
    cases hd
    exact ⟨hcreated, hinv.handed.not_ready _ _ _ hd1⟩
  · refine hinv.ordered.imp ?_
    intro later earlier hrel lease consumer name generation token d he
    exact hrel lease generation d (by rw [he]; rfl)

/-- Two leases of the small engine. -/
theorem isolation_two_leases : ∃ s, (engine Nat Sample.settings).Reachable s ∧
    ∃ d d', some 1 = some d ∧ some 2 = some d' ∧
      (d = d' ↔ Sample.leaseA = Sample.leaseB ∧ 1 = 2) := by
  obtain ⟨s, hs, h1, h2⟩ := Sample.reached
    [.attachOrJoin Sample.leaseA 0 0, .attachOrJoin Sample.leaseB 1 0]
    (fun s =>
      .reply Sample.leaseA 0 (.attached "first" 1 1) (some 1) true ∈ s.history ∧
        .reply Sample.leaseB 1 (.attached "second" 2 2) (some 2) true ∈ s.history) (by decide)
  exact ⟨s, hs, (isolation hs).1 _ _ _ _ _ _ _ _ _ _ _ _ h1 h2⟩

/-! ### What a lease keeps -/

/-- The assignment of `entry` to `lease` lasts. -/
def WorkerEngine.Keeps (lease : LeaseId) (entry : LeaseEntry) (s : WorkerEngine C) : Prop :=
  ∃ entry', s.leases.lookup lease = some entry' ∧ entry'.database = entry.database ∧
    entry'.generation = entry.generation ∧ entry'.cancellation = entry.cancellation

/-- Only `retire` and `restore` of the lease at its generation end an assignment. -/
theorem Move.keeps {Q : LeaseId → C → Prop} {a : Act} (h : Move Q s a t) {lease : LeaseId}
    {entry : LeaseEntry} (hk : s.Keeps lease entry) (hret : a ≠ .retire lease entry.generation)
    (hres : a ≠ .restore lease entry.generation) : t.Keeps lease entry := by
  obtain ⟨e, hl, hd, hg, hc⟩ := hk
  have update : ∀ (other : LeaseId) (e₀ : LeaseEntry) (conns : Nat),
      s.leases.lookup other = some e₀ → ∃ e', (s.leases.insert other
        { e₀ with conns := conns }).lookup lease = some e' ∧ e'.database = entry.database ∧
          e'.generation = entry.generation ∧ e'.cancellation = entry.cancellation := by
    intro other e₀ conns ho
    by_cases he : lease = other
    · subst he
      rw [hl] at ho
      cases ho
      exact ⟨_, Finmap.lookup_insert _, hd, hg, hc⟩
    · exact ⟨e, lookup_insert_eq_some.mpr (Or.inr ⟨he, hl⟩), hd, hg, hc⟩
  have erase : ∀ (other : LeaseId) (e₀ : LeaseEntry), s.leases.lookup other = some e₀ →
      (lease = other → e₀.generation ≠ entry.generation) → ∃ e',
        (s.leases.erase other).lookup lease = some e' ∧ e'.database = entry.database ∧
          e'.generation = entry.generation ∧ e'.cancellation = entry.cancellation := by
    intro other e₀ ho hne
    have he : lease ≠ other := by
      rintro rfl
      rw [hl] at ho
      cases ho
      exact hne rfl hg
    exact ⟨e, lookup_erase_eq_some.mpr ⟨he, hl⟩, hd, hg, hc⟩
  cases h with
  | count _ _ | note _ | enroll _ _ | close _ _ _ | enqueue _ _ _ _ _ | dequeue _ | detachIdle _ _
  | reserve _ _ _ _ | burn _ _ _ _ _ | settle _ _ | clean _ | shutdown =>
    exact ⟨e, hl, hd, hg, hc⟩
  | @assign other _ _ _ _ hnot _ _ _ _ =>
    have he : lease ≠ other := fun he => hnot (he ▸ mem_of_lookup hl)
    exact ⟨e, lookup_insert_eq_some.mpr (Or.inr ⟨he, hl⟩), hd, hg, hc⟩
  | attach ho _ _ => exact update _ _ _ ho
  | detach ho _ => exact update _ _ _ ho
  | restore ho _ _ =>
    refine erase _ _ ho fun he hgen => hres ?_
    rw [he, hgen]
  | retire _ ho =>
    refine erase _ _ ho fun he hgen => hret ?_
    rw [he, hgen]

/-- If the event is an `Attached` reply for `lease`, it names the assignment `entry`. -/
def Event.Names (lease : LeaseId) (entry : LeaseEntry) : Event C → Prop
  | .reply other _ (.attached name generation _) _ _ =>
      other = lease → name = entry.database.databaseName ∧ generation = entry.generation
  | _ => True

theorem names_of_honest {event : Event C} (h : s.Honest event) {lease : LeaseId}
    {entry e : LeaseEntry} (hl : s.leases.lookup lease = some e)
    (hd : e.database = entry.database) (hg : e.generation = entry.generation) :
    event.Names lease entry := by
  cases event with
  | reply other consumer message behind delivered =>
    cases message with
    | attached name generation token =>
      obtain ⟨e', hl', rfl, rfl, _⟩ := h
      rintro rfl
      rw [hl] at hl'
      cases hl'
      exact ⟨by rw [hd], hg⟩
    | failedToAttach | attachRejected _ | releaseResult _ => trivial
  | assigned _ _ _ | scheduled _ _ _ _ _ | cancelled _ | returned _ _ _ | requestedCreation _ _
  | requestedCleanup _ _ | created _ | creationFailed _ | cleaned _ | expired _ _ | detached _ _
  | grew => trivial

/-- **A lease keeps its database until its own end.**  A message other than the
release of the lease, the timer of its generation and `Shutdown` leaves the
lease with its database, generation and live token, and every `Attached` reply
it sends for the lease names them. -/
theorem lease_keeps_database (h : (engine C config).Reachable s) {lease : LeaseId}
    {entry : LeaseEntry} (hl : s.leases.lookup lease = some entry) {env : Env C}
    {message : EngineMessage C} (hrel : ∀ reply, message ≠ .releaseLease lease reply)
    (hmax : message ≠ .leaseMaxTimeReached lease entry.generation) (hdown : message ≠ .shutdown)
    (hs : (engine C config).step s (env, message) t) :
    (∃ conns, t.leases.lookup lease = some { entry with conns := conns }) ∧
      t.isCancelled entry.cancellation = false ∧
      ∀ new, t.history = new ++ s.history → ∀ consumer name generation token behind delivered,
        .reply lease consumer (.attached name generation token) behind delivered ∈ new →
          name = entry.database.databaseName ∧ generation = entry.generation := by
  have hrun := hs.1
  have hok : processMessage env message s = .ok t := hs.2
  have hinv := (engine_inv h).1
  have hp := engine_step h hok
  have hgen := hinv.entries.generation_le lease entry hl
  have hstep : ∀ (s₁ : WorkerEngine C) a (t₁ : WorkerEngine C),
      a.Handling message s.nextGeneration → Inv Anyone s₁ →
      s₁.Keeps lease entry → Move Anyone s₁ a t₁ → t₁.Keeps lease entry := by
    intro s₁ a t₁ ha _ hk hm
    refine hm.keeps hk ?_ ?_
    · rintro rfl
      rcases ha with ⟨reply, ha⟩ | ha
      · exact hrel reply ha
      · exact hmax ha
    · rintro rfl
      exact absurd hgen (Nat.not_le_of_lt ha)
  have hkeep : t.Keeps lease entry := hp.invariant hstep hinv ⟨entry, hl, rfl, rfl, rfl⟩
  obtain ⟨entry', hl', hd, hg, hc⟩ := hkeep
  refine ⟨⟨entry'.conns, ?_⟩, ?_, ?_⟩
  · rw [hl', ← hd, ← hg, ← hc]
  · have hlive := (hp.inv hinv).entries.token_live lease entry' hl'
    rw [hc] at hlive
    rw [isCancelled, engine_running h hdown hok, hrun, decide_eq_false hlive]
    rfl
  · have hnews := hp.invariant (I := fun t => t.Keeps lease entry ∧
        ∃ new, t.history = new ++ s.history ∧ ∀ event ∈ new, event.Names lease entry)
      (fun s₁ a t₁ ha hinv₁ hI hm => ⟨hstep s₁ a t₁ ha hinv₁ hI.1 hm, ?_⟩) hinv
      ⟨⟨entry, hl, rfl, rfl, rfl⟩, [], rfl, fun _ he => absurd he List.not_mem_nil⟩
    · obtain ⟨new, hnew, hnames⟩ := hnews.2
      intro new' hnew' consumer name generation token behind delivered hr
      rw [hnew] at hnew'
      rw [← List.append_cancel_right hnew'] at hr
      exact hnames _ hr rfl
    · obtain ⟨⟨e, he, hd₁, hg₁, _⟩, new, hnew, hnames⟩ := hI
      obtain ⟨more, _, hon, hmore⟩ := hm.news
      refine ⟨more ++ new, by rw [hmore, hnew, List.append_assoc], fun event hev => ?_⟩
      rcases List.mem_append.mp hev with hev | hev
      · exact names_of_honest (hon event hev) he hd₁ hg₁
      · exact hnames event hev

/-- The last disconnect of the small engine's first lease. -/
theorem lease_keeps_database_detach : ∃ s t : WorkerEngine Nat,
    (engine Nat Sample.settings).Reachable s ∧
    (∃ conns, t.leases.lookup Sample.leaseA = some ⟨⟨1, "first"⟩, conns, 1, 1⟩) ∧
      t.isCancelled 1 = false ∧
      ∀ new, t.history = new ++ s.history → ∀ consumer name generation token behind delivered,
        .reply Sample.leaseA consumer (.attached name generation token) behind delivered ∈ new →
          name = "first" ∧ generation = 1 := by
  obtain ⟨s, hs, hl, hrun⟩ := Sample.reached [.attachOrJoin Sample.leaseA 0 0]
    (fun s => s.leases.lookup Sample.leaseA = some ⟨⟨1, "first"⟩, 1, 1, 1⟩ ∧
      s.rootCancelled = false) (by decide)
  have hstep : (engine Nat Sample.settings).step s (Sample.env, .detach Sample.leaseA 1)
      (s.detach Sample.leaseA 1) := ⟨hrun, rfl⟩
  exact ⟨s, _, hs, lease_keeps_database hs hl (by intro reply h; cases h) (by intro h; cases h)
    (by intro h; cases h) hstep⟩

end PgTest.Engine
