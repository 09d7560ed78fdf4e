import PgTest.Engine.Refinement

/-!
# Who waits, and what for

Between two messages the queue is sound and nobody waits while a database is
ready, so an attachment that finds one overtakes nobody.  While the clock does
not go back and every request for creations is accepted, the pending creations
cover the leases that wait for one.
-/

namespace PgTest.Engine

open PgTest.Lib WorkerEngine

variable {C : Type} {config : WorkerEngineConfig} {s t : WorkerEngine C} {env : Env C}

/-! ### The queue between messages -/

theorem not_assigned_of_quiet {event : Event C} (h : s.Quiet event) {lease : LeaseId}
    {generation : Nat} {database : Database} : event ≠ .assigned lease generation database := by
  rintro rfl
  exact h

/-- With nothing ready, an attachment assigns nothing. -/
theorem attachOpen_unready {lease : LeaseId} {reply : C} {messageTime : Nat}
    (hready : s.inventory.ready = []) (hok : attachOpen env lease reply messageTime s = .ok t) :
    ∃ more, t.history = more ++ s.history ∧
      ∀ other generation database, .assigned other generation database ∉ more := by
  cases hl : s.leases.lookup lease with
  | some entry =>
    rw [attachOpen, hl] at hok
    rcases replyAttached_cases hl hok with ⟨event, hq, _, rfl⟩ | ⟨_, rfl⟩
    · exact ⟨[event], rfl, fun _ _ _ hm =>
        not_assigned_of_quiet hq (List.mem_singleton.mp hm).symm⟩
    · refine ⟨[_], rfl, fun _ _ _ hm => ?_⟩
      cases List.mem_singleton.mp hm
  | none =>
    rw [attachOpen, hl, DatabaseInventory.takeReady, hready] at hok
    rcases grow_cases hok with ⟨rfl, _⟩ | ⟨_, _, _, ⟨_, rfl⟩ | ⟨_, rfl⟩⟩
    · refine ⟨[.grew], rfl, fun _ _ _ hm => ?_⟩
      cases List.mem_singleton.mp hm
    · refine ⟨[_, .grew], rfl, fun _ _ _ hm => ?_⟩
      rcases List.mem_pair.mp hm with hm | hm
      · cases hm
      · cases hm
    · refine ⟨[_, .grew], rfl, fun _ _ _ hm => ?_⟩
      rcases List.mem_pair.mp hm with hm | hm
      · cases hm
      · cases hm

theorem attachOrJoin_unready {lease : LeaseId} {reply : C} {messageTime : Nat}
    (hready : s.inventory.ready = []) (hok : attachOrJoin env lease reply messageTime s = .ok t) :
    ∃ more, t.history = more ++ s.history ∧
      ∀ other generation database, .assigned other generation database ∉ more := by
  cases ha : s.admitLease lease with
  | mk outcome s₀ =>
    have hkeep := admitLease_keeps ha
    have hsend : ∀ error, ∃ more,
        (s₀.send env lease (.attachRejected error) reply).history = more ++ s.history ∧
          ∀ other generation database, .assigned other generation database ∉ more := by
      intro error
      refine ⟨[_], by rw [hkeep]; rfl, fun _ _ _ hm => ?_⟩
      cases List.mem_singleton.mp hm
    rw [attachOrJoin, ha] at hok
    cases outcome with
    | error error =>
      cases error with
      | invalidLeaseId =>
        cases hok
        exact hsend _
      | leaseRecordLimitReached | engineUnavailable | replyTimedOut | unexpectedReply =>
        cases hok
        exact hsend _
    | ok status =>
      cases status with
      | closed =>
        cases hok
        exact hsend _
      | opened =>
        have hready₀ : s₀.inventory.ready = [] := by
          rw [hkeep]
          exact hready
        obtain ⟨more, hmore, hnot⟩ := attachOpen_unready hready₀ hok
        refine ⟨more, ?_, hnot⟩
        rw [hmore, hkeep]

/-- **Queue integrity and no idle supply.**  The two forms of the queue agree, no
group is empty, a waiting lease is open and has no database, and nobody waits
while something is ready.  So an attachment that assigns a ready database finds
nobody waiting. -/
theorem queue_integrity (h : (engine C config).Reachable s) :
    s.waiters.Nodup ∧
    (∀ lease, lease ∈ s.waiters ↔ lease ∈ s.groupWaiters) ∧
    (∀ lease replies, s.groupWaiters.lookup lease = some replies → replies ≠ []) ∧
    (∀ lease ∈ s.waiters, s.leaseRecords.lookup lease = some .opened ∧ lease ∉ s.leases) ∧
    (s.inventory.ready = [] ∨ s.waiters = []) ∧
    (∀ env lease reply messageTime t new,
      processMessage env (.attachOrJoin lease reply messageTime) s = .ok t →
      t.history = new ++ s.history →
      ∀ other generation database, .assigned other generation database ∈ new →
        s.waiters = []) := by
  obtain ⟨hinv, hidle⟩ := engine_inv h
  refine ⟨hinv.queue.nodup, hinv.queue.keys, hinv.queue.nonempty, ?_, hidle, ?_⟩
  · intro lease hw
    have hg := (hinv.queue.keys lease).mp hw
    exact ⟨hinv.queue.waiting_open lease hg, hinv.queue.waiting_free lease hg⟩
  · intro env lease reply messageTime t new hok hnew other generation database hm
    rcases hidle with hready | hw
    · obtain ⟨more, hmore, hnot⟩ := attachOrJoin_unready hready hok
      rw [hnew] at hmore
      rw [List.append_cancel_right hmore] at hm
      exact absurd hm (hnot _ _ _)
    · exact hw

/-- A lease of the small engine that waits for a third database. -/
theorem queue_integrity_waiting : ∃ s : WorkerEngine Nat,
    (engine Nat Sample.settings).Reachable s ∧
      Sample.leaseC ∈ s.groupWaiters ∧ (s.inventory.ready = [] ∨ s.waiters = []) := by
  obtain ⟨s, hs, hw⟩ := Sample.reached
    [.attachOrJoin Sample.leaseA 0 0, .attachOrJoin Sample.leaseB 1 0,
      .attachOrJoin Sample.leaseC 2 0]
    (fun s => Sample.leaseC ∈ s.waiters) (by decide)
  obtain ⟨_, hkeys, _, _, hidle, _⟩ := queue_integrity hs
  exact ⟨s, hs, (hkeys _).mp hw, hidle⟩

/-! ### Supply -/

/-- The engine with a clock that does not go back and a worker that accepts every
request.  The second component is the time of the last message boundary; what is
read while a message is handled lies between two boundaries. -/
def clocked (C : Type) (config : WorkerEngineConfig) :
    Machine (WorkerEngine C × Nat) (Env C × EngineMessage C) where
  init s := (engine C config).init s.1
  step s i t := (engine C config).step s.1 i t.1 ∧ s.2 ≤ t.2 ∧
    (∀ consumer, s.2 ≤ i.1.now consumer ∧ i.1.now consumer ≤ t.2) ∧
    ∀ request, i.1.requestCreation request = true

/-- A run in which every reading is `now` and every request is accepted. -/
theorem clocked_run {is : List (Env C × EngineMessage C)} (h : (engine C config).Run s is t)
    {now : Nat} (his : ∀ i ∈ is, (∀ consumer, i.1.now consumer = now) ∧
      ∀ request, i.1.requestCreation request = true) :
    (clocked C config).Run (s, now) is (t, now) := by
  induction h with
  | nil s => exact .nil _
  | @cons s t u i is hs _ ih =>
    obtain ⟨hnow, hall⟩ := his i List.mem_cons_self
    have hstep : (clocked C config).step (s, now) i (t, now) :=
      ⟨hs, le_refl _, fun consumer => ⟨(hnow consumer).ge, (hnow consumer).le⟩, hall⟩
    exact .cons hstep (ih fun i hi => his i (List.mem_cons_of_mem _ hi))

/-- The leases that wait with a live request at the instant `now`. -/
def WorkerEngine.liveWaiters (s : WorkerEngine C) (now : Nat) : Nat :=
  (s.waiting fun _ => now).card

/-- The supply at a boundary: covered from now on once `grow` ran, and nobody
waits before. -/
structure Supplied (config : WorkerEngineConfig) (s : WorkerEngine C × Nat) : Prop where
  sameConfig : s.1.config = config
  covered : .grew ∈ s.1.history → ∀ now, s.2 ≤ now →
    s.1.liveWaiters now + config.starvationThreshold + 1 ≤ s.1.inventory.supplyLen
  waits : ∀ lease ∈ s.1.groupWaiters, .grew ∈ s.1.history

theorem clocked_reachable {s : WorkerEngine C × Nat} (h : (clocked C config).Reachable s) :
    (engine C config).Reachable s.1 := by
  refine h.invariant (I := fun s => (engine C config).Reachable s.1) ?_ ?_
  · intro s hs
    exact Machine.Reachable.of_init (M := engine C config) hs
  · intro s i t _ hs hstep
    exact hs.step hstep.1

/-- Nobody waits after `try_init`, and it does not grow. -/
theorem tryInit_waits {reports : List (Nat × Except PostgresDDLClientError ReadString)}
    {result : Except PostgresDDLClientError Unit}
    (hok : (WorkerEngine.new config).tryInit reports = .ok (result, s)) :
    s.config = config ∧ s.groupWaiters = ∅ ∧ .grew ∉ s.history := by
  refine (tryInit_path (Q := Anyone) hok).1.invariant
    (I := fun s => s.config = config ∧ s.groupWaiters = ∅ ∧ .grew ∉ s.history) ?_ (.new config)
    ⟨rfl, rfl, List.not_mem_nil⟩
  intro s a t ha _ hI hm
  obtain ⟨h1, h2, h3⟩ := hI
  cases hm with
  | reserve _ _ _ hev =>
    refine ⟨h1, h2, ?_⟩
    rcases hev with rfl | rfl
    · exact h3
    · exact List.not_mem_cons_of_ne_of_not_mem nofun h3
  | burn _ _ _ _ _ => exact ⟨h1, h2, List.not_mem_cons_of_ne_of_not_mem nofun h3⟩
  | settle result _ =>
    refine ⟨h1, h2, List.not_mem_cons_of_ne_of_not_mem ?_ h3⟩
    cases result <;> exact nofun
  | count _ _ | note _ | enroll _ _ | close _ _ _ | enqueue _ _ _ _ _ | dequeue _
  | assign _ _ _ _ _ _ | attach _ _ _ | restore _ _ _ | detach _ _ | detachIdle _ _ | retire _ _
  | clean _ | shutdown => exact ha.elim

theorem clocked_supplied (hb : config.growBatchSize ≠ 0) {s : WorkerEngine C × Nat}
    (h : (clocked C config).Reachable s) : Supplied config s := by
  refine h.invariant (fun s hs => ?_) fun s i t hr hs hstep => ?_
  · obtain ⟨reports, hok⟩ := hs
    obtain ⟨h1, h2, h3⟩ := tryInit_waits hok
    refine ⟨h1, fun hg => absurd hg h3, fun lease hg => ?_⟩
    rw [h2] at hg
    exact absurd hg Finmap.notMem_empty
  · obtain ⟨hstep, htime, hnow, hall⟩ := hstep
    have hh := engine_handles (clocked_reachable hr) hstep.2
    have hinv := (engine_inv (clocked_reachable hr)).1
    have hconfig : t.1.config = config := (hh.path.config hinv).trans hs.sameConfig
    rcases hh.supplied with hu | ⟨hcov, hgrew⟩
    · refine ⟨hconfig, fun hg now hle => ?_, fun lease hg => ?_⟩
      · have hcov := hs.covered (hu.grew.mp hg) now (le_trans htime hle)
        have hless := Finset.card_le_card (hu.waiting fun _ => now)
        rw [hu.supply, liveWaiters]
        rw [liveWaiters] at hcov
        omega
      · obtain ⟨replies, hg⟩ := Finmap.mem_iff.mp hg
        exact hu.grew.mpr (hs.waits lease (mem_of_lookup (hu.groups _ _ hg)))
    · refine ⟨hconfig, fun _ now hle => ?_, fun _ _ => hgrew⟩
      have hcov := hcov (hconfig ▸ hb) hall
      have hless := Finset.card_le_card (@waiting_antitone C t.1 i.1.now (fun _ => now)
        fun c => le_trans (hnow c).2 hle)
      rw [hconfig] at hcov
      rw [liveWaiters]
      omega

/-- **Supply always covers live demand.**  From the first message that grows the
supply on, at every later message boundary and at every instant from there, the
ready databases and the pending creations cover the live waiting leases, the
threshold and one more.  A pending creation is outstanding for every live
waiting lease. -/
theorem supply_covers_demand (hb : config.growBatchSize ≠ 0) {s : WorkerEngine C × Nat}
    (h : (clocked C config).Reachable s) {now : Nat} (hnow : s.2 ≤ now) :
    (.grew ∈ s.1.history → s.1.liveWaiters now + config.starvationThreshold + 1 ≤
      s.1.inventory.ready.length + s.1.inventory.creating.card) ∧
    s.1.liveWaiters now ≤ s.1.inventory.creating.card := by
  have hs := clocked_supplied hb h
  obtain ⟨hinv, hidle⟩ := engine_inv (clocked_reachable h)
  refine ⟨fun hg => hs.covered hg now hnow, ?_⟩
  by_cases hz : s.1.liveWaiters now = 0
  · omega
  · obtain ⟨lease, hm⟩ := Finset.card_ne_zero.mp hz
    obtain ⟨replies, hg, _⟩ := mem_waiting.mp hm
    have hgroup : lease ∈ s.1.groupWaiters := mem_of_lookup hg
    have hcov := hs.covered (hs.waits lease hgroup) now hnow
    have hready : s.1.inventory.ready = [] := by
      rcases hidle with hr | hw
      · exact hr
      · have hmem := (hinv.queue.keys lease).mpr hgroup
        rw [hw] at hmem
        exact absurd hmem List.not_mem_nil
    rw [DatabaseInventory.supplyLen, hready, List.length_nil] at hcov
    omega

/-- A lease of the small engine that waits, with a creation under way. -/
theorem supply_covers_demand_waiting : ∃ s : WorkerEngine Nat,
    (clocked Nat Sample.settings).Reachable (s, 0) ∧ s.liveWaiters 0 = 1 ∧
      s.liveWaiters 0 ≤ s.inventory.creating.card := by
  obtain ⟨s₀, is, s, hinit, his, hr, hw⟩ := Sample.run
    [.attachOrJoin Sample.leaseA 0 0, .attachOrJoin Sample.leaseB 1 0,
      .attachOrJoin Sample.leaseC 2 0]
    (fun s => s.liveWaiters 0 = 1) (by decide)
  have hclock : ∀ i ∈ is, (∀ consumer, i.1.now consumer = 0) ∧
      ∀ request, i.1.requestCreation request = true := by
    intro i hi
    rw [his i hi]
    exact ⟨fun _ => rfl, fun _ => rfl⟩
  have hs : (clocked Nat Sample.settings).Reachable (s, 0) :=
    ⟨(s₀, 0), is, hinit, clocked_run hr hclock⟩
  exact ⟨s, hs, hw, (supply_covers_demand (by decide) hs (le_refl _)).2⟩

end PgTest.Engine
