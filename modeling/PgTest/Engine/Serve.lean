import PgTest.Engine.Invariant

/-!
# Growth, assignment and dispatch as changes of the ledger

Each function of the engine that serves a request is shown to be a path of the
ledger.  `grow_cases` and `replyAttached_cases` say once what growing and
replying do.  `Fresh` is the invariant of the inner loop of `dispatch_waiters`: the entry
of the lease being served is new, and while it has no connection nobody was told
of it, so its database may be put back.
-/

namespace PgTest.Engine

open PgTest.Lib

variable {C : Type} {Q : LeaseId → C → Prop}

/-- The changes of `grow`. -/
def Act.Growing : Act → Prop
  | .note | .reserve => True
  | _ => False

/-- The changes of one turn of `dispatch_waiters`, or of a direct attachment. -/
def Act.Serving (lease : LeaseId) (base : Nat) : Act → Prop
  | .note => True
  | .assign other _ | .attach other _ => other = lease
  | .restore other generation => other = lease ∧ base < generation
  | _ => False

namespace WorkerEngine

/-! ### Growth -/

theorem le_roundUp (deficit : Nat) {batchSize : Nat} (h : batchSize ≠ 0) :
    deficit ≤ roundUp deficit batchSize := by
  have h1 := Nat.div_add_mod (deficit + batchSize - 1) batchSize
  have h2 := Nat.mod_lt (deficit + batchSize - 1) (Nat.pos_of_ne_zero h)
  rw [Nat.mul_comm] at h1
  rw [roundUp]
  omega

/-- Undoing a reservation takes its identifiers out of `creating`. -/
theorem cancelCreations_eq {request : CreateDatabases}
    (hmax : request.firstDatabaseId + request.amount ≤ u64Max + 1)
    (inventory : DatabaseInventory) :
    cancelCreations request inventory =
      .ok { inventory with creating := inventory.creating \ request.ids } := by
  have key : ∀ l : List Nat, (∀ index ∈ l, index < request.amount) →
      ∀ inventory : DatabaseInventory,
      l.foldlM (fun inventory index => do
        let databaseId ← request.databaseIdAt index
        return (inventory.cancelCreation databaseId).2) inventory =
      (.ok { inventory with creating := inventory.creating \
        (l.map (request.firstDatabaseId + ·)).toFinset } : Except Panic DatabaseInventory) := by
    intro l
    induction l with
    | nil =>
      intro _ inventory
      rw [List.foldlM_nil, List.map_nil, List.toFinset_nil, Finset.sdiff_empty]
      rfl
    | cons index l ih =>
      intro hl inventory
      have hi := hl index List.mem_cons_self
      rw [List.foldlM_cons, DatabaseInventory.databaseIdAt_ok hi (by omega)]
      refine (ih (fun i h => hl i (List.mem_cons_of_mem _ h)) _).trans ?_
      rw [List.map_cons, List.toFinset_cons, Finset.sdiff_insert, ← Finset.erase_sdiff_comm]
      rfl
  rw [cancelCreations, key _ (fun i hi => List.mem_range.mp hi) inventory,
    DatabaseInventory.toFinset_range_map, CreateDatabases.ids]

/-- The creations that `grow` finds missing. -/
def deficit (s : WorkerEngine C) (now : C → Nat) : Nat :=
  (s.waiting now).card + s.config.starvationThreshold + 1 - s.inventory.supplyLen

/-- The batch that `grow` asks for. -/
def growth (s : WorkerEngine C) (now : C → Nat) : CreateDatabases :=
  ⟨s.inventory.nextDatabaseId + 1, roundUp (s.deficit now) s.config.growBatchSize⟩

theorem grow_eq (env : Env C) (s : WorkerEngine C) :
    grow env s =
      if s.config.growBatchSize = 0 then .ok (s.log .grew)
      else if s.deficit env.now = 0 then .ok (s.log .grew)
      else
        match s.inventory.reserveCreations (s.growth env.now).amount with
        | (.error panic, _) => .error panic
        | (.ok none, _) => .error .growthCountZero
        | (.ok (some request), inventory) =>
          if env.requestCreation request then
            .ok ({ s.log .grew with inventory := inventory }.log (.requestedCreation request true))
          else do
            let inventory ← cancelCreations request inventory
            return { s.log .grew with
              inventory := inventory
              counters := { s.counters with
                unableToStartDatabaseSlots :=
                  s.counters.unableToStartDatabaseSlots + (s.growth env.now).amount } }.log
              (.requestedCreation request false) := rfl

/-- The engine after `grow` has reserved what it asks for; `kept` are the
identifiers that stay reserved. -/
def grown (env : Env C) (s : WorkerEngine C) (creating : Finset Nat) (counters : EngineCounters)
    (accepted : Bool) : WorkerEngine C :=
  { s with
    inventory := { s.inventory with
      creating := creating
      nextDatabaseId := s.inventory.nextDatabaseId + (s.growth env.now).amount }
    counters := counters
    history := .requestedCreation (s.growth env.now) accepted :: .grew :: s.history }

/-- **What `grow` does**: nothing, or it reserves what is missing and asks for it. -/
theorem grow_cases {env : Env C} {s t : WorkerEngine C} (hok : grow env s = .ok t) :
    t = s.log .grew ∧ (s.config.growBatchSize = 0 ∨ s.deficit env.now = 0) ∨
    (s.growth env.now).amount ≠ 0 ∧
      s.inventory.nextDatabaseId + (s.growth env.now).amount ≤ u64Max ∧
      s.deficit env.now ≤ (s.growth env.now).amount ∧
      (env.requestCreation (s.growth env.now) = true ∧
          t = s.grown env (s.inventory.creating ∪ (s.growth env.now).ids) s.counters true ∨
        env.requestCreation (s.growth env.now) = false ∧
          t = s.grown env ((s.inventory.creating ∪ (s.growth env.now).ids) \
            (s.growth env.now).ids) { s.counters with
              unableToStartDatabaseSlots :=
                s.counters.unableToStartDatabaseSlots + (s.growth env.now).amount } false) := by
  rw [grow_eq] at hok
  by_cases hb : s.config.growBatchSize = 0
  · rw [if_pos hb] at hok
    exact Or.inl ⟨(Except.ok.inj hok).symm, Or.inl hb⟩
  by_cases hd : s.deficit env.now = 0
  · rw [if_neg hb, if_pos hd] at hok
    exact Or.inl ⟨(Except.ok.inj hok).symm, Or.inr hd⟩
  have hle : s.deficit env.now ≤ (s.growth env.now).amount := le_roundUp _ hb
  have hc : (s.growth env.now).amount ≠ 0 := by omega
  rw [if_neg hb, if_neg hd, DatabaseInventory.reserveCreations_eq s.inventory hc] at hok
  by_cases hmax : s.inventory.nextDatabaseId + (s.growth env.now).amount ≤ u64Max
  · rw [if_pos hmax] at hok
    refine Or.inr ⟨hc, hmax, hle, ?_⟩
    cases hreq : env.requestCreation (s.growth env.now) with
    | true =>
      replace hok := (if_pos hreq).symm.trans hok
      exact Or.inl ⟨rfl, (Except.ok.inj hok).symm⟩
    | false =>
      replace hok := (if_neg (ne_true_of_eq_false hreq)).symm.trans hok
      have hcancel := @cancelCreations_eq (s.growth env.now)
        (show s.inventory.nextDatabaseId + 1 + (s.growth env.now).amount ≤ u64Max + 1 by omega)
      obtain ⟨inventory, h1, h2⟩ := bind_ok hok
      cases (hcancel _).symm.trans h1
      exact Or.inr ⟨rfl, (Except.ok.inj h2).symm⟩
  · rw [if_neg hmax] at hok
    cases hok

theorem grow_path {env : Env C} {s t : WorkerEngine C} (h : Inv Q s) (hok : grow env s = .ok t) :
    Path Q Act.Growing s t := by
  have hgrew : Path Q Act.Growing s (s.log .grew) := .single (.note trivial) trivial
  rcases grow_cases hok with ⟨rfl, _⟩ | ⟨hc, hmax, _, ⟨_, rfl⟩ | ⟨_, rfl⟩⟩
  · exact hgrew
  · have hm := @Move.reserve C Q (s.log .grew) (s.growth env.now) _ rfl hc hmax (Or.inr rfl)
    exact hgrew.snoc hm trivial
  · have hsub : (s.inventory.creating ∪ (s.growth env.now).ids) \ (s.growth env.now).ids =
        s.inventory.creating := by
      rw [Finset.union_sdiff_right]
      exact Finset.sdiff_eq_self_of_disjoint (h.books.disjoint_ids rfl)
    have hm := @Move.burn C Q (s.log .grew) (s.growth env.now) { s.counters with
      unableToStartDatabaseSlots := s.counters.unableToStartDatabaseSlots +
        (s.growth env.now).amount } rfl rfl hc hmax
    rw [hsub]
    exact hgrew.snoc hm trivial

/-! ### One reply -/

/-- A reply that the consumer did not take changes nothing else. -/
theorem replyAttached_cases {env : Env C} {lease : LeaseId} {entry : LeaseEntry} {reply : C}
    {s t : WorkerEngine C} (hl : s.leases.lookup lease = some entry)
    (hok : replyAttached env lease entry.database.databaseName reply s = .ok t) :
    (∃ event, s.Quiet event ∧ event ≠ .grew ∧ t = s.log event) ∨
    (entry.conns + 1 ≤ u16Max ∧ t = { s with
      leases := s.leases.insert lease { entry with conns := entry.conns + 1 }
      history := .reply lease reply
        (.attached entry.database.databaseName entry.generation entry.cancellation)
        (some entry.database.databaseId) true :: s.history }) := by
  rw [replyAttached, hl] at hok
  by_cases hmax : u16Max < entry.conns + 1
  · replace hok := (if_pos hmax).symm.trans hok
    exact Or.inl ⟨.reply lease reply .failedToAttach none _, trivial, nofun,
      (Except.ok.inj hok).symm⟩
  replace hok := (if_neg hmax).symm.trans hok
  by_cases hr : env.reply reply
      (.attached entry.database.databaseName entry.generation entry.cancellation) = true
  · replace hok := (if_pos hr).symm.trans hok
    exact Or.inr ⟨Nat.le_of_not_lt hmax, (Except.ok.inj hok).symm⟩
  · replace hok := (if_neg hr).symm.trans hok
    replace hok := (if_neg (Nat.succ_ne_zero entry.conns)).symm.trans hok
    have hback : (s.leases.insert lease { entry with conns := entry.conns + 1 }).insert lease
        { entry with conns := entry.conns + 1 - 1 } = s.leases := by
      rw [Finmap.insert_insert]
      exact insert_of_lookup hl
    refine Or.inl ⟨.reply lease reply
      (.attached entry.database.databaseName entry.generation entry.cancellation)
      (some entry.database.databaseId) false, ⟨rfl, entry, hl, rfl, rfl, rfl, rfl⟩, nofun, ?_⟩
    rw [← Except.ok.inj hok]
    simp only [log, hback]

theorem restoreUnclaimedDatabase_cases {lease : LeaseId} {restored : Bool}
    {s t : WorkerEngine C} (hok : restoreUnclaimedDatabase lease s = .ok (restored, t)) :
    restored = false ∧ t = s ∨
    restored = true ∧ ∃ entry, s.leases.lookup lease = some entry ∧ entry.conns = 0 ∧
      t = { s with
        leases := s.leases.erase lease
        cancelledTokens := insert entry.cancellation s.cancelledTokens
        inventory := { s.inventory with ready := entry.database :: s.inventory.ready }
        history := .returned lease entry.generation entry.database ::
          .cancelled entry.cancellation :: s.history } := by
  rw [restoreUnclaimedDatabase] at hok
  cases hl : s.leases.lookup lease with
  | none =>
    rw [hl] at hok
    cases hok
    exact Or.inl ⟨rfl, rfl⟩
  | some entry =>
    rw [hl] at hok
    by_cases hc : entry.conns = 0
    · replace hok := (if_pos hc).symm.trans hok
      obtain ⟨inventory, h1, h2⟩ := bind_ok hok
      rw [DatabaseInventory.returnReady] at h1
      split at h1
      · cases h1
      · cases h1
        cases h2
        exact Or.inr ⟨rfl, entry, rfl, hc, rfl⟩
    · replace hok := (if_neg hc).symm.trans hok
      cases hok
      exact Or.inl ⟨rfl, rfl⟩

theorem assignDatabase_cases {env : Env C} {lease : LeaseId} {database : Database}
    {rest : List Database} {name : ReadString} {s t : WorkerEngine C}
    (hok : assignDatabase env lease database
      { s with inventory := { s.inventory with ready := rest } } = .ok (name, t)) :
    lease ∉ s.leases ∧ s.nextGeneration + 1 ≤ u64Max ∧ name = database.databaseName ∧
      ∃ scheduling, s.Scheduling lease scheduling ∧
        t = s.assignment lease database rest scheduling := by
  rw [assignDatabase] at hok
  by_cases hl : lease ∈ s.leases
  · cases (if_pos hl).symm.trans hok
  replace hok := (if_neg hl).symm.trans hok
  by_cases hmax : u64Max < s.nextGeneration + 1
  · cases (if_pos hmax).symm.trans hok
  replace hok := (if_neg hmax).symm.trans hok
  refine ⟨hl, Nat.le_of_not_lt hmax, ?_⟩
  by_cases ht : 0 < s.config.leaseClaimTimeoutMs
  · replace hok := (if_pos ht).symm.trans hok
    cases hok
    refine ⟨rfl, [.scheduled lease (s.nextGeneration + 1) (s.config.leaseClaimTimeoutMs % 2 ^ 32)
      (s.issuedTokens + 1) _], ?_, rfl⟩
    rw [Scheduling, if_pos ht]
    exact ⟨_, rfl⟩
  · replace hok := (if_neg ht).symm.trans hok
    cases hok
    refine ⟨rfl, [], ?_, rfl⟩
    rw [Scheduling, if_neg ht]

/-! ### The entry being served -/

/-- The entry of `lease`, if any, is newer than `base`, and nobody was told of it
while it has no connection. -/
def Fresh (lease : LeaseId) (base : Nat) (s : WorkerEngine C) : Prop :=
  ∀ entry, s.leases.lookup lease = some entry →
    base < entry.generation ∧ (entry.conns = 0 → s.Undelivered lease entry.generation)

theorem Fresh.of_not_mem {lease : LeaseId} {s : WorkerEngine C} (h : lease ∉ s.leases)
    (base : Nat) : s.Fresh lease base :=
  fun _ hl => absurd (mem_of_lookup hl) h

theorem Fresh.log {lease : LeaseId} {base : Nat} {s : WorkerEngine C} {event : Event C}
    (h : s.Fresh lease base) (he : event.handsOut = none) : (s.log event).Fresh lease base := by
  intro entry hl
  obtain ⟨h1, h2⟩ := h entry hl
  refine ⟨h1, fun hc d hd => h2 hc d ?_⟩
  rw [handed, WorkerEngine.log, List.filterMap_cons_none he] at hd
  exact hd

/-- **The step of the inner loop, in its three parts.** -/
theorem assign_path {lease : LeaseId} {base : Nat} {database : Database} {rest : List Database}
    {scheduling : List (Event C)} {s : WorkerEngine C} (h : Inv Q s)
    (hopen : s.leaseRecords.lookup lease = some .opened) (hw : lease ∉ s.groupWaiters)
    (hbase : base ≤ s.nextGeneration) (hl : lease ∉ s.leases)
    (hready : s.inventory.ready = database :: rest) (hmax : s.nextGeneration + 1 ≤ u64Max)
    (hsched : s.Scheduling lease scheduling) :
    Path Q (Act.Serving lease base) s (s.assignment lease database rest scheduling) ∧
      (s.assignment lease database rest scheduling).Fresh lease base := by
  have hm := Move.assign (Q := Q) hopen hl hw hready hmax hsched
  refine ⟨.single hm rfl, fun entry he => ?_⟩
  rcases lookup_insert_eq_some.mp he with ⟨_, rfl⟩ | ⟨hne, _⟩
  · refine ⟨Nat.lt_succ_of_le hbase, fun _ d hd => ?_⟩
    rw [hm.handed nofun] at hd
    have hle : s.nextGeneration + 1 ≤ s.nextGeneration := h.handed.generation_le _ _ _ hd
    omega
  · exact absurd rfl hne

theorem replyAttached_path {env : Env C} {lease : LeaseId} {base : Nat} {entry : LeaseEntry}
    {reply : C} {s t : WorkerEngine C} (hl : s.leases.lookup lease = some entry)
    (hQ : Q lease reply)
    (hok : replyAttached env lease entry.database.databaseName reply s = .ok t) :
    Path Q (Act.Serving lease base) s t ∧ (s.Fresh lease base → t.Fresh lease base) := by
  rcases replyAttached_cases hl hok with ⟨event, hq, _, rfl⟩ | ⟨hc, rfl⟩
  · exact ⟨.single (.note hq) trivial, fun hf => hf.log hq.minor.handsOut⟩
  · refine ⟨.single (.attach hl hc hQ) rfl, fun hf entry' he => ?_⟩
    rcases lookup_insert_eq_some.mp he with ⟨_, rfl⟩ | ⟨hne, _⟩
    · exact ⟨(hf entry hl).1, fun h0 => absurd h0 (Nat.succ_ne_zero _)⟩
    · exact absurd rfl hne

theorem restore_path {lease : LeaseId} {base : Nat} {restored : Bool} {s t : WorkerEngine C}
    (hf : s.Fresh lease base) (hok : restoreUnclaimedDatabase lease s = .ok (restored, t)) :
    Path Q (Act.Serving lease base) s t ∧ (restored = false → t = s) := by
  rcases restoreUnclaimedDatabase_cases hok with ⟨_, rfl⟩ | ⟨hr, entry, hl, hc, rfl⟩
  · exact ⟨.refl _, fun _ => rfl⟩
  · obtain ⟨h1, h2⟩ := hf entry hl
    refine ⟨.single (.restore hl hc (h2 hc)) ⟨rfl, h1⟩, fun hn => ?_⟩
    rw [hr] at hn
    cases hn

end WorkerEngine

end PgTest.Engine
