import PgTest.Engine.Panics
import PgTest.Lib.Fifo

/-!
# Dispatch is a matching

`dispatch_waiters` matches the queue with the ready databases, first come, first
served.  The ticket of a group is its generation.  A group passes when its
requests are all expired, and refuses when none of the others is delivered.

`Tells` and `Assigns` follow the inner loop, once the lease has its database and
from the start.  `Dispatched` says what the outer loop does in terms of the
matching.
-/

namespace PgTest.Engine

open PgTest.Lib

variable {C : Type} {Q : LeaseId → C → Prop}

/-- Whom a delivered `Attached` reply tells of which assignment. -/
def Event.tells : Event C → Option (LeaseId × C × ReadString × Nat × Nat)
  | .reply lease consumer (.attached databaseName generation cancellation) _ true =>
      some (lease, consumer, databaseName, generation, cancellation)
  | _ => none

namespace WorkerEngine

/-- All that consumers were told, oldest first. -/
def told (s : WorkerEngine C) : List (LeaseId × C × ReadString × Nat × Nat) :=
  (s.history.filterMap Event.tells).reverse

theorem told_silent {s t : WorkerEngine C} {event : Event C}
    (h : t.history = event :: s.history) (he : event.tells = none) : t.told = s.told := by
  rw [told, h, List.filterMap_cons_none he, told]

theorem told_tells {s t : WorkerEngine C} {event : Event C}
    {x : LeaseId × C × ReadString × Nat × Nat} (h : t.history = event :: s.history)
    (he : event.tells = some x) : t.told = s.told ++ [x] := by
  rw [told, h, List.filterMap_cons_some he, List.reverse_cons, told]

/-- The requests that wait for `lease`. -/
def requests (s : WorkerEngine C) (lease : LeaseId) : List (C × Nat) :=
  (s.groupWaiters.lookup lease).getD []

/-- The consumers that take an assignment: their request is not expired and the
reply reaches them. -/
def takers (env : Env C) (database : Database) (generation : Nat) (requests : List (C × Nat))
    (s : WorkerEngine C) : List C :=
  (requests.filter fun request => decide (s.live (env.now request.1) request.2) &&
    env.reply request.1 (.attached database.databaseName generation generation)).map Prod.fst

/-- What the group of `lease` makes of a database, after `generations` were drawn. -/
def verdict (env : Env C) (s : WorkerEngine C) (generations : Nat) (lease : LeaseId)
    (database : Database) : Verdict :=
  if ∀ request ∈ s.requests lease, ¬s.live (env.now request.1) request.2 then .passes
  else if s.takers env database (generations + 1) (s.requests lease) = [] then .refuses
  else .takes

/-- The matching of the queue with the ready databases. -/
def matching (env : Env C) (s : WorkerEngine C) : Matching LeaseId Database :=
  serve (s.verdict env) s.nextGeneration s.waiters s.inventory.ready

/-- The consumers that a matched group brings, as many as `conns` can count. -/
def connected (env : Env C) (s : WorkerEngine C) (x : Match LeaseId Database) : List C :=
  (s.takers env x.item (x.ticket + 1) (s.requests x.group)).take u16Max

theorem live_congr {s t : WorkerEngine C} (h : t.config = s.config) (now messageTime : Nat) :
    t.live now messageTime ↔ s.live now messageTime := by
  rw [live, h, live]

theorem takers_congr {s t : WorkerEngine C} (h : t.config = s.config) (env : Env C)
    (database : Database) (generation : Nat) (requests : List (C × Nat)) :
    t.takers env database generation requests = s.takers env database generation requests := by
  simp only [takers, live_congr h]

section Takers

variable {env : Env C} {s : WorkerEngine C} {database : Database} {generation : Nat}
  {request : C × Nat} {requests : List (C × Nat)}

@[simp] theorem takers_nil : s.takers env database generation [] = [] := rfl

theorem takers_cons_expired (h : ¬s.live (env.now request.1) request.2) :
    s.takers env database generation (request :: requests) =
      s.takers env database generation requests := by
  rw [takers, List.filter_cons_of_neg (by simp [h]), takers]

theorem takers_cons_lost
    (h : env.reply request.1 (.attached database.databaseName generation generation) = false) :
    s.takers env database generation (request :: requests) =
      s.takers env database generation requests := by
  rw [takers, List.filter_cons_of_neg (by simp [h]), takers]

theorem takers_cons_delivered (hl : s.live (env.now request.1) request.2)
    (h : env.reply request.1 (.attached database.databaseName generation generation) = true) :
    s.takers env database generation (request :: requests) =
      request.1 :: s.takers env database generation requests := by
  rw [takers, List.filter_cons_of_pos (by simp [hl, h]), List.map_cons, takers]

theorem takers_append (more : List (C × Nat)) :
    s.takers env database generation (requests ++ more) =
      s.takers env database generation requests ++ s.takers env database generation more := by
  rw [takers, List.filter_append, List.map_append, takers, takers]

theorem takers_of_expired (h : ∀ request ∈ requests, ¬s.live (env.now request.1) request.2) :
    s.takers env database generation requests = [] := by
  rw [takers, List.filter_eq_nil_iff.mpr (fun request hr => by simp [h request hr]), List.map_nil]

end Takers

/-! ### A lease that has its database -/

/-- The consumers were told of the assignment of `lease`, and nothing else was done. -/
structure Tells (lease : LeaseId) (entry : LeaseEntry) (consumers : List C)
    (s t : WorkerEngine C) : Prop where
  leases : t.leases = s.leases.insert lease { entry with conns := entry.conns + consumers.length }
  told : t.told = s.told ++ consumers.map fun c =>
    (lease, c, entry.database.databaseName, entry.generation, entry.cancellation)
  config : t.config = s.config
  inventory : t.inventory = s.inventory
  nextGeneration : t.nextGeneration = s.nextGeneration

theorem Tells.nil {lease : LeaseId} {entry : LeaseEntry} {s t : WorkerEngine C}
    (hl : s.leases.lookup lease = some entry) (hs : t.leases = s.leases) (ht : t.told = s.told)
    (hc : t.config = s.config) (hi : t.inventory = s.inventory)
    (hn : t.nextGeneration = s.nextGeneration) : Tells lease entry [] s t where
  leases := by rw [hs]; exact (insert_of_lookup hl).symm
  told := by rw [ht, List.map_nil, List.append_nil]
  config := hc
  inventory := hi
  nextGeneration := hn

theorem Tells.trans {lease : LeaseId} {entry : LeaseEntry} {consumers more : List C}
    {s t u : WorkerEngine C} (h : Tells lease entry consumers s t)
    (g : Tells lease { entry with conns := entry.conns + consumers.length } more t u) :
    Tells lease entry (consumers ++ more) s u where
  leases := by
    rw [g.leases, h.leases, Finmap.insert_insert, List.length_append, ← Nat.add_assoc]
  told := by rw [g.told, h.told, List.append_assoc, List.map_append]
  config := g.config.trans h.config
  inventory := g.inventory.trans h.inventory
  nextGeneration := g.nextGeneration.trans h.nextGeneration

/-- **One reply** is counted where it is delivered and the count has room. -/
theorem replyAttached_tells {env : Env C} {lease : LeaseId} {entry : LeaseEntry} {reply : C}
    {s t : WorkerEngine C} (hl : s.leases.lookup lease = some entry)
    (hok : replyAttached env lease entry.database.databaseName reply s = .ok t) :
    Tells lease entry (if entry.conns < u16Max ∧ env.reply reply
      (.attached entry.database.databaseName entry.generation entry.cancellation) = true
      then [reply] else []) s t := by
  rw [replyAttached, hl] at hok
  by_cases hmax : u16Max < entry.conns + 1
  · -- the count is full, and the consumer is told so
    replace hok := (if_pos hmax).symm.trans hok
    cases hok
    rw [if_neg fun h => absurd hmax (Nat.not_lt.mpr h.1)]
    exact .nil hl rfl (told_silent rfl rfl) rfl rfl rfl
  replace hok := (if_neg hmax).symm.trans hok
  by_cases hr : env.reply reply
      (.attached entry.database.databaseName entry.generation entry.cancellation) = true
  · replace hok := (if_pos hr).symm.trans hok
    cases hok
    rw [if_pos ⟨Nat.lt_of_succ_le (Nat.le_of_not_lt hmax), hr⟩]
    exact ⟨rfl, told_tells rfl rfl, rfl, rfl, rfl⟩
  · replace hok := (if_neg hr).symm.trans hok
    replace hok := (if_neg (Nat.succ_ne_zero entry.conns)).symm.trans hok
    cases hok
    rw [if_neg fun h => hr h.2]
    refine .nil hl ?_ (told_silent rfl rfl) rfl rfl rfl
    show (s.leases.insert lease { entry with conns := entry.conns + 1 }).insert lease entry = _
    rw [Finmap.insert_insert]
    exact insert_of_lookup hl

theorem expired_iff {s : WorkerEngine C} {now messageTime : Nat} :
    0 < s.config.leaseClaimTimeoutMs ∧
      s.config.leaseClaimTimeoutMs < elapsedMillis now messageTime ↔ ¬s.live now messageTime := by
  rw [live]
  omega

theorem serveRequest_expired {env : Env C} {lease : LeaseId} {request : C × Nat}
    {s : WorkerEngine C} (h : ¬s.live (env.now request.1) request.2) :
    serveRequest env lease s request = .ok ({ s with
      counters := { s.counters with waiterTimeouts := s.counters.waiterTimeouts + 1 } }.log
        (.expired lease request.1)) := by
  rw [serveRequest, if_pos (expired_iff.mpr h)]

theorem serveRequest_live {env : Env C} {lease : LeaseId} {request : C × Nat}
    {s : WorkerEngine C} (h : s.live (env.now request.1) request.2) :
    serveRequest env lease s request = (claimDatabase env lease s >>= fun claimed =>
      replyAttached env lease claimed.1 request.1 claimed.2) := by
  rw [serveRequest, if_neg fun he => expired_iff.mp he h]

/-- One request of a lease that has its database. -/
theorem serveRequest_tells {env : Env C} {lease : LeaseId} {entry : LeaseEntry}
    {request : C × Nat} {s t : WorkerEngine C} (hl : s.leases.lookup lease = some entry)
    (htok : entry.cancellation = entry.generation)
    (hok : serveRequest env lease s request = .ok t) :
    Tells lease entry
      ((s.takers env entry.database entry.generation [request]).take (u16Max - entry.conns))
      s t := by
  by_cases hlive : s.live (env.now request.1) request.2
  · rw [serveRequest_live hlive] at hok
    obtain ⟨⟨name, s₁⟩, h1, h2⟩ := bind_ok hok
    rw [claimDatabase, hl] at h1
    cases h1
    have htell := replyAttached_tells hl h2
    rw [htok] at htell
    cases hr : env.reply request.1
        (.attached entry.database.databaseName entry.generation entry.generation) with
    | false =>
      rw [takers_cons_lost hr, takers_nil, List.take_nil]
      rw [if_neg fun h => by rw [hr] at h; cases h.2] at htell
      exact htell
    | true =>
      rw [takers_cons_delivered hlive hr]
      by_cases hmax : entry.conns < u16Max
      · rw [if_pos ⟨hmax, hr⟩] at htell
        rw [takers_nil, List.take_of_length_le (by rw [List.length_singleton]; omega)]
        exact htell
      · rw [if_neg fun h => hmax h.1] at htell
        rw [Nat.sub_eq_zero_of_le (Nat.le_of_not_lt hmax), List.take_zero]
        exact htell
  · rw [serveRequest_expired hlive] at hok
    cases hok
    rw [takers_cons_expired hlive, takers_nil, List.take_nil]
    exact .nil hl rfl (told_silent rfl rfl) rfl rfl rfl

/-- **The inner loop** once the lease has its database. -/
theorem serveRequests_tells {env : Env C} {lease : LeaseId} : ∀ {requests : List (C × Nat)}
    {entry : LeaseEntry} {s t : WorkerEngine C}, s.leases.lookup lease = some entry →
    entry.cancellation = entry.generation →
    requests.foldlM (serveRequest env lease) s = .ok t →
    Tells lease entry
      ((s.takers env entry.database entry.generation requests).take (u16Max - entry.conns))
      s t := by
  intro requests
  induction requests with
  | nil =>
    intro entry s t hl _ hok
    cases hok
    rw [takers_nil, List.take_nil]
    exact .nil hl rfl rfl rfl rfl rfl
  | cons request requests ih =>
    intro entry s t hl htok hok
    rw [List.foldlM_cons] at hok
    obtain ⟨s₁, h1, h2⟩ := bind_ok hok
    have hfirst := serveRequest_tells hl htok h1
    have hl₁ : s₁.leases.lookup lease = some { entry with conns := entry.conns +
        ((s.takers env entry.database entry.generation [request]).take
          (u16Max - entry.conns)).length } := by
      rw [hfirst.leases, Finmap.lookup_insert]
    have hrest := ih hl₁ htok h2
    rw [takers_congr hfirst.config] at hrest
    -- the room that the first request leaves
    have hroom : ∀ l : List C, u16Max - (entry.conns + (l.take (u16Max - entry.conns)).length) =
        u16Max - entry.conns - l.length := by
      intro l
      rw [List.length_take]
      omega
    have hboth := hfirst.trans hrest
    rw [hroom, ← List.take_append, ← takers_append] at hboth
    exact hboth

/-! ### A lease that has none yet -/

/-- `lease` was assigned `database`, which left `rest` ready, and the consumers were
told so. -/
structure Assigns (lease : LeaseId) (database : Database) (rest : List Database)
    (consumers : List C) (s t : WorkerEngine C) : Prop where
  leases : t.leases = s.leases.insert lease
    ⟨database, consumers.length, s.nextGeneration + 1, s.nextGeneration + 1⟩
  told : t.told = s.told ++ consumers.map fun c =>
    (lease, c, database.databaseName, s.nextGeneration + 1, s.nextGeneration + 1)
  config : t.config = s.config
  inventory : t.inventory = { s.inventory with ready := rest }
  nextGeneration : t.nextGeneration = s.nextGeneration + 1

/-- Nobody was told anything, and no lease or database moved, while `drawn`
generations were drawn. -/
structure Leaves (drawn : Nat) (s t : WorkerEngine C) : Prop where
  leases : t.leases = s.leases
  told : t.told = s.told
  config : t.config = s.config
  inventory : t.inventory = s.inventory
  nextGeneration : t.nextGeneration = s.nextGeneration + drawn

/-- **The inner loop** from its start.  The first request that is not expired
draws the database, and the loop goes on as if it had been there before. -/
theorem serveRequests_start {env : Env C} {lease : LeaseId} {database : Database}
    {rest : List Database} : ∀ {requests : List (C × Nat)} {s t : WorkerEngine C},
    lease ∉ s.leases → s.issuedTokens = s.nextGeneration →
    s.inventory.ready = database :: rest →
    requests.foldlM (serveRequest env lease) s = .ok t →
    (∀ request ∈ requests, ¬s.live (env.now request.1) request.2) ∧ Leaves 0 s t ∨
    ¬(∀ request ∈ requests, ¬s.live (env.now request.1) request.2) ∧
      Assigns lease database rest
        ((s.takers env database (s.nextGeneration + 1) requests).take u16Max) s t := by
  intro requests
  induction requests with
  | nil =>
    intro s t _ _ _ hok
    cases hok
    exact Or.inl ⟨fun _ h => absurd h List.not_mem_nil, ⟨rfl, rfl, rfl, rfl, rfl⟩⟩
  | cons request requests ih =>
    intro s t hl hissued hready hok
    rw [List.foldlM_cons] at hok
    obtain ⟨s₁, h1, h2⟩ := bind_ok hok
    by_cases hlive : s.live (env.now request.1) request.2
    · rw [serveRequest_live hlive] at h1
      obtain ⟨⟨name, s₂⟩, h3, h4⟩ := bind_ok h1
      rw [claimDatabase, Finmap.lookup_eq_none.mpr hl, DatabaseInventory.takeReady, hready] at h3
      obtain ⟨_, _, rfl, scheduling, hsched, rfl⟩ := assignDatabase_cases h3
      refine Or.inr ⟨fun h => h request List.mem_cons_self hlive, ?_⟩
      have hl₂ : (s.assignment lease database rest scheduling).leases.lookup lease =
          some ⟨database, 0, s.nextGeneration + 1, s.issuedTokens + 1⟩ := Finmap.lookup_insert _
      have hagain : serveRequest env lease (s.assignment lease database rest scheduling) request =
          .ok s₁ := by
        rw [serveRequest_live (s := s.assignment lease database rest scheduling) hlive,
          claimDatabase, hl₂]
        exact h4
      have hall : (request :: requests).foldlM (serveRequest env lease)
          (s.assignment lease database rest scheduling) = .ok t := by
        rw [List.foldlM_cons, hagain]
        exact h2
      have htell := serveRequests_tells hl₂ (congrArg (· + 1) hissued) hall
      have htold : (s.assignment lease database rest scheduling).told = s.told := by
        rw [Scheduling] at hsched
        split at hsched
        · obtain ⟨accepted, rfl⟩ := hsched
          rfl
        · rw [hsched]
          rfl
      rw [Nat.sub_zero] at htell
      refine ⟨?_, ?_, htell.config, htell.inventory, htell.nextGeneration⟩
      · rw [htell.leases]
        show (s.leases.insert lease _).insert lease _ = _
        rw [Finmap.insert_insert, hissued, Nat.zero_add]
        rfl
      · rw [htell.told, htold, hissued]
        rfl
    · rw [serveRequest_expired hlive] at h1
      cases h1
      rw [takers_cons_expired hlive]
      rcases ih (s := { s with
        counters := { s.counters with waiterTimeouts := s.counters.waiterTimeouts + 1 } }.log
          (.expired lease request.1)) hl hissued hready h2 with ⟨hexp, hleave⟩ | ⟨hsome, hassign⟩
      · refine Or.inl ⟨fun other ho => ?_,
          ⟨hleave.leases, hleave.told, hleave.config, hleave.inventory, hleave.nextGeneration⟩⟩
        rcases List.mem_cons.mp ho with rfl | ho
        · exact hlive
        · exact hexp other ho
      · exact Or.inr ⟨fun h => hsome fun other ho => h other (List.mem_cons_of_mem _ ho),
          ⟨hassign.leases, hassign.told, hassign.config, hassign.inventory,
            hassign.nextGeneration⟩⟩

/-! ### One group -/

theorem restoreUnclaimedDatabase_unclaimed {lease : LeaseId} {entry : LeaseEntry}
    {restored : Bool} {s t : WorkerEngine C} (hl : s.leases.lookup lease = some entry)
    (hc : entry.conns = 0) (hok : restoreUnclaimedDatabase lease s = .ok (restored, t)) :
    restored = true := by
  rw [restoreUnclaimedDatabase, hl] at hok
  replace hok := (if_pos hc).symm.trans hok
  obtain ⟨inventory, _, h2⟩ := bind_ok hok
  cases h2
  rfl

/-- **What becomes of a group** that meets `database`, verdict by verdict. -/
theorem serveGroup_matches {env : Env C} {lease : LeaseId} {database : Database}
    {rest : List Database} {requests : List (C × Nat)} {s t : WorkerEngine C}
    (hopen : s.leaseRecords.lookup lease = some .opened) (hl : lease ∉ s.leases)
    (hissued : s.issuedTokens = s.nextGeneration) (hready : s.inventory.ready = database :: rest)
    (hok : serveGroup env lease requests s = .ok t) :
    if ∀ request ∈ requests, ¬s.live (env.now request.1) request.2 then Leaves 0 s t
    else if s.takers env database (s.nextGeneration + 1) requests = [] then Leaves 1 s t
    else Assigns lease database rest
      ((s.takers env database (s.nextGeneration + 1) requests).take u16Max) s t := by
  rw [serveGroup, if_neg (by rw [hopen]; intro h; cases h)] at hok
  obtain ⟨served, h1, h2⟩ := bind_ok hok
  rw [if_neg hl] at h2
  obtain ⟨⟨restored, s₂⟩, h3, h4⟩ := bind_ok h2
  cases h4
  rcases serveRequests_start hl hissued hready h1 with ⟨hexp, hleave⟩ | ⟨hsome, hassign⟩
  · rw [if_pos hexp]
    rcases restoreUnclaimedDatabase_cases h3 with ⟨_, rfl⟩ | ⟨_, entry, he, _⟩
    · exact hleave
    · rw [hleave.leases] at he
      exact absurd (mem_of_lookup he) hl
  rw [if_neg hsome]
  have hentry : served.leases.lookup lease = some ⟨database,
      ((s.takers env database (s.nextGeneration + 1) requests).take u16Max).length,
      s.nextGeneration + 1, s.nextGeneration + 1⟩ := by
    rw [hassign.leases, Finmap.lookup_insert]
  by_cases hnone : s.takers env database (s.nextGeneration + 1) requests = []
  · -- nobody took the database, so it is put back in front
    rw [if_pos hnone]
    rw [hnone, List.take_nil] at hassign hentry
    have hrestored := restoreUnclaimedDatabase_unclaimed hentry rfl h3
    rcases restoreUnclaimedDatabase_cases h3 with ⟨hno, _⟩ | ⟨_, entry, he, _, rfl⟩
    · cases hno.symm.trans hrestored
    cases hentry.symm.trans he
    refine ⟨?_, ?_, hassign.config, ?_, hassign.nextGeneration⟩
    · show served.leases.erase lease = s.leases
      rw [hassign.leases, erase_insert hl]
    · have htold := hassign.told
      rw [List.map_nil, List.append_nil] at htold
      exact htold
    · show { served.inventory with ready := database :: served.inventory.ready } = s.inventory
      rw [hassign.inventory, ← hready]
  · rw [if_neg hnone]
    rcases restoreUnclaimedDatabase_cases h3 with ⟨_, rfl⟩ | ⟨_, entry, he, hc, _⟩
    · exact hassign
    · -- the entry counts the first of them at least
      cases hentry.symm.trans he
      have hempty := List.take_eq_nil_iff.mp (List.length_eq_zero_iff.mp hc)
      rcases hempty with h | h
      · cases h
      · exact absurd h hnone

/-! ### The queue -/

/-- The assignment that a match makes. -/
def entryOf (env : Env C) (s : WorkerEngine C) (x : Match LeaseId Database) : LeaseEntry where
  database := x.item
  conns := (s.connected env x).length
  generation := x.ticket + 1
  cancellation := x.ticket + 1

/-- What the consumers of a matched group are told: all of them the same. -/
def tellings (env : Env C) (s : WorkerEngine C) (x : Match LeaseId Database) :
    List (LeaseId × C × ReadString × Nat × Nat) :=
  (s.connected env x).map fun c => (x.group, c, x.item.databaseName, x.ticket + 1, x.ticket + 1)

/-- **What dispatch does**, where `m` matches the groups that `s₀` has: from `s` to `t`. -/
structure Dispatched (env : Env C) (s₀ : WorkerEngine C) (m : Matching LeaseId Database)
    (s t : WorkerEngine C) : Prop where
  waiters : t.waiters = m.waiting
  groups : ∀ lease, t.groupWaiters.lookup lease =
    if lease ∈ m.waiting then s.groupWaiters.lookup lease else none
  inventory : t.inventory = { s.inventory with ready := m.items }
  nextGeneration : t.nextGeneration = m.tickets
  assigned : ∀ x ∈ m.matched, t.leases.lookup x.group = some (s₀.entryOf env x)
  others : ∀ lease, (∀ x ∈ m.matched, x.group ≠ lease) →
    t.leases.lookup lease = s.leases.lookup lease
  told : t.told = s.told ++ m.matched.flatMap (s₀.tellings env)

/-- Dispatch stops where nothing is ready or nobody waits. -/
theorem Dispatched.stop {env : Env C} {s₀ s : WorkerEngine C} {queue : List LeaseId}
    (h : Queue Q s) (hq : s.waiters = queue) :
    Dispatched env s₀ ⟨[], queue, s.inventory.ready, s.nextGeneration⟩ s s where
  waiters := hq
  groups := fun lease => by
    by_cases hm : lease ∈ queue
    · rw [if_pos hm]
    · rw [if_neg hm]
      rw [← hq, h.keys] at hm
      exact Finmap.lookup_eq_none.mpr hm
  inventory := rfl
  nextGeneration := rfl
  assigned := fun _ hx => absurd hx List.not_mem_nil
  others := fun _ _ => rfl
  told := (List.append_nil _).symm

section Head

variable {env : Env C} {s₀ s s₁ t : WorkerEngine C} {lease : LeaseId}
  {m : Matching LeaseId Database}

theorem Leaves.of_dequeue {drawn : Nat} {waiters : List LeaseId}
    {groups : Finmap fun _ : LeaseId => List (C × Nat)}
    (h : Leaves drawn { s with waiters := waiters, groupWaiters := groups } s₁) :
    Leaves drawn s s₁ := ⟨h.leases, h.told, h.config, h.inventory, h.nextGeneration⟩

theorem Assigns.of_dequeue {database : Database} {rest : List Database} {consumers : List C}
    {waiters : List LeaseId} {groups : Finmap fun _ : LeaseId => List (C × Nat)}
    (h : Assigns lease database rest consumers
      { s with waiters := waiters, groupWaiters := groups } s₁) :
    Assigns lease database rest consumers s s₁ :=
  ⟨h.leases, h.told, h.config, h.inventory, h.nextGeneration⟩

/-- The groups that a matching leaves, after `lease` was taken out. -/
theorem Dispatched.groups_erase (h : Dispatched env s₀ m s₁ t)
    (hg : s₁.groupWaiters = s.groupWaiters.erase lease) (hm : lease ∉ m.waiting)
    (other : LeaseId) : t.groupWaiters.lookup other =
      if other ∈ m.waiting then s.groupWaiters.lookup other else none := by
  rw [h.groups other]
  by_cases ho : other ∈ m.waiting
  · have hne : other ≠ lease := by
      rintro rfl
      exact hm ho
    rw [if_pos ho, if_pos ho, hg, Finmap.lookup_erase_ne hne]
  · rw [if_neg ho, if_neg ho]

/-- A group that takes nothing, before the rest of the queue. -/
theorem Dispatched.leaves {drawn : Nat} (h : Dispatched env s₀ m s₁ t)
    (hl : Leaves drawn s s₁) (hg : s₁.groupWaiters = s.groupWaiters.erase lease)
    (hm : lease ∉ m.waiting) : Dispatched env s₀ m s t where
  waiters := h.waiters
  groups := h.groups_erase hg hm
  inventory := by rw [h.inventory, hl.inventory]
  nextGeneration := h.nextGeneration
  assigned := h.assigned
  others := fun other ho => by rw [h.others other ho, hl.leases]
  told := by rw [h.told, hl.told]

/-- A group that takes the first database, before the rest of the queue. -/
theorem Dispatched.assigns {database : Database} {rest : List Database}
    (h : Dispatched env s₀ m s₁ t)
    (ha : Assigns lease database rest
      (s₀.connected env ⟨lease, s.nextGeneration, database⟩) s s₁)
    (hg : s₁.groupWaiters = s.groupWaiters.erase lease) (hm : lease ∉ m.waiting)
    (hx : ∀ x ∈ m.matched, x.group ≠ lease) :
    Dispatched env s₀ { m with
      matched := ⟨lease, s.nextGeneration, database⟩ :: m.matched } s t where
  waiters := h.waiters
  groups := h.groups_erase hg hm
  inventory := by rw [h.inventory, ha.inventory]
  nextGeneration := h.nextGeneration
  assigned := fun x hmem => by
    rcases List.mem_cons.mp hmem with rfl | hmem
    · rw [h.others lease hx, ha.leases, Finmap.lookup_insert]
      rfl
    · exact h.assigned x hmem
  others := fun other ho => by
    have hne : lease ≠ other := ho _ List.mem_cons_self
    rw [h.others other fun x hmem => ho x (List.mem_cons_of_mem _ hmem), ha.leases,
      Finmap.lookup_insert_of_ne _ hne.symm]
  told := by
    rw [h.told, ha.told, List.append_assoc, List.flatMap_cons]
    rfl

end Head

/-- **The outer loop** matches the queue with what is ready. -/
theorem dispatchLoop_matches {env : Env C} {s₀ : WorkerEngine C} : ∀ {queue : List LeaseId}
    {s t : WorkerEngine C}, Inv Q s → s.waiters = queue → s.config = s₀.config →
    (∀ lease ∈ queue, s.groupWaiters.lookup lease = s₀.groupWaiters.lookup lease) →
    dispatchLoop env queue s = .ok t →
    Dispatched env s₀ (serve (s₀.verdict env) s.nextGeneration queue s.inventory.ready) s t := by
  intro queue
  induction queue with
  | nil =>
    intro s t h hq _ _ hok
    rw [dispatchLoop] at hok
    cases hok
    rw [serve_nil_queue]
    exact .stop h.queue hq
  | cons lease rest ih =>
    intro s t h hq hconfig hgroups hok
    rw [dispatchLoop] at hok
    cases hready : s.inventory.ready with
    | nil =>
      rw [if_pos (by rw [hready]; rfl)] at hok
      cases hok
      rw [serve_nil_items, ← hready]
      exact .stop h.queue hq
    | cons database items =>
      rw [if_neg (by rw [hready]; intro he; cases he)] at hok
      obtain ⟨hg, hl, hopen⟩ := h.queue.head_free hq
      obtain ⟨requests, hg⟩ := Finmap.mem_iff.mp hg
      simp only [hg] at hok
      obtain ⟨s₁, h1, h2⟩ := bind_ok hok
      have hnd := h.queue.nodup
      rw [hq, List.nodup_cons] at hnd
      have hm : Move Q s (.dequeue lease) { s with
          waiters := rest, groupWaiters := s.groupWaiters.erase lease } := .dequeue hq
      have hinv := h.move hm
      have hp := serveGroup_path hinv hopen Finmap.notMem_erase_self hl (le_refl _)
        (fun request hr => h.queue.known lease requests hg request hr) h1
      have hkeep := path_sameQueue hp hinv
      have hinv₁ := hp.inv hinv
      have hgroups₁ : ∀ other ∈ rest,
          s₁.groupWaiters.lookup other = s₀.groupWaiters.lookup other := by
        intro other ho
        have hne : other ≠ lease := by
          rintro rfl
          exact hnd.1 ho
        rw [hkeep.groupWaiters, Finmap.lookup_erase_ne hne]
        exact hgroups other (List.mem_cons_of_mem _ ho)
      have hrest := fun hc => ih hinv₁ hkeep.waiters hc hgroups₁ h2
      -- a matching of the rest of the queue leaves `lease` alone
      have houtside : ∀ n (l : List Database),
          lease ∉ (serve (s₀.verdict env) n rest l).waiting ∧
          ∀ x ∈ (serve (s₀.verdict env) n rest l).matched, x.group ≠ lease := by
        intro n l
        obtain ⟨met, hmet, hsub, _⟩ := serve_queue (s₀.verdict env) rest l n
        rw [hmet] at hnd
        refine ⟨fun hw => hnd.1 (List.mem_append_right _ hw), fun x hx he => hnd.1 ?_⟩
        exact List.mem_append_left _ (hsub.subset (he ▸ List.mem_map_of_mem hx))
      have hreq : s₀.requests lease = requests := by
        rw [WorkerEngine.requests, ← hgroups lease List.mem_cons_self, hg]
        rfl
      have hverdict : s₀.verdict env s.nextGeneration lease database =
          if ∀ request ∈ requests, ¬s.live (env.now request.1) request.2 then .passes
          else if s.takers env database (s.nextGeneration + 1) requests = [] then .refuses
          else .takes := by
        rw [verdict, hreq, takers_congr hconfig.symm]
        simp only [live_congr hconfig.symm]
      have hcase := serveGroup_matches (s := { s with
        waiters := rest, groupWaiters := s.groupWaiters.erase lease }) hopen hl
        hinv.entries.issued hready h1
      by_cases hexp : ∀ request ∈ requests, ¬s.live (env.now request.1) request.2
      · rw [if_pos hexp] at hverdict
        have hleave := Leaves.of_dequeue ((if_pos hexp).mp hcase)
        have hdone := hrest (hleave.config.trans hconfig)
        rw [hleave.nextGeneration, hleave.inventory, hready] at hdone
        rw [serve_passes hverdict]
        exact hdone.leaves hleave hkeep.groupWaiters (houtside _ _).1
      rw [if_neg hexp] at hverdict
      replace hcase := (if_neg hexp).mp hcase
      by_cases hnone : s.takers env database (s.nextGeneration + 1) requests = []
      · rw [if_pos hnone] at hverdict
        have hleave := Leaves.of_dequeue ((if_pos hnone).mp hcase)
        have hdone := hrest (hleave.config.trans hconfig)
        rw [hleave.nextGeneration, hleave.inventory, hready] at hdone
        rw [serve_refuses hverdict]
        exact hdone.leaves hleave hkeep.groupWaiters (houtside _ _).1
      · rw [if_neg hnone] at hverdict
        have hassign := Assigns.of_dequeue ((if_neg hnone).mp hcase)
        have hdone := hrest (hassign.config.trans hconfig)
        rw [hassign.nextGeneration, hassign.inventory] at hdone
        rw [serve_takes hverdict]
        have hfirst : Assigns lease database items
            (s₀.connected env ⟨lease, s.nextGeneration, database⟩) s s₁ := by
          rw [connected, hreq, takers_congr hconfig.symm]
          exact hassign
        exact hdone.assigns hfirst hkeep.groupWaiters (houtside _ _).1 (houtside _ _).2

/-! ### Outcomes that go by the request -/

/-- At least one request of the group is unexpired and its reply is delivered. -/
def Claimable (env : Env C) (delivered : C → Bool) (s : WorkerEngine C) (lease : LeaseId) : Prop :=
  ∃ request ∈ s.requests lease,
    s.live (env.now request.1) request.2 ∧ delivered request.1 = true

instance (env : Env C) (delivered : C → Bool) (s : WorkerEngine C) (lease : LeaseId) :
    Decidable (s.Claimable env delivered lease) :=
  inferInstanceAs (Decidable (∃ request ∈ s.requests lease,
    s.live (env.now request.1) request.2 ∧ delivered request.1 = true))

theorem verdict_takes_iff {env : Env C} {s : WorkerEngine C} {generations : Nat}
    {lease : LeaseId} {database : Database} :
    s.verdict env generations lease database = .takes ↔
      s.takers env database (generations + 1) (s.requests lease) ≠ [] := by
  rw [verdict]
  by_cases hexp : ∀ request ∈ s.requests lease, ¬s.live (env.now request.1) request.2
  · rw [if_pos hexp, takers_of_expired hexp]
    simp
  rw [if_neg hexp]
  by_cases hnone : s.takers env database (generations + 1) (s.requests lease) = []
  · rw [if_pos hnone]
    simp [hnone]
  · rw [if_neg hnone]
    simp [hnone]

section Outcomes

variable {env : Env C} {delivered : C → Bool} {s : WorkerEngine C}
  (h : ∀ consumer name generation token,
    env.reply consumer (.attached name generation token) = delivered consumer)

include h

theorem takers_of_outcomes (database : Database) (generation : Nat)
    (requests : List (C × Nat)) :
    s.takers env database generation requests =
      (requests.filter fun request => decide (s.live (env.now request.1) request.2) &&
        delivered request.1).map Prod.fst := by
  simp only [takers, h]

theorem verdict_takes_of_outcomes (generations : Nat) (lease : LeaseId) (database : Database) :
    s.verdict env generations lease database = .takes ↔
      decide (s.Claimable env delivered lease) = true := by
  rw [verdict_takes_iff, takers_of_outcomes h, ne_eq, List.map_eq_nil_iff, List.filter_eq_nil_iff,
    decide_eq_true_eq, Claimable]
  simp

end Outcomes

end WorkerEngine

open WorkerEngine

/-- **Dispatch is a first come, first served matching that wastes nothing**, in
every state that the engine is in between two atomic changes, whatever the clock
reads and whichever replies are delivered.

The ready databases go in order to the groups that take them, and the rest stays
ready in order.  Groups that were met are gone; the others wait as they did.  An
assigned lease counts the consumers that were told of it, all of them the same.
Where the outcome of a reply goes by the request alone, the groups that take a
database are the claimable ones. -/
theorem dispatch_is_matching {s : WorkerEngine C} (h : (ledger Q).Reachable s) (env : Env C) :
    (s.nextGeneration + s.waiters.length ≤ u64Max → ∃ t, dispatchWaiters env s = .ok t) ∧
    ∀ t, dispatchWaiters env s = .ok t →
      Dispatched env s (s.matching env) s t ∧
      s.inventory.ready = (s.matching env).matched.map Match.item ++ t.inventory.ready ∧
      (t.waiters = [] ∨ t.inventory.ready = []) ∧
      (∃ met, s.waiters = met ++ t.waiters ∧
        ((s.matching env).matched.map Match.group).Sublist met ∧
        (t.inventory.ready = [] →
          met.getLast? = ((s.matching env).matched.map Match.group).getLast?)) ∧
      ∀ delivered : C → Bool, (∀ consumer name generation token,
          env.reply consumer (.attached name generation token) = delivered consumer) →
        (s.matching env).matched.map (fun x => (x.group, x.item)) =
          (s.waiters.filter fun lease => decide (s.Claimable env delivered lease)).zip
            s.inventory.ready ∧
        ∀ x, s.connected env x = (((s.requests x.group).filter fun request =>
          decide (s.live (env.now request.1) request.2) &&
            delivered request.1).map Prod.fst).take u16Max := by
  have hinv := ledger_inv h
  refine ⟨fun hmax => ?_, fun t hok => ?_⟩
  · cases hok : dispatchWaiters env s with
    | ok t => exact ⟨t, rfl⟩
    | error p =>
      have hp := dispatchLoop_error 0 hinv rfl hok
      cases p <;> simp only [Panic.Exhausted] at hp <;> omega
  · have hd : Dispatched env s (s.matching env) s t :=
      dispatchLoop_matches hinv rfl rfl (fun _ _ => rfl) hok
    have hready : t.inventory.ready = (s.matching env).items := by rw [hd.inventory]
    rw [hready, hd.waiters]
    refine ⟨hd, serve_items _ _ _ _, serve_exhausts _ _ _ _, serve_queue _ _ _ _, ?_⟩
    intro delivered hdel
    refine ⟨?_, fun x => ?_⟩
    · exact serve_zip _ (fun n lease database => verdict_takes_of_outcomes hdel n lease database)
        _ _ _
    · rw [connected, takers_of_outcomes hdel]

namespace Sample

/-- The caller of the third lease is gone. -/
def deserted : Env Nat := { env with reply := fun consumer _ => decide (consumer ≠ 2) }

/-- Three sessions wait behind those that took the databases of the start. -/
def queued : List (EngineMessage Nat) :=
  [.attachOrJoin leaseA 0 0, .attachOrJoin leaseB 1 0, .attachOrJoin leaseC 2 0,
    .attachOrJoin leaseD 3 0, .attachOrJoin leaseE 4 0]

end Sample

/-- One database for three groups of the small engine: the first cannot take it any more, so
the second does, and the third waits on. -/
theorem dispatch_is_matching_small : ∃ s t : WorkerEngine Nat,
    (ledger Anyone).Reachable s ∧
    s.waiters = [Sample.leaseC, Sample.leaseD, Sample.leaseE] ∧
    s.inventory.ready = [⟨3, "third"⟩] ∧ dispatchWaiters Sample.deserted s = .ok t ∧
    Dispatched Sample.deserted s (s.matching Sample.deserted) s t ∧
    t.waiters = [Sample.leaseE] ∧
    t.leases.lookup Sample.leaseD = some ⟨⟨3, "third"⟩, 1, 4, 4⟩ := by
  obtain ⟨s, hs, hc, hw, hr, hwaiting, hm, hmax⟩ := Sample.reached Sample.queued
    (fun s => 3 ∈ s.inventory.creating ∧
      s.waiters = [Sample.leaseC, Sample.leaseD, Sample.leaseE] ∧
      (s.inventory.completeCreation 3 (.ok "third")).2.ready = [⟨3, "third"⟩] ∧
      (({ s with inventory := (s.inventory.completeCreation 3 (.ok "third")).2 } :
          WorkerEngine Nat).matching Sample.deserted).waiting = [Sample.leaseE] ∧
      (({ s with inventory := (s.inventory.completeCreation 3 (.ok "third")).2 } :
          WorkerEngine Nat).matching Sample.deserted).matched.map
        (fun x => (x.group, s.entryOf Sample.deserted x)) =
          [(Sample.leaseD, ⟨⟨3, "third"⟩, 1, 4, 4⟩)] ∧
      s.nextGeneration + 3 ≤ u64Max) (by decide)
  have hs' := ((engine_refines Nat Sample.settings).reachable hs).1.step
    (Move.settle (.ok "third") hc)
  obtain ⟨hex, hall⟩ := dispatch_is_matching hs' Sample.deserted
  obtain ⟨t, ht⟩ := hex (by show s.nextGeneration + s.waiters.length ≤ _; rw [hw]; exact hmax)
  have hd := (hall t ht).1
  refine ⟨_, t, hs', hw, hr, ht, hd, hd.waiters.trans hwaiting, ?_⟩
  have hx : (Sample.leaseD, (⟨⟨3, "third"⟩, 1, 4, 4⟩ : LeaseEntry)) ∈
      (({ s with inventory := (s.inventory.completeCreation 3 (.ok "third")).2 } :
          WorkerEngine Nat).matching Sample.deserted).matched.map
        (fun x => (x.group, s.entryOf Sample.deserted x)) := by
    rw [hm]
    exact List.mem_cons_self
  obtain ⟨x, hx, he⟩ := List.mem_map.mp hx
  have hassigned := hd.assigned x hx
  injection he with h1 h2
  rw [h1] at hassigned
  rw [hassigned, ← h2]
  rfl

end PgTest.Engine
