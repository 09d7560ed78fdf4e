import PgTest.Engine.Refinement

/-!
# Conservation of databases

Every database the engine was told of and has not dropped is in exactly one
place, under its own name, and its cleanup is requested once, by the step that
takes it from its lease.
-/

namespace PgTest.Engine

open PgTest.Lib WorkerEngine

variable {C : Type} {config : WorkerEngineConfig} {s t : WorkerEngine C}

/-- Where an existing database can be. -/
inductive Place
  | ready
  | leased (lease : LeaseId)
  | retiring
  deriving DecidableEq

/-- The database is at the place, under its name. -/
def WorkerEngine.At (s : WorkerEngine C) (database : Database) : Place → Prop
  | .ready => database ∈ s.inventory.ready
  | .leased lease => ∃ entry, s.leases.lookup lease = some entry ∧ entry.database = database
  | .retiring => s.inventory.retiring.lookup database.databaseId = some database.databaseName

theorem exists_at {database : Database} : (∃ place, s.At database place) ↔ database ∈ s.held := by
  rw [mem_held]
  constructor
  · rintro ⟨place, hp⟩
    cases place with
    | ready => exact Or.inl hp
    | retiring => exact Or.inr (Or.inl hp)
    | leased lease =>
      obtain ⟨entry, hl, hd⟩ := hp
      exact Or.inr (Or.inr ⟨lease, entry, hl, hd⟩)
  · rintro (hp | hp | ⟨lease, entry, hl, hd⟩)
    · exact ⟨.ready, hp⟩
    · exact ⟨.retiring, hp⟩
    · exact ⟨.leased lease, entry, hl, hd⟩

/-- **One place.**  Two places of one identifier are the same. -/
theorem WorkerEngine.Books.at_unique (h : s.Books) {database : Database} {p p' : Place}
    (hp : s.At database p) (hp' : s.At database p') : p = p' := by
  have ready_retiring : database ∈ s.inventory.ready →
      s.inventory.retiring.lookup database.databaseId = some database.databaseName → False := by
    intro h1 h2
    have hnd := (Multiset.nodup_add.mp h.1).2.1
    rw [held, DatabaseInventory.held, image_erase _ h2, Multiset.add_cons, Multiset.cons_add,
      Multiset.map_cons, Multiset.nodup_cons] at hnd
    refine hnd.1 (Multiset.mem_map.mpr ⟨database, ?_, rfl⟩)
    exact Multiset.mem_add.mpr (Or.inl (Multiset.mem_add.mpr (Or.inl h1)))
  have ready_leased : ∀ lease entry, database ∈ s.inventory.ready →
      s.leases.lookup lease = some entry → entry.database = database → False := by
    intro lease entry h1 h2 h3
    exact h.not_ready_of_leased h2 database h1 (by rw [h3])
  have retiring_leased : ∀ lease entry,
      s.inventory.retiring.lookup database.databaseId = some database.databaseName →
      s.leases.lookup lease = some entry → entry.database = database → False := by
    intro lease entry h1 h2 h3
    exact h.retiring_of_leased h2 (h3 ▸ mem_of_lookup h1)
  cases p with
  | ready =>
    cases p' with
    | ready => rfl
    | retiring => exact (ready_retiring hp hp').elim
    | leased lease =>
      obtain ⟨entry, hl, hd⟩ := hp'
      exact (ready_leased lease entry hp hl hd).elim
  | retiring =>
    cases p' with
    | ready => exact (ready_retiring hp' hp).elim
    | retiring => rfl
    | leased lease =>
      obtain ⟨entry, hl, hd⟩ := hp'
      exact (retiring_leased lease entry hp hl hd).elim
  | leased lease =>
    obtain ⟨entry, hl, hd⟩ := hp
    cases p' with
    | ready => exact (ready_leased lease entry hp' hl hd).elim
    | retiring => exact (retiring_leased lease entry hp' hl hd).elim
    | leased lease' =>
      obtain ⟨entry', hl', hd'⟩ := hp'
      rw [h.leased_inj hl hl' (by rw [hd, hd'])]

/-! ### The life of a database, event by event -/

theorem created_iff {database : Database} :
    .created database ∈ s.life ↔ .created database ∈ s.history := by
  constructor
  · intro h
    obtain ⟨event, he, hl⟩ := List.mem_filterMap.mp h
    cases event <;>
      simp only [Event.life, reduceCtorEq, Option.some.injEq, Life.created.injEq] at hl
    rw [← hl]
    exact he
  · intro h
    exact List.mem_filterMap.mpr ⟨_, h, rfl⟩

theorem cleaned_iff {databaseId : Nat} :
    .dropped databaseId ∈ s.life ↔ .cleaned databaseId ∈ s.history := by
  constructor
  · intro h
    obtain ⟨event, he, hl⟩ := List.mem_filterMap.mp h
    cases event <;>
      simp only [Event.life, reduceCtorEq, Option.some.injEq, Life.dropped.injEq] at hl
    rw [← hl]
    exact he
  · intro h
    exact List.mem_filterMap.mpr ⟨_, h, rfl⟩

theorem cleanup_requested_iff {events : List (Event C)} {request : CleanupDatabase} :
    .cleanup request ∈ events.filterMap Event.life ↔
      ∃ accepted, .requestedCleanup request accepted ∈ events := by
  constructor
  · intro h
    obtain ⟨event, he, hl⟩ := List.mem_filterMap.mp h
    cases event <;>
      simp only [Event.life, reduceCtorEq, Option.some.injEq, Life.cleanup.injEq] at hl
    rw [← hl]
    exact ⟨_, he⟩
  · rintro ⟨accepted, h⟩
    exact List.mem_filterMap.mpr ⟨_, h, rfl⟩

/-- The identifier whose cleanup an event requests. -/
def Event.cleanupId : Event C → Option Nat
  | .requestedCleanup request _ => some request.databaseId
  | _ => none

/-- **One cleanup for each identifier.** -/
theorem WorkerEngine.Lifecycle.cleanup_once (h : s.Lifecycle) :
    (s.history.filterMap Event.cleanupId).Nodup := by
  have hlife : s.history.Pairwise fun e e' =>
      ∀ x, e.life = some x → ∀ x', e'.life = some x' → x ≠ x' := by
    have hnd := h.once
    rw [life, List.Nodup, List.pairwise_filterMap] at hnd
    exact hnd
  rw [List.Nodup, List.pairwise_filterMap]
  refine hlife.imp_of_mem ?_
  intro e e' he he' hne id hid id' hid' heq
  cases e <;> simp only [Event.cleanupId, reduceCtorEq, Option.some.injEq] at hid
  cases e' <;> simp only [Event.cleanupId, reduceCtorEq, Option.some.injEq] at hid'
  rename_i r accepted r' accepted'
  have h1 := h.cleanup_created r (List.mem_filterMap.mpr ⟨_, he, rfl⟩)
  have h2 := h.cleanup_created r' (List.mem_filterMap.mpr ⟨_, he', rfl⟩)
  have hdb := h.one_name _ _ h1 h2 (by rw [hid, hid', heq])
  injection hdb with h3 h4
  obtain ⟨i, n⟩ := r
  obtain ⟨i', n'⟩ := r'
  have h3 : i = i' := h3
  have h4 : n = n' := h4
  exact hne _ rfl _ rfl (by rw [h3, h4])

/-! ### The step that retires -/

/-- The messages that may retire a lease. -/
def EngineMessage.Retires (message : EngineMessage C) : Prop :=
  ∃ lease, (∃ reply, message = .releaseLease lease reply) ∨
    ∃ generation, message = .leaseMaxTimeReached lease generation

theorem EngineMessage.Retires.not_serves {message : EngineMessage C} (h : message.Retires) :
    ¬message.Serves := by
  obtain ⟨lease, ⟨reply, rfl⟩ | ⟨generation, rfl⟩⟩ := h
  · exact id
  · exact id

/-- Only `retire` requests a cleanup. -/
theorem WorkerEngine.News.no_cleanup {a : Act} {new : List (Event C)} (h : s.News a new)
    (ha : ∀ lease generation, a ≠ .retire lease generation) (request : CleanupDatabase)
    (accepted : Bool) : .requestedCleanup request accepted ∉ new := by
  intro hq
  cases h with
  | minor hm => cases (hm _ hq).life
  | attach _ _ | detach _ | created _ _ | cleaned _ => cases List.mem_singleton.mp hq
  | restore _ _ =>
    rcases List.mem_pair.mp hq with hq | hq
    · cases hq
    · cases hq
  | retire _ _ => exact ha _ _ rfl

/-- While a message that retires is handled, the leases with a database are old,
and a cleanup is requested for what one of them gave up. -/
structure Retiring (message : EngineMessage C) (s t : WorkerEngine C)
    (new : List (Event C)) : Prop where
  history : t.history = new ++ s.history
  old : message.Retires → ∀ lease entry, t.leases.lookup lease = some entry →
    ∃ entry₀, s.leases.lookup lease = some entry₀ ∧ entry₀.database = entry.database
  moved : ∀ request accepted, .requestedCleanup request accepted ∈ new →
    message.Retires ∧ (∃ lease, s.At ⟨request.databaseId, request.databaseName⟩ (.leased lease)) ∧
      t.At ⟨request.databaseId, request.databaseName⟩ .retiring

theorem Retiring.move {message : EngineMessage C} {base : Nat} {a : Act} {s₁ t₁ : WorkerEngine C}
    {new : List (Event C)} (h : Retiring message s s₁ new) (hinv : Inv Anyone s₁)
    (ha : a.Handling message base) (hm : Move Anyone s₁ a t₁) :
    ∃ new', Retiring message s t₁ new' := by
  obtain ⟨more, hnews, _, hmore⟩ := hm.news
  have hhist : t₁.history = (more ++ new) ++ s.history := by
    rw [hmore, h.history, List.append_assoc]
  -- most changes request nothing and keep what is retiring
  have plain : (message.Retires → ∀ lease entry, t₁.leases.lookup lease = some entry →
        ∃ entry₀, s₁.leases.lookup lease = some entry₀ ∧ entry₀.database = entry.database) →
      (∀ request accepted, .requestedCleanup request accepted ∉ more) →
      (∀ id name, message.Retires → s₁.inventory.retiring.lookup id = some name →
        t₁.inventory.retiring.lookup id = some name) →
      ∃ new', Retiring message s t₁ new' := by
    intro hold hno hkeep
    refine ⟨more ++ new, hhist, ?_, ?_⟩
    · intro hr lease entry hl
      obtain ⟨e, h1, h2⟩ := hold hr lease entry hl
      obtain ⟨e₀, h3, h4⟩ := h.old hr lease e h1
      exact ⟨e₀, h3, h4.trans h2⟩
    · intro request accepted hq
      rcases List.mem_append.mp hq with hq | hq
      · exact absurd hq (hno request accepted)
      · obtain ⟨hr, h1, h2⟩ := h.moved request accepted hq
        exact ⟨hr, h1, hkeep _ _ hr h2⟩
  have update : ∀ (other : LeaseId) (e : LeaseEntry) (conns : Nat),
      s₁.leases.lookup other = some e → ∀ lease entry,
      (s₁.leases.insert other { e with conns := conns }).lookup lease = some entry →
      ∃ entry₀, s₁.leases.lookup lease = some entry₀ ∧ entry₀.database = entry.database := by
    intro other e conns ho lease entry hl
    obtain ⟨entry₀, h1, _, h2, _⟩ := lookup_update ho hl
    exact ⟨entry₀, h1, h2⟩
  have hno := fun hne => hnews.no_cleanup hne
  cases hm with
  | count _ _ | note _ | enroll _ _ | close _ _ _ | enqueue _ _ _ _ _ | dequeue _ | detachIdle _ _
  | reserve _ _ _ _ | burn _ _ _ _ _ | shutdown =>
    exact plain (fun _ lease entry hl => ⟨entry, hl, rfl⟩) (hno nofun) fun _ _ _ hl => hl
  | settle result hc =>
    refine plain (fun _ lease entry hl => ⟨entry, hl, rfl⟩) (hno nofun) fun _ _ _ hl => ?_
    obtain ⟨_, _, hr, _⟩ := @held_settle C s₁ (s₁.settledWith _ result) _ result hc rfl rfl
    exact (congrArg (Finmap.lookup _) hr).trans hl
  | assign _ _ _ _ _ _ =>
    exact plain (fun hr => absurd ha hr.not_serves) (hno nofun) fun _ _ _ hl => hl
  | attach ho _ _ => exact plain (fun _ => update _ _ _ ho) (hno nofun) fun _ _ _ hl => hl
  | detach ho _ => exact plain (fun _ => update _ _ _ ho) (hno nofun) fun _ _ _ hl => hl
  | restore _ _ _ =>
    refine plain (fun _ lease entry hl => ⟨entry, ?_, rfl⟩) (hno nofun) fun _ _ _ hl => hl
    exact (lookup_erase_eq_some.mp hl).2
  | clean _ =>
    refine plain (fun _ lease entry hl => ⟨entry, hl, rfl⟩) (hno nofun) fun _ _ hr _ => ?_
    obtain ⟨result, rfl⟩ := ha
    obtain ⟨lease, ⟨reply, hr⟩ | ⟨generation, hr⟩⟩ := hr
    · cases hr
    · cases hr
  | @retire lease entry accepted hl =>
    have hret : message.Retires := by
      rcases ha with ha | ha
      · exact ⟨lease, Or.inl ha⟩
      · exact ⟨lease, Or.inr ⟨_, ha⟩⟩
    have hnot := hinv.books.retiring_of_leased hl
    refine ⟨_, hhist, ?_, ?_⟩
    · intro _ other e he
      exact h.old hret other e (lookup_erase_eq_some.mp he).2
    · intro request accepted' hq
      have hins : ∀ id name, s₁.inventory.retiring.lookup id = some name →
          (s₁.inventory.retiring.insert entry.database.databaseId
            entry.database.databaseName).lookup id = some name := by
        intro id name hlook
        refine lookup_insert_eq_some.mpr (Or.inr ⟨?_, hlook⟩)
        rintro rfl
        exact hnot (mem_of_lookup hlook)
      rcases List.mem_append.mp hq with hq | hq
      · have hmore' : [.requestedCleanup ⟨entry.database.databaseId, entry.database.databaseName⟩
            accepted, .cancelled entry.cancellation] ++ s₁.history = more ++ s₁.history := hmore
        rw [← List.append_cancel_right hmore'] at hq
        rcases List.mem_pair.mp hq with hq | hq
        · injection hq with hq _
          rw [hq]
          obtain ⟨entry₀, h1, h2⟩ := h.old hret lease entry hl
          exact ⟨hret, ⟨lease, entry₀, h1, h2⟩, Finmap.lookup_insert _⟩
        · cases hq
      · obtain ⟨hr, h1, h2⟩ := h.moved request accepted' hq
        exact ⟨hr, h1, hins _ _ h2⟩

theorem retiring_path {message : EngineMessage C} {base : Nat} (hinv : Inv Anyone s)
    (hp : Path Anyone (Act.Handling message base) s t) : ∃ new, Retiring message s t new := by
  refine hp.invariant (I := fun t => ∃ new, Retiring message s t new) ?_ hinv
    ⟨[], rfl, fun _ _ entry hl => ⟨entry, hl, rfl⟩, fun _ _ hq => absurd hq List.not_mem_nil⟩
  intro s₁ a t₁ ha hinv₁ hI hm
  obtain ⟨new, hI⟩ := hI
  exact hI.move hinv₁ ha hm

/-- **Conservation.**  No identifier is in two places.  A database that was
created and not dropped is in exactly one place, under its name, and nothing
else is anywhere.  A cleanup is requested at most once for an identifier, under
its name, and by the step that moves the database from a lease to `retiring`. -/
theorem conservation (h : (engine C config).Reachable s) :
    (s.ids.Nodup ∧ ∀ id ∈ s.ids, id ≤ s.inventory.nextDatabaseId) ∧
    (∀ database, .created database ∈ s.history → .cleaned database.databaseId ∉ s.history →
      ∃! place, s.At database place) ∧
    (∀ database place, s.At database place →
      .created database ∈ s.history ∧ .cleaned database.databaseId ∉ s.history) ∧
    (∀ database database', .created database ∈ s.history → .created database' ∈ s.history →
      database.databaseId = database'.databaseId → database = database') ∧
    (s.history.filterMap Event.cleanupId).Nodup ∧
    (∀ request accepted, .requestedCleanup request accepted ∈ s.history →
      .created ⟨request.databaseId, request.databaseName⟩ ∈ s.history) ∧
    (∀ env message t new, processMessage env message s = .ok t → t.history = new ++ s.history →
      ∀ database, (∃ accepted, .requestedCleanup ⟨database.databaseId, database.databaseName⟩
          accepted ∈ new) ↔
        (∃ lease, s.At database (.leased lease)) ∧ t.At database .retiring) := by
  have hinv := (engine_inv h).1
  refine ⟨hinv.books, ?_, ?_, ?_, hinv.lifecycle.cleanup_once, ?_, ?_⟩
  · intro database h1 h2
    have hheld := (hinv.lifecycle.held_iff database).mpr
      ⟨created_iff.mpr h1, fun h3 => h2 (cleaned_iff.mp h3)⟩
    obtain ⟨place, hp⟩ := exists_at.mpr hheld
    exact ⟨place, hp, fun place' hp' => hinv.books.at_unique hp' hp⟩
  · intro database place hp
    obtain ⟨h1, h2⟩ := (hinv.lifecycle.held_iff database).mp (exists_at.mp ⟨place, hp⟩)
    exact ⟨created_iff.mp h1, fun h3 => h2 (cleaned_iff.mpr h3)⟩
  · intro database database' h1 h2
    exact hinv.lifecycle.one_name _ _ (created_iff.mpr h1) (created_iff.mpr h2)
  · intro request accepted hq
    have hlife := cleanup_requested_iff.mpr ⟨accepted, hq⟩
    exact created_iff.mp (hinv.lifecycle.cleanup_created request hlife)
  · intro env message t new hok hnew database
    have hp := engine_step h hok
    have hinv' := hp.inv hinv
    constructor
    · rintro ⟨accepted, hq⟩
      obtain ⟨new', hret⟩ := retiring_path hinv hp
      have hhist := hret.history
      rw [hnew] at hhist
      rw [List.append_cancel_right hhist] at hq
      exact (hret.moved _ _ hq).2
    · rintro ⟨⟨lease, hl⟩, hr⟩
      obtain ⟨entry, hl, hd⟩ := hl
      have hid : database.databaseId ∈ t.inventory.retiring := mem_of_lookup hr
      obtain ⟨name, hq⟩ := (hinv'.lifecycle.cleanup_iff _).mpr (Or.inl hid)
      have hcr : .created database ∈ t.life :=
        ((hinv'.lifecycle.held_iff database).mp (exists_at.mp ⟨.retiring, hr⟩)).1
      have hname := hinv'.lifecycle.one_name _ _ (hinv'.lifecycle.cleanup_created _ hq) hcr rfl
      have hname : name = database.databaseName := congrArg Database.databaseName hname
      rw [hname, life, hnew, List.filterMap_append, List.mem_append] at hq
      rcases hq with hq | hq
      · exact cleanup_requested_iff.mp hq
      · -- a cleanup requested before would have found the database elsewhere
        have hold := (hinv.lifecycle.cleanup_iff database.databaseId).mp ⟨_, hq⟩
        rcases hold with hold | hold
        · rw [← hd] at hold
          exact absurd hold (hinv.books.retiring_of_leased hl)
        · have hheld : database ∈ s.held := exists_at.mp ⟨.leased lease, entry, hl, hd⟩
          exact absurd hold ((hinv.lifecycle.held_iff database).mp hheld).2

/-- A database of the small engine whose cleanup is pending. -/
theorem conservation_after_release : ∃ s : WorkerEngine Nat,
    (engine Nat Sample.settings).Reachable s ∧ ∃! place, s.At ⟨1, "first"⟩ place := by
  obtain ⟨s, hs, h1, h2⟩ := Sample.reached
    [.attachOrJoin Sample.leaseA 0 0, .releaseLease Sample.leaseA 1]
    (fun s => .created ⟨1, "first"⟩ ∈ s.history ∧ .cleaned 1 ∉ s.history) (by decide)
  exact ⟨s, hs, (conservation hs).2.1 _ h1 h2⟩

end PgTest.Engine
