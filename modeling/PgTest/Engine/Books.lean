import PgTest.Engine.Ledger

/-!
# The books: every identifier in one place

`held` lists the databases that exist as far as the engine knows, those of
`ready`, of the leases and of `retiring`, with their names; `ids` adds the
identifiers being created.  `Books` says that no identifier occurs twice and
none is above `nextDatabaseId`.

`Move.held` says what each atomic change does to `held`: a successful creation
adds its database, an accepted cleanup takes its database away, and everything
else moves databases around.
-/

namespace PgTest.Engine

open PgTest.Lib

variable {C : Type} {Q : LeaseId → C → Prop}

namespace WorkerEngine

/-- The databases of the leases. -/
def leased (s : WorkerEngine C) : Multiset Database :=
  image (fun _ entry => entry.database) s.leases

/-- Every database that was created and not yet dropped. -/
def held (s : WorkerEngine C) : Multiset Database := s.inventory.held + s.leased

/-- Every identifier, as often as it occurs. -/
def ids (s : WorkerEngine C) : Multiset Nat :=
  s.inventory.creating.val + s.held.map Database.databaseId

/-- **The books are in order**: no identifier is in two places, and all were
reserved. -/
def Books (s : WorkerEngine C) : Prop :=
  s.ids.Nodup ∧ ∀ id ∈ s.ids, id ≤ s.inventory.nextDatabaseId

theorem mem_leased {s : WorkerEngine C} {database : Database} :
    database ∈ s.leased ↔
      ∃ lease entry, s.leases.lookup lease = some entry ∧ entry.database = database :=
  mem_image

theorem mem_held {s : WorkerEngine C} {database : Database} :
    database ∈ s.held ↔ database ∈ s.inventory.ready ∨
      s.inventory.retiring.lookup database.databaseId = some database.databaseName ∨
      ∃ lease entry, s.leases.lookup lease = some entry ∧ entry.database = database := by
  rw [held, DatabaseInventory.held, Multiset.mem_add, Multiset.mem_add, mem_leased, mem_image,
    or_assoc, Multiset.mem_coe]
  refine or_congr_right (or_congr_left ?_)
  constructor
  · rintro ⟨id, name, hl, rfl⟩
    exact hl
  · intro hl
    exact ⟨_, _, hl, rfl⟩

end WorkerEngine

open WorkerEngine

/-! ### What a change does to the databases -/

theorem held_assignment {s : WorkerEngine C} {lease : LeaseId} {database : Database}
    {rest : List Database} {scheduling : List (Event C)} (hl : lease ∉ s.leases)
    (hready : s.inventory.ready = database :: rest) :
    (s.assignment lease database rest scheduling).held = s.held := by
  show ((rest : Multiset Database) + _ + image _ (s.leases.insert lease _)) = _
  rw [image_insert _ _ hl, held, DatabaseInventory.held, leased, hready, ← Multiset.cons_coe,
    Multiset.cons_add, Multiset.cons_add, Multiset.add_cons]
  rfl

theorem held_update {s s' : WorkerEngine C} {lease : LeaseId} {entry entry' : LeaseEntry}
    (hl : s.leases.lookup lease = some entry) (hs : s'.leases = s.leases.insert lease entry')
    (hi : s'.inventory = s.inventory) (hd : entry'.database = entry.database) :
    s'.held = s.held := by
  rw [held, held, leased, leased, hs, hi, image_update _ hl hd]

theorem held_restore {s s' : WorkerEngine C} {lease : LeaseId} {entry : LeaseEntry}
    (hl : s.leases.lookup lease = some entry) (hs : s'.leases = s.leases.erase lease)
    (hi : s'.inventory = { s.inventory with ready := entry.database :: s.inventory.ready }) :
    s'.held = s.held := by
  rw [held, held, leased, leased, hs, hi, image_erase _ hl, DatabaseInventory.held,
    DatabaseInventory.held, ← Multiset.cons_coe, Multiset.cons_add, Multiset.cons_add,
    Multiset.add_cons]

theorem held_retire {s s' : WorkerEngine C} {lease : LeaseId} {entry : LeaseEntry}
    (hl : s.leases.lookup lease = some entry) (hs : s'.leases = s.leases.erase lease)
    (hnew : entry.database.databaseId ∉ s.inventory.retiring)
    (hi : s'.inventory = { s.inventory with
      retiring := s.inventory.retiring.insert entry.database.databaseId
        entry.database.databaseName }) :
    s'.held = s.held := by
  rw [held, held, leased, leased, hs, hi, image_erase _ hl, DatabaseInventory.held,
    DatabaseInventory.held, image_insert _ _ hnew, Multiset.add_cons, Multiset.cons_add,
    Multiset.add_cons]

theorem held_clean {s s' : WorkerEngine C} {databaseId : Nat} {name : ReadString}
    (hr : s.inventory.retiring.lookup databaseId = some name) (hs : s'.leases = s.leases)
    (hi : s'.inventory = { s.inventory with
      retiring := s.inventory.retiring.erase databaseId }) :
    s.held = ⟨databaseId, name⟩ ::ₘ s'.held := by
  rw [held, held, leased, leased, hs, hi, DatabaseInventory.held, DatabaseInventory.held,
    image_erase _ hr, Multiset.add_cons, Multiset.cons_add]

/-- The identifiers in one summand are not in another. -/
theorem WorkerEngine.Books.retiring_of_leased {s : WorkerEngine C} (h : s.Books) {lease : LeaseId}
    {entry : LeaseEntry} (hl : s.leases.lookup lease = some entry) :
    entry.database.databaseId ∉ s.inventory.retiring := by
  intro hr
  obtain ⟨name, hr⟩ := Finmap.mem_iff.mp hr
  have hnd := h.1
  rw [ids, held, DatabaseInventory.held, leased, image_erase _ hr, image_erase _ hl] at hnd
  simp only [Multiset.add_cons, Multiset.cons_add, Multiset.map_cons, Multiset.nodup_cons,
    Multiset.mem_cons, true_or, not_true_eq_false, false_and] at hnd

theorem held_settle {s s' : WorkerEngine C} {databaseId : Nat}
    {result : Except PostgresDDLClientError ReadString} (hc : databaseId ∈ s.inventory.creating)
    (hs : s'.leases = s.leases)
    (hi : s'.inventory = (s.inventory.completeCreation databaseId result).2) :
    s'.inventory.creating = s.inventory.creating.erase databaseId ∧
      s'.inventory.nextDatabaseId = s.inventory.nextDatabaseId ∧
      s'.inventory.retiring = s.inventory.retiring ∧
      (∀ name, result = .ok name →
        s'.inventory.ready = s.inventory.ready ++ [⟨databaseId, name⟩] ∧
        s'.held = ⟨databaseId, name⟩ ::ₘ s.held) ∧
      (∀ error, result = .error error →
        s'.inventory.ready = s.inventory.ready ∧ s'.held = s.held) := by
  rw [DatabaseInventory.completeCreation, if_pos hc] at hi
  cases result with
  | ok name =>
    have hh : s'.held = ⟨databaseId, name⟩ ::ₘ s.held := by
      rw [held, held, leased, leased, hs, hi]
      simp only [DatabaseInventory.held, ← Multiset.coe_add, Multiset.coe_singleton,
        ← Multiset.singleton_add]
      ac_rfl
    rw [hi]
    refine ⟨rfl, rfl, rfl, ?_, by intro e he; cases he⟩
    rintro _ ⟨⟩
    exact ⟨rfl, hh⟩
  | error error =>
    have hh : s'.held = s.held := by
      rw [held, held, leased, leased, hs, hi]; rfl
    rw [hi]
    refine ⟨rfl, rfl, rfl, (by intro e he; cases he), ?_⟩
    rintro _ ⟨⟩
    exact ⟨rfl, hh⟩

/-- **What a change does to the databases that exist.** -/
theorem Move.held {s s' : WorkerEngine C} {a : Act} (h : Move Q s a s') (hb : s.Books) :
    s'.held = s.held ∨
      (∃ database, a = .settle database.databaseId ∧
        database.databaseId ∈ s.inventory.creating ∧ s'.held = database ::ₘ s.held ∧
        s'.history = .created database :: s.history) ∨
      (∃ database, a = .clean database.databaseId ∧ s.held = database ::ₘ s'.held ∧
        s'.history = .cleaned database.databaseId :: s.history) := by
  cases h with
  | count _ _ | note _ | enroll _ _ | close _ _ _ | enqueue _ _ _ _ _ | dequeue _ | reserve _ _ _ _
  | detachIdle _ _ | burn _ _ _ _ _ | shutdown => exact Or.inl rfl
  | assign _ hl _ hready _ _ => exact Or.inl (held_assignment hl hready)
  | attach hl _ _ => exact Or.inl (held_update hl rfl rfl rfl)
  | detach hl _ => exact Or.inl (held_update hl rfl rfl rfl)
  | restore hl _ _ => exact Or.inl (held_restore hl rfl rfl)
  | retire _ hl => exact Or.inl (held_retire hl rfl (hb.retiring_of_leased hl) rfl)
  | settle result hc =>
    obtain ⟨_, _, _, hok, herr⟩ := @held_settle C s { s with
      inventory := (s.inventory.completeCreation _ result).2
      history := settled _ result :: s.history } _ result hc rfl rfl
    cases result with
    | ok name => exact Or.inr (Or.inl ⟨⟨_, name⟩, rfl, hc, (hok name rfl).2, rfl⟩)
    | error error => exact Or.inl (herr error rfl).2
  | clean hr =>
    obtain ⟨name, hr⟩ := Finmap.mem_iff.mp hr
    exact Or.inr (Or.inr ⟨⟨_, name⟩, rfl, held_clean hr rfl rfl, rfl⟩)

/-! ### The books stay in order -/

namespace WorkerEngine

theorem Books.new (config : WorkerEngineConfig) :
    (WorkerEngine.new config : WorkerEngine C).Books :=
  ⟨Multiset.nodup_zero, fun id h => absurd h (Multiset.notMem_zero id)⟩

/-- Fewer identifiers, or as many as before in another order, stay in order. -/
theorem Books.mono {s s' : WorkerEngine C} (h : s.Books) (hids : s'.ids ≤ s.ids)
    (hnext : s.inventory.nextDatabaseId ≤ s'.inventory.nextDatabaseId) : s'.Books := by
  refine ⟨Multiset.nodup_of_le hids h.1, fun id hid => ?_⟩
  exact le_trans (h.2 id (Multiset.mem_of_le hids hid)) hnext

theorem Books.creating_le {s : WorkerEngine C} (h : s.Books) {id : Nat}
    (hid : id ∈ s.inventory.creating) : id ≤ s.inventory.nextDatabaseId :=
  h.2 id (Multiset.mem_add.mpr (Or.inl hid))

theorem Books.held_le {s : WorkerEngine C} (h : s.Books) {database : Database}
    (hd : database ∈ s.held) : database.databaseId ≤ s.inventory.nextDatabaseId :=
  h.2 _ (Multiset.mem_add.mpr (Or.inr (Multiset.mem_map_of_mem _ hd)))

theorem Books.not_creating {s : WorkerEngine C} (h : s.Books) {database : Database}
    (hd : database ∈ s.held) : database.databaseId ∉ s.inventory.creating := by
  intro hc
  have hdis := (Multiset.nodup_add.mp h.1).2.2
  exact Multiset.disjoint_left.mp hdis hc (Multiset.mem_map_of_mem _ hd)

theorem Books.not_ready_of_leased {s : WorkerEngine C} (h : s.Books) {lease : LeaseId}
    {entry : LeaseEntry} (hl : s.leases.lookup lease = some entry) :
    ∀ database ∈ s.inventory.ready, database.databaseId ≠ entry.database.databaseId := by
  intro database hd hid
  have hnd := (Multiset.nodup_add.mp h.1).2.1
  rw [held, DatabaseInventory.held, Multiset.map_add, Multiset.map_add] at hnd
  have hdis := (Multiset.nodup_add.mp hnd).2.2
  have h1 : database.databaseId ∈ (s.inventory.ready : Multiset Database).map Database.databaseId +
      (image (fun databaseId databaseName => Database.mk databaseId databaseName)
        s.inventory.retiring).map Database.databaseId :=
    Multiset.mem_add.mpr (Or.inl (Multiset.mem_map_of_mem _ (Multiset.mem_coe.mpr hd)))
  have h2 : database.databaseId ∈ s.leased.map Database.databaseId := by
    rw [hid]
    exact Multiset.mem_map_of_mem _ (mem_leased.mpr ⟨lease, entry, hl, rfl⟩)
  exact Multiset.disjoint_left.mp hdis h1 h2

/-- **One lease for each identifier.** -/
theorem Books.leased_inj {s : WorkerEngine C} (h : s.Books) {lease lease' : LeaseId}
    {entry entry' : LeaseEntry} (hl : s.leases.lookup lease = some entry)
    (hl' : s.leases.lookup lease' = some entry')
    (hid : entry.database.databaseId = entry'.database.databaseId) : lease = lease' := by
  by_contra hne
  have hnd := (Multiset.nodup_add.mp h.1).2.1
  rw [held, leased, image_erase _ hl',
    image_erase _ (lookup_erase_eq_some.mpr ⟨hne, hl⟩)] at hnd
  simp only [Multiset.add_cons, Multiset.map_cons, Multiset.nodup_cons, Multiset.mem_cons,
    hid, true_or, not_true_eq_false, false_and] at hnd

theorem Books.disjoint_ids {s : WorkerEngine C} (h : s.Books) {request : CreateDatabases}
    (hfirst : request.firstDatabaseId = s.inventory.nextDatabaseId + 1) :
    Disjoint s.inventory.creating request.ids := by
  refine Finset.disjoint_left.mpr fun id hid hr => ?_
  have h1 := h.creating_le hid
  have h2 := (DatabaseInventory.mem_ids.mp hr).1
  omega

theorem Books.reserve {s s' : WorkerEngine C} (h : s.Books) {request : CreateDatabases}
    (hfirst : request.firstDatabaseId = s.inventory.nextDatabaseId + 1)
    (hheld : s'.held = s.held)
    (hc : s'.inventory.creating = s.inventory.creating ∪ request.ids)
    (hnext : s'.inventory.nextDatabaseId = s.inventory.nextDatabaseId + request.amount) :
    s'.Books := by
  have hids : s'.ids = request.ids.val + s.ids := by
    rw [ids, ids, hheld, hc, ← Finset.disjUnion_eq_union _ _ (h.disjoint_ids hfirst),
      Finset.disjUnion_val]
    ac_rfl
  have hmem : ∀ id ∈ request.ids.val,
      s.inventory.nextDatabaseId < id ∧ id ≤ s.inventory.nextDatabaseId + request.amount := by
    intro id hid
    have := DatabaseInventory.mem_ids.mp hid
    omega
  refine ⟨?_, fun id hid => ?_⟩
  · rw [hids]
    refine Multiset.nodup_add.mpr ⟨request.ids.nodup, h.1, Multiset.disjoint_left.mpr ?_⟩
    intro id h1 h2
    have h3 := (hmem id h1).1
    have h4 := h.2 id h2
    omega
  · rw [hids, Multiset.mem_add] at hid
    rw [hnext]
    rcases hid with hid | hid
    · exact (hmem id hid).2
    · exact le_trans (h.2 id hid) (Nat.le_add_right _ _)

/-- **Every change keeps the books in order.** -/
theorem Books.move {s s' : WorkerEngine C} {a : Act} (h : s.Books) (hm : Move Q s a s') :
    s'.Books := by
  have same : s'.held = s.held → s'.inventory.creating = s.inventory.creating →
      s.inventory.nextDatabaseId ≤ s'.inventory.nextDatabaseId → s'.Books := by
    intro hh hc hn
    exact h.mono (le_of_eq (by rw [ids, ids, hh, hc])) hn
  cases hm with
  | count _ _ | note _ | enroll _ _ | close _ _ _ | enqueue _ _ _ _ _ | dequeue _
  | detachIdle _ _ | shutdown =>
    exact same rfl rfl (le_refl _)
  | assign _ hl _ hready _ _ => exact same (held_assignment hl hready) rfl (le_refl _)
  | attach hl _ _ => exact same (held_update hl rfl rfl rfl) rfl (le_refl _)
  | detach hl _ => exact same (held_update hl rfl rfl rfl) rfl (le_refl _)
  | restore hl _ _ => exact same (held_restore hl rfl rfl) rfl (le_refl _)
  | retire _ hl =>
    exact same (held_retire hl rfl (h.retiring_of_leased hl) rfl) rfl (le_refl _)
  | reserve hfirst _ _ _ => exact h.reserve hfirst rfl rfl rfl
  | burn _ _ _ _ _ => exact same rfl rfl (Nat.le_add_right _ _)
  | @settle databaseId result hc =>
    obtain ⟨hcr, hn, _, hok, herr⟩ := @held_settle C s { s with
      inventory := (s.inventory.completeCreation databaseId result).2
      history := settled databaseId result :: s.history } databaseId result hc rfl rfl
    have hval : s.inventory.creating.val =
        databaseId ::ₘ (s.inventory.creating.erase databaseId).val := by
      rw [Finset.erase_val, Multiset.cons_erase hc]
    refine h.mono ?_ (le_of_eq hn.symm)
    rw [ids, ids, hcr, hval]
    cases result with
    | ok name =>
      rw [(hok name rfl).2, Multiset.map_cons, Multiset.cons_add, Multiset.add_cons]
    | error error =>
      rw [(herr error rfl).2, Multiset.cons_add]
      exact Multiset.le_cons_self _ _
  | @clean databaseId hr =>
    obtain ⟨name, hr⟩ := Finmap.mem_iff.mp hr
    have hh := @held_clean C s { s with
      inventory := { s.inventory with retiring := s.inventory.retiring.erase databaseId }
      history := .cleaned databaseId :: s.history } databaseId name hr rfl rfl
    refine h.mono ?_ (le_refl _)
    rw [ids, ids, hh, Multiset.map_cons, Multiset.add_cons]
    exact Multiset.le_cons_self _ _

end WorkerEngine

end PgTest.Engine
