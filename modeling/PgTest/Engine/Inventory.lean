import Mathlib.Order.Interval.Finset.Nat
import PgTest.Engine.Message
import PgTest.Lib.Images

/-!
# The database inventory

`DatabaseInventory` with its operations, and one lemma for each operation that
says what it does to the databases the inventory holds.  Identifiers come from
`nextDatabaseId`, which only `reserveCreations` moves; a checked-out database
(one that `takeReady` returned) belongs to the caller until `returnReady` or
`retire` brings it back.

`held` lists the databases of `ready` and `retiring` with their names; `ids`
lists every identifier the inventory knows.
-/

namespace PgTest.Engine

open PgTest.Lib

/-- `CreateDatabases::database_id`. -/
def CreateDatabases.databaseIdAt (request : CreateDatabases) (index : Nat) :
    Except Panic Nat :=
  if request.amount ≤ index then .error .creationIndexOutsideBatch
  else if u64Max < request.firstDatabaseId + index then .error .databaseIdentityExhausted
  else .ok (request.firstDatabaseId + index)

/-- The identifiers of a batch. -/
def CreateDatabases.ids (request : CreateDatabases) : Finset Nat :=
  Finset.Ico request.firstDatabaseId (request.firstDatabaseId + request.amount)

structure DatabaseInventory where
  nextDatabaseId : Nat
  creating : Finset Nat
  ready : List Database
  retiring : Finmap (fun _ : Nat => ReadString)
  deriving DecidableEq

/-- `DatabaseInventory::default`. -/
def DatabaseInventory.default : DatabaseInventory where
  nextDatabaseId := 0
  creating := ∅
  ready := []
  retiring := ∅

namespace DatabaseInventory

/-- `creating.extend` over the identifiers of a batch: where one of them panics, those
before it are already in. -/
def extendCreating (request : CreateDatabases) :
    List Nat → Finset Nat → Except Panic Unit × Finset Nat
  | [], creating => (.ok (), creating)
  | index :: indices, creating =>
    match request.databaseIdAt index with
    | .error panic => (.error panic, creating)
    | .ok databaseId => extendCreating request indices (insert databaseId creating)

/-- `reserve_creations`.  The second component is the inventory the call leaves
behind, also where it panics. -/
def reserveCreations (amount : Nat) (inventory : DatabaseInventory) :
    Except Panic (Option CreateDatabases) × DatabaseInventory :=
  if amount = 0 then (.ok none, inventory)
  else if u64Max < inventory.nextDatabaseId + amount then
    (.error .databaseIdentityExhausted, inventory)
  else
    let request : CreateDatabases :=
      { firstDatabaseId := inventory.nextDatabaseId + 1, amount := amount }
    match extendCreating request (List.range amount) inventory.creating with
    | (.error panic, creating) => (.error panic, { inventory with creating := creating })
    | (.ok (), creating) =>
      (.ok (some request),
        { inventory with
          creating := creating
          nextDatabaseId := inventory.nextDatabaseId + amount })

/-- `cancel_creation`. -/
def cancelCreation (databaseId : Nat) (inventory : DatabaseInventory) :
    Bool × DatabaseInventory :=
  (decide (databaseId ∈ inventory.creating),
    { inventory with creating := inventory.creating.erase databaseId })

/-- `complete_creation`. -/
def completeCreation (databaseId : Nat) (result : Except PostgresDDLClientError ReadString)
    (inventory : DatabaseInventory) :
    Option (Except PostgresDDLClientError Unit) × DatabaseInventory :=
  if databaseId ∈ inventory.creating then
    let inventory := { inventory with creating := inventory.creating.erase databaseId }
    match result with
    | .ok databaseName =>
      (some (.ok ()), { inventory with ready := inventory.ready ++ [⟨databaseId, databaseName⟩] })
    | .error error => (some (.error error), inventory)
  else (none, inventory)

/-- `take_ready`. -/
def takeReady (inventory : DatabaseInventory) : Option Database × DatabaseInventory :=
  match inventory.ready with
  | [] => (none, inventory)
  | database :: rest => (some database, { inventory with ready := rest })

/-- `contains`. -/
def contains (databaseId : Nat) (inventory : DatabaseInventory) : Bool :=
  decide (databaseId ∈ inventory.creating)
    || inventory.ready.any (fun database => database.databaseId == databaseId)
    || decide (databaseId ∈ inventory.retiring)

/-- `return_ready`. -/
def returnReady (database : Database) (inventory : DatabaseInventory) :
    Except Panic DatabaseInventory :=
  if inventory.contains database.databaseId then .error .databaseAlreadyInventoried
  else .ok { inventory with ready := database :: inventory.ready }

/-- `retire`. -/
def retire (database : Database) (inventory : DatabaseInventory) :
    Except Panic (CleanupDatabase × DatabaseInventory) :=
  if inventory.contains database.databaseId then .error .databaseAlreadyInventoried
  else
    .ok (⟨database.databaseId, database.databaseName⟩,
      { inventory with
        retiring := inventory.retiring.insert database.databaseId database.databaseName })

/-- `complete_cleanup`. -/
def completeCleanup (databaseId : Nat) (result : Except PostgresDDLClientError Unit)
    (inventory : DatabaseInventory) :
    Option (Except PostgresDDLClientError Unit) × DatabaseInventory :=
  if databaseId ∈ inventory.retiring then
    match result with
    | .ok () =>
      (some (.ok ()), { inventory with retiring := inventory.retiring.erase databaseId })
    | .error error => (some (.error error), inventory)
  else (none, inventory)

/-- `supply_len`. -/
def supplyLen (inventory : DatabaseInventory) : Nat :=
  inventory.ready.length + inventory.creating.card

/-! ### Reservation -/

theorem databaseIdAt_ok {request : CreateDatabases} {index : Nat} (hi : index < request.amount)
    (hmax : request.firstDatabaseId + index ≤ u64Max) :
    request.databaseIdAt index = .ok (request.firstDatabaseId + index) := by
  rw [CreateDatabases.databaseIdAt, if_neg (by omega), if_neg (by omega)]

theorem extendCreating_eq {request : CreateDatabases}
    (hmax : request.firstDatabaseId + request.amount ≤ u64Max + 1) :
    ∀ (indices : List Nat) (creating : Finset Nat), (∀ index ∈ indices, index < request.amount) →
      extendCreating request indices creating =
        (.ok (), creating ∪ (indices.map (request.firstDatabaseId + ·)).toFinset) := by
  intro indices
  induction indices with
  | nil =>
    intro creating _
    simp [extendCreating]
  | cons index indices ih =>
    intro creating hl
    have hi := hl index List.mem_cons_self
    rw [extendCreating, databaseIdAt_ok hi (by omega)]
    show extendCreating request indices (insert (request.firstDatabaseId + index) creating) = _
    rw [ih _ (fun i h => hl i (List.mem_cons_of_mem _ h)), List.map_cons, List.toFinset_cons,
      Finset.insert_union, Finset.union_insert]

theorem toFinset_range_map (first amount : Nat) :
    ((List.range amount).map (first + ·)).toFinset = Finset.Ico first (first + amount) := by
  ext id
  simp only [List.mem_toFinset, List.mem_map, List.mem_range, Finset.mem_Ico]
  constructor
  · rintro ⟨i, hi, rfl⟩; omega
  · rintro ⟨h1, h2⟩; exact ⟨id - first, by omega, by omega⟩

/-- **What a reservation of `amount > 0` does**: it fails and changes nothing,
or it adds the next `amount` identifiers to `creating`. -/
theorem reserveCreations_eq (inventory : DatabaseInventory) {amount : Nat} (h : amount ≠ 0) :
    inventory.reserveCreations amount =
      if inventory.nextDatabaseId + amount ≤ u64Max then
        (.ok (some ⟨inventory.nextDatabaseId + 1, amount⟩),
          { inventory with
            creating := inventory.creating ∪
              (CreateDatabases.mk (inventory.nextDatabaseId + 1) amount).ids
            nextDatabaseId := inventory.nextDatabaseId + amount })
      else (.error .databaseIdentityExhausted, inventory) := by
  rw [reserveCreations, if_neg h]
  by_cases hmax : inventory.nextDatabaseId + amount ≤ u64Max
  · have hids := @extendCreating_eq ⟨inventory.nextDatabaseId + 1, amount⟩
      (show inventory.nextDatabaseId + 1 + amount ≤ u64Max + 1 by omega)
      (List.range amount) inventory.creating (fun i hi => List.mem_range.mp hi)
    rw [if_neg (by omega), if_pos hmax]
    simp only [hids, toFinset_range_map, CreateDatabases.ids]
  · rw [if_pos (by omega), if_neg hmax]

theorem reserveCreations_zero (inventory : DatabaseInventory) :
    inventory.reserveCreations 0 = (.ok none, inventory) := rfl

theorem mem_ids {request : CreateDatabases} {id : Nat} :
    id ∈ request.ids ↔
      request.firstDatabaseId ≤ id ∧ id < request.firstDatabaseId + request.amount :=
  Finset.mem_Ico

@[simp] theorem card_ids (request : CreateDatabases) : request.ids.card = request.amount := by
  rw [CreateDatabases.ids, Nat.card_Ico]; omega

/-! ### What the inventory holds -/

/-- The databases that are ready or being dropped, with their names. -/
def held (inventory : DatabaseInventory) : Multiset Database :=
  (inventory.ready : Multiset Database) +
    image (fun databaseId databaseName => ⟨databaseId, databaseName⟩) inventory.retiring

/-- Every identifier of the inventory, as often as it occurs. -/
def ids (inventory : DatabaseInventory) : Multiset Nat :=
  inventory.creating.val + inventory.held.map Database.databaseId

theorem contains_iff {inventory : DatabaseInventory} {id : Nat} :
    inventory.contains id = true ↔ id ∈ inventory.ids := by
  simp only [contains, ids, held, Bool.or_eq_true, decide_eq_true_eq, List.any_eq_true,
    beq_iff_eq, Multiset.mem_add, Multiset.map_add, Multiset.mem_map, Multiset.mem_coe,
    Finset.mem_val, mem_image, or_assoc]
  constructor
  · rintro (h | h | h)
    · exact Or.inl h
    · exact Or.inr (Or.inl h)
    · obtain ⟨name, hl⟩ := Finmap.mem_iff.mp h
      exact Or.inr (Or.inr ⟨⟨id, name⟩, ⟨id, name, hl, rfl⟩, rfl⟩)
  · rintro (h | h | ⟨_, ⟨id', name, hl, rfl⟩, rfl⟩)
    · exact Or.inl h
    · exact Or.inr (Or.inl h)
    · exact Or.inr (Or.inr (mem_of_lookup hl))

end DatabaseInventory

end PgTest.Engine
