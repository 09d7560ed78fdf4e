import PgTest.Engine.Inventory
import PgTest.Lib.Machine

/-!
# Ranges of fresh identifiers

The operations of the inventory in any order, with any arguments, beside the batches
that were reserved.  What comes of these, whether they were cancelled, failed, were
cleaned or are still there, is of no account for the counter, which moves with a
reservation only.  So `perform_cases` has two cases, and in every state the batches
are ranges one after the other that cover `1` to `nextDatabaseId` (`Drawn`).
-/

namespace PgTest.Engine

open PgTest.Lib

inductive InventoryOperation
  | reserveCreations (amount : Nat)
  | cancelCreation (databaseId : Nat)
  | completeCreation (databaseId : Nat) (result : Except PostgresDDLClientError ReadString)
  | takeReady
  | returnReady (database : Database)
  | retire (database : Database)
  | completeCleanup (databaseId : Nat) (result : Except PostgresDDLClientError Unit)

/-- An inventory, and the batches that were reserved from it, the last one first. -/
structure Reservations where
  inventory : DatabaseInventory
  reserved : List CreateDatabases

namespace Reservations

/-- An operation, also where it panics.  Without the debug assertions of a build
`return_ready` and `retire` go on where they would fail. -/
def perform (checked : Bool) (s : Reservations) : InventoryOperation → Reservations
  | .reserveCreations amount =>
    match s.inventory.reserveCreations amount with
    | (.ok (some request), inventory) => ⟨inventory, request :: s.reserved⟩
    | (_, inventory) => { s with inventory := inventory }
  | .cancelCreation databaseId =>
    { s with inventory := (s.inventory.cancelCreation databaseId).2 }
  | .completeCreation databaseId result =>
    { s with inventory := (s.inventory.completeCreation databaseId result).2 }
  | .takeReady => { s with inventory := s.inventory.takeReady.2 }
  | .returnReady database =>
    if checked && s.inventory.contains database.databaseId then s
    else { s with inventory := { s.inventory with ready := database :: s.inventory.ready } }
  | .retire database =>
    if checked && s.inventory.contains database.databaseId then s
    else { s with inventory := { s.inventory with
      retiring := s.inventory.retiring.insert database.databaseId database.databaseName } }
  | .completeCleanup databaseId result =>
    { s with inventory := (s.inventory.completeCleanup databaseId result).2 }

/-- The operations on an inventory, from the default one. -/
def machine (checked : Bool) : Machine Reservations InventoryOperation where
  init s := s = ⟨.default, []⟩
  step s operation t := t = s.perform checked operation

variable {s t : Reservations} {checked : Bool} {operation : InventoryOperation}

/-- With the assertions, the two operations are those of the inventory. -/
theorem perform_returnReady (s : Reservations) (database : Database) :
    s.perform true (.returnReady database) =
      match s.inventory.returnReady database with
      | .ok inventory => { s with inventory := inventory }
      | .error _ => s := by
  unfold perform DatabaseInventory.returnReady
  by_cases h : s.inventory.contains database.databaseId <;> simp [h]

theorem perform_retire (s : Reservations) (database : Database) :
    s.perform true (.retire database) =
      match s.inventory.retire database with
      | .ok (_, inventory) => { s with inventory := inventory }
      | .error _ => s := by
  unfold perform DatabaseInventory.retire
  by_cases h : s.inventory.contains database.databaseId <;> simp [h]

/-! ### What an operation does to the counter -/

/-- The batch that `reserve_creations` returns next. -/
def next (s : Reservations) (amount : Nat) : CreateDatabases :=
  ⟨s.inventory.nextDatabaseId + 1, amount⟩

/-- The inventory after it. -/
def reservedNext (s : Reservations) (amount : Nat) : DatabaseInventory :=
  { s.inventory with
    creating := s.inventory.creating ∪ (s.next amount).ids
    nextDatabaseId := s.inventory.nextDatabaseId + amount }

theorem reserveCreations_fits {amount : Nat} (hpos : 0 < amount)
    (hfits : s.inventory.nextDatabaseId + amount ≤ u64Max) :
    s.inventory.reserveCreations amount =
      (.ok (some (s.next amount)), s.reservedNext amount) := by
  rw [DatabaseInventory.reserveCreations_eq _ (Nat.pos_iff_ne_zero.mp hpos), if_pos hfits]
  rfl

theorem reserveCreations_exceeds {amount : Nat} (hpos : 0 < amount)
    (hexceeds : u64Max < s.inventory.nextDatabaseId + amount) :
    s.inventory.reserveCreations amount = (.error .databaseIdentityExhausted, s.inventory) := by
  rw [DatabaseInventory.reserveCreations_eq _ (Nat.pos_iff_ne_zero.mp hpos),
    if_neg (Nat.not_le_of_lt hexceeds)]

/-- **An operation reserves the next batch**, or leaves the counter where it is and
adds nothing to `creating`. -/
theorem perform_cases (checked : Bool) (s : Reservations) (operation : InventoryOperation) :
    (∃ amount, operation = .reserveCreations amount ∧ 0 < amount ∧
      s.inventory.nextDatabaseId + amount ≤ u64Max ∧
      s.perform checked operation = ⟨s.reservedNext amount, s.next amount :: s.reserved⟩) ∨
    ((s.perform checked operation).inventory.nextDatabaseId = s.inventory.nextDatabaseId ∧
      (s.perform checked operation).inventory.creating ⊆ s.inventory.creating ∧
      (s.perform checked operation).reserved = s.reserved) := by
  cases operation with
  | reserveCreations amount =>
    rcases Nat.eq_zero_or_pos amount with rfl | hpos
    · exact Or.inr ⟨rfl, Finset.Subset.refl _, rfl⟩
    · by_cases hfits : s.inventory.nextDatabaseId + amount ≤ u64Max
      · refine Or.inl ⟨amount, rfl, hpos, hfits, ?_⟩
        simp only [perform, reserveCreations_fits hpos hfits]
      · right
        simp [perform, reserveCreations_exceeds hpos (Nat.lt_of_not_le hfits)]
  | cancelCreation databaseId =>
    exact Or.inr ⟨rfl, Finset.erase_subset _ _, rfl⟩
  | completeCreation databaseId result =>
    right
    unfold perform DatabaseInventory.completeCreation
    by_cases h : databaseId ∈ s.inventory.creating
    · cases result with
      | ok databaseName => simp [h, Finset.erase_subset]
      | error error => simp [h, Finset.erase_subset]
    · simp [h]
  | takeReady =>
    right
    unfold perform DatabaseInventory.takeReady
    cases s.inventory.ready <;> simp
  | returnReady database =>
    right
    by_cases h : (checked && s.inventory.contains database.databaseId) = true <;>
      simp [perform, h]
  | retire database =>
    right
    by_cases h : (checked && s.inventory.contains database.databaseId) = true <;>
      simp [perform, h]
  | completeCleanup databaseId result =>
    right
    unfold perform DatabaseInventory.completeCleanup
    by_cases h : databaseId ∈ s.inventory.retiring
    · cases result with
      | ok _ => simp [h]
      | error error => simp [h]
    · simp [h]

/-! ### What was drawn -/

/-- The batches are ranges of `1` to `nextDatabaseId`, one after the other, and what
is being created is in one of them. -/
structure Drawn (s : Reservations) : Prop where
  fits : s.inventory.nextDatabaseId ≤ u64Max
  covers : ∀ id, (∃ request ∈ s.reserved, id ∈ request.ids) ↔
    0 < id ∧ id ≤ s.inventory.nextDatabaseId
  ordered : s.reserved.Pairwise fun later earlier =>
    ∀ old ∈ earlier.ids, ∀ id ∈ later.ids, old < id
  creating : ∀ id ∈ s.inventory.creating, ∃ request ∈ s.reserved, id ∈ request.ids

theorem mem_next {amount id : Nat} : id ∈ (s.next amount).ids ↔
    s.inventory.nextDatabaseId < id ∧ id ≤ s.inventory.nextDatabaseId + amount := by
  rw [DatabaseInventory.mem_ids]
  show s.inventory.nextDatabaseId + 1 ≤ id ∧ id < s.inventory.nextDatabaseId + 1 + amount ↔ _
  omega

namespace Drawn

theorem default : Drawn ⟨.default, []⟩ := by
  refine ⟨Nat.zero_le _, fun id => ?_, .nil, fun id h => ?_⟩
  · simp only [DatabaseInventory.default, List.not_mem_nil, false_and, exists_false, false_iff]
    omega
  · cases h

/-- Every identifier that was drawn is below the next one. -/
theorem le_of_mem (h : s.Drawn) {request : CreateDatabases} (hr : request ∈ s.reserved) {old : Nat}
    (ho : old ∈ request.ids) : old ≤ s.inventory.nextDatabaseId :=
  ((h.covers old).mp ⟨request, hr, ho⟩).2

theorem le_of_creating (h : s.Drawn) {id : Nat} (hc : id ∈ s.inventory.creating) :
    id ≤ s.inventory.nextDatabaseId := by
  obtain ⟨request, hr, hid⟩ := h.creating id hc
  exact h.le_of_mem hr hid

theorem reserve (h : s.Drawn) {amount : Nat}
    (hfits : s.inventory.nextDatabaseId + amount ≤ u64Max) :
    Drawn ⟨s.reservedNext amount, s.next amount :: s.reserved⟩ := by
  refine ⟨hfits, fun id => ?_, ?_, fun id hid => ?_⟩
  · have hcovers := h.covers id
    rw [List.exists_mem_cons_iff, mem_next, hcovers]
    simp only [reservedNext]
    omega
  · refine List.pairwise_cons.mpr ⟨fun earlier he old ho id hid => ?_, h.ordered⟩
    have hold := h.le_of_mem he ho
    have hnew := (mem_next.mp hid).1
    omega
  · rcases Finset.mem_union.mp hid with hid | hid
    · obtain ⟨request, hr, hmem⟩ := h.creating id hid
      exact ⟨request, List.mem_cons_of_mem _ hr, hmem⟩
    · exact ⟨_, List.mem_cons_self, hid⟩

theorem perform (h : s.Drawn) (checked : Bool) (operation : InventoryOperation) :
    (s.perform checked operation).Drawn := by
  rcases perform_cases checked s operation with
    ⟨amount, _, _, hfits, heq⟩ | ⟨hnext, hcreating, hreserved⟩
  · rw [heq]
    exact h.reserve hfits
  · constructor
    · rw [hnext]
      exact h.fits
    · rw [hnext, hreserved]
      exact h.covers
    · rw [hreserved]
      exact h.ordered
    · intro id hid
      rw [hreserved]
      exact h.creating id (hcreating hid)

/-- **After any operations** the batches are ranges one after the other. -/
theorem reachable (h : (machine checked).Reachable s) : s.Drawn := by
  refine h.invariant (fun s hs => ?_) fun s operation t _ hs ht => ?_
  · obtain rfl := hs
    exact .default
  · obtain rfl := ht
    exact hs.perform checked operation

end Drawn

/-! ### Reserving -/

/-- A batch of an amount that nothing was drawn from before, and the inventory after
it. -/
structure FreshRange (s : Reservations) (amount : Nat) (request : CreateDatabases)
    (inventory : DatabaseInventory) : Prop where
  amount_eq : request.amount = amount
  range : request.ids =
    Finset.Icc (s.inventory.nextDatabaseId + 1) (s.inventory.nextDatabaseId + amount)
  fresh : ∀ earlier ∈ s.reserved, ∀ old ∈ earlier.ids, ∀ id ∈ request.ids, old < id
  added : inventory = { s.inventory with
    creating := s.inventory.creating ∪ request.ids
    nextDatabaseId := s.inventory.nextDatabaseId + amount }
  new : Disjoint s.inventory.creating request.ids
  /-- `database_id` returns the identifiers in their order. -/
  numbers : ∀ index < amount, request.databaseIdAt index =
    .ok (s.inventory.nextDatabaseId + 1 + index) ∧
      s.inventory.nextDatabaseId + 1 + index ≤ u64Max
  injective : ∀ i < amount, ∀ j < amount,
    request.databaseIdAt i = request.databaseIdAt j → i = j

theorem databaseIdAt_next {amount index : Nat}
    (hfits : s.inventory.nextDatabaseId + amount ≤ u64Max) (hi : index < amount) :
    (s.next amount).databaseIdAt index = .ok (s.inventory.nextDatabaseId + 1 + index) := by
  apply DatabaseInventory.databaseIdAt_ok
  · exact hi
  · show s.inventory.nextDatabaseId + 1 + index ≤ u64Max
    omega

theorem Drawn.freshRange (h : s.Drawn) {amount : Nat}
    (hfits : s.inventory.nextDatabaseId + amount ≤ u64Max) :
    FreshRange s amount (s.next amount) (s.reservedNext amount) := by
  refine ⟨rfl, ?_, fun earlier he old ho id hid => ?_, rfl, ?_, fun index hi => ?_,
    fun i hi j hj heq => ?_⟩
  · ext id
    rw [mem_next, Finset.mem_Icc, Nat.succ_le_iff]
  · have hold := h.le_of_mem he ho
    have hnew := (mem_next.mp hid).1
    omega
  · rw [Finset.disjoint_left]
    intro id hc hid
    have hold := h.le_of_creating hc
    have hnew := (mem_next.mp hid).1
    omega
  · exact ⟨databaseIdAt_next hfits hi, by omega⟩
  · rw [databaseIdAt_next hfits hi, databaseIdAt_next hfits hj] at heq
    exact Nat.add_left_cancel (Except.ok.inj heq)

end Reservations

open Reservations

/-- **Reserved ranges are fresh**, after any operations on an inventory.  Where so many
identifiers are left, the batch is the next range, above every identifier that was
reserved before, and `creating` has it in addition.  Where they are not, nothing is
changed, and a smaller batch that fits is reserved afterwards, with the last
identifier of all where it ends there. -/
theorem reserved_ranges_fresh {checked : Bool} {s : Reservations}
    (h : (machine checked).Reachable s) {amount : Nat} (hpos : 0 < amount) :
    (s.inventory.nextDatabaseId + amount ≤ u64Max → ∃ request inventory,
      s.inventory.reserveCreations amount = (.ok (some request), inventory) ∧
        FreshRange s amount request inventory) ∧
    (u64Max < s.inventory.nextDatabaseId + amount →
      s.inventory.reserveCreations amount = (.error .databaseIdentityExhausted, s.inventory) ∧
        ∀ smaller, 0 < smaller → s.inventory.nextDatabaseId + smaller ≤ u64Max →
          ∃ request inventory,
            (s.inventory.reserveCreations amount).2.reserveCreations smaller =
              (.ok (some request), inventory) ∧
            FreshRange s smaller request inventory ∧
            (s.inventory.nextDatabaseId + smaller = u64Max → u64Max ∈ request.ids)) := by
  have hdrawn := Drawn.reachable h
  refine ⟨fun hfits => ?_, fun hexceeds => ?_⟩
  · exact ⟨_, _, reserveCreations_fits hpos hfits, hdrawn.freshRange hfits⟩
  · have hfail := reserveCreations_exceeds hpos hexceeds
    refine ⟨hfail, fun smaller hsmaller hfits => ?_⟩
    rw [hfail]
    refine ⟨_, _, reserveCreations_fits hsmaller hfits, hdrawn.freshRange hfits, fun hlast => ?_⟩
    rw [mem_next]
    omega

/-- Three identifiers, of which one was cancelled, one failed and one is ready. -/
theorem reserved_ranges_fresh_fourth : ∃ s request inventory,
    (machine true).Reachable s ∧
      s.inventory.reserveCreations 2 = (.ok (some request), inventory) ∧
      request.ids = Finset.Icc 4 5 ∧ inventory.creating = {4, 5} := by
  let operations : List InventoryOperation := [.reserveCreations 3, .cancelCreation 1,
    .completeCreation 2 (.error (.operationFailed "no template")),
    .completeCreation 3 (.ok "third")]
  have hrun : (machine true).Reachable (operations.foldl (perform true) ⟨.default, []⟩) :=
    ⟨_, operations, rfl, .cons rfl (.cons rfl (.cons rfl (.single rfl)))⟩
  obtain ⟨request, inventory, hok, hrange⟩ :=
    (reserved_ranges_fresh hrun (Nat.succ_pos 1)).1 (by decide)
  refine ⟨_, request, inventory, hrun, hok, hrange.range, ?_⟩
  rw [hrange.added, hrange.range]
  decide

/-- One identifier is left: two are refused, and it is reserved afterwards. -/
example :
    let inventory : DatabaseInventory := { DatabaseInventory.default with
      nextDatabaseId := u64Max - 1 }
    inventory.reserveCreations 2 = (.error .databaseIdentityExhausted, inventory) ∧
      (inventory.reserveCreations 1).2.creating = {u64Max} := by decide

end PgTest.Engine
