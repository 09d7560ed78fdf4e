import PgTest.Engine.Books
import PgTest.Engine.Chronicle
import PgTest.Engine.Queue

/-!
# Assignments, and what was handed out

`Entries` is what holds of the current assignments: their generations are
distinct and were given out, their tokens are their own and not cancelled.

`Handed` ties the assignments to what consumers were told.  A database that was
handed out for a lease at a generation belongs to that assignment while it
lasts, and is neither created nor ready again, whatever happens later.
-/

namespace PgTest.Engine

open PgTest.Lib

variable {C : Type} {Q : LeaseId → C → Prop}

namespace WorkerEngine

structure Entries (s : WorkerEngine C) : Prop where
  generation_le : ∀ lease entry, s.leases.lookup lease = some entry →
    entry.generation ≤ s.nextGeneration
  generation_inj : ∀ lease entry lease' entry', s.leases.lookup lease = some entry →
    s.leases.lookup lease' = some entry' → entry.generation = entry'.generation → lease = lease'
  token : ∀ lease entry, s.leases.lookup lease = some entry →
    entry.cancellation = entry.generation
  token_live : ∀ lease entry, s.leases.lookup lease = some entry →
    entry.cancellation ∉ s.cancelledTokens
  issued : s.issuedTokens = s.nextGeneration
  cancelled_le : ∀ token ∈ s.cancelledTokens, token ≤ s.issuedTokens
  conns_le : ∀ lease entry, s.leases.lookup lease = some entry → entry.conns ≤ u16Max

theorem lookup_new {config : WorkerEngineConfig} {lease : LeaseId} {entry : LeaseEntry}
    (h : (WorkerEngine.new config : WorkerEngine C).leases.lookup lease = some entry) : False := by
  rw [show (WorkerEngine.new config : WorkerEngine C).leases = ∅ from rfl,
    Finmap.lookup_empty] at h
  cases h

theorem Entries.new (config : WorkerEngineConfig) :
    (WorkerEngine.new config : WorkerEngine C).Entries where
  generation_le := fun _ _ h => (lookup_new h).elim
  generation_inj := fun _ _ _ _ h => (lookup_new h).elim
  token := fun _ _ h => (lookup_new h).elim
  token_live := fun _ _ h => (lookup_new h).elim
  issued := rfl
  cancelled_le := fun token h => absurd h (Finset.notMem_empty token)
  conns_le := fun _ _ h => (lookup_new h).elim

/-- The number of connections of one lease changes. -/
theorem Entries.update {s s' : WorkerEngine C} (h : s.Entries) {lease : LeaseId}
    {entry : LeaseEntry} {conns : Nat} (hl : s.leases.lookup lease = some entry)
    (hc : conns ≤ u16Max)
    (hs : s'.leases = s.leases.insert lease { entry with conns := conns })
    (hn : s'.nextGeneration = s.nextGeneration) (hi : s'.issuedTokens = s.issuedTokens)
    (ht : s'.cancelledTokens = s.cancelledTokens) : s'.Entries := by
  have old : ∀ l e, s'.leases.lookup l = some e → ∃ e₀, s.leases.lookup l = some e₀ ∧
      e.generation = e₀.generation ∧ e.cancellation = e₀.cancellation := by
    intro l e he
    rw [hs] at he
    obtain ⟨e₀, h1, h2, _, h3⟩ := lookup_update hl he
    exact ⟨e₀, h1, h2.symm, h3.symm⟩
  refine ⟨?_, ?_, ?_, ?_, by rw [hi, hn, h.issued], by rw [ht, hi]; exact h.cancelled_le, ?_⟩
  · intro l e he
    obtain ⟨e₀, h1, h2, _⟩ := old l e he
    rw [h2, hn]
    exact h.generation_le l e₀ h1
  · intro l e l' e' he he' hg
    obtain ⟨e₀, h1, h2, _⟩ := old l e he
    obtain ⟨e₁, h3, h4, _⟩ := old l' e' he'
    exact h.generation_inj l e₀ l' e₁ h1 h3 (by rw [← h2, ← h4, hg])
  · intro l e he
    obtain ⟨e₀, h1, h2, h3⟩ := old l e he
    rw [h2, h3]
    exact h.token l e₀ h1
  · intro l e he
    obtain ⟨e₀, h1, _, h3⟩ := old l e he
    rw [h3, ht]
    exact h.token_live l e₀ h1
  · intro l e he
    rw [hs] at he
    rcases lookup_insert_eq_some.mp he with ⟨rfl, rfl⟩ | ⟨_, he⟩
    · exact hc
    · exact h.conns_le l e he

/-- An assignment ends and its token is cancelled. -/
theorem Entries.drop {s s' : WorkerEngine C} (h : s.Entries) {lease : LeaseId}
    {entry : LeaseEntry} (hl : s.leases.lookup lease = some entry)
    (hs : s'.leases = s.leases.erase lease)
    (hn : s'.nextGeneration = s.nextGeneration) (hi : s'.issuedTokens = s.issuedTokens)
    (ht : s'.cancelledTokens = insert entry.cancellation s.cancelledTokens) : s'.Entries := by
  have old : ∀ l e, s'.leases.lookup l = some e → l ≠ lease ∧ s.leases.lookup l = some e := by
    intro l e he
    rw [hs] at he
    exact lookup_erase_eq_some.mp he
  refine ⟨?_, ?_, ?_, ?_, by rw [hi, hn, h.issued], ?_, ?_⟩
  · intro l e he
    rw [hn]
    exact h.generation_le l e (old l e he).2
  · intro l e l' e' he he'
    exact h.generation_inj l e l' e' (old l e he).2 (old l' e' he').2
  · intro l e he
    exact h.token l e (old l e he).2
  · intro l e he
    obtain ⟨hne, he⟩ := old l e he
    rw [ht, Finset.mem_insert, not_or]
    refine ⟨fun heq => hne ?_, h.token_live l e he⟩
    rw [h.token l e he, h.token lease entry hl] at heq
    exact h.generation_inj l e lease entry he hl heq
  · intro token htok
    rw [ht, Finset.mem_insert] at htok
    rw [hi]
    rcases htok with rfl | htok
    · rw [h.token lease entry hl, h.issued]
      exact h.generation_le lease entry hl
    · exact h.cancelled_le token htok
  · intro l e he
    exact h.conns_le l e (old l e he).2

theorem Entries.assign {s : WorkerEngine C} (h : s.Entries) {lease : LeaseId}
    {database : Database} {rest : List Database} {scheduling : List (Event C)} :
    (s.assignment lease database rest scheduling).Entries := by
  have old : ∀ l e, (s.assignment lease database rest scheduling).leases.lookup l = some e →
      (l = lease ∧ e.generation = s.nextGeneration + 1 ∧ e.cancellation = s.issuedTokens + 1 ∧
        e.conns = 0) ∨ s.leases.lookup l = some e := by
    intro l e he
    rcases lookup_insert_eq_some.mp he with ⟨rfl, rfl⟩ | ⟨_, he⟩
    · exact Or.inl ⟨rfl, rfl, rfl, rfl⟩
    · exact Or.inr he
  have hi := h.issued
  refine ⟨?_, ?_, ?_, ?_, congrArg (· + 1) hi, ?_, ?_⟩
  · intro l e he
    show e.generation ≤ s.nextGeneration + 1
    rcases old l e he with ⟨_, hg, _⟩ | he
    · omega
    · have := h.generation_le l e he
      omega
  · intro l e l' e' he he' hg
    rcases old l e he with ⟨rfl, h1, _⟩ | h1 <;> rcases old l' e' he' with ⟨rfl, h2, _⟩ | h2
    · rfl
    · have := h.generation_le l' e' h2
      omega
    · have := h.generation_le l e h1
      omega
    · exact h.generation_inj l e l' e' h1 h2 hg
  · intro l e he
    rcases old l e he with ⟨_, h1, h2, _⟩ | he
    · omega
    · exact h.token l e he
  · intro l e he
    show e.cancellation ∉ s.cancelledTokens
    rcases old l e he with ⟨_, _, h2, _⟩ | he
    · intro hc
      have := h.cancelled_le _ hc
      omega
    · exact h.token_live l e he
  · intro token ht
    exact Nat.le_succ_of_le (h.cancelled_le token ht)
  · intro l e he
    rcases old l e he with ⟨_, _, _, h3⟩ | he
    · rw [h3]
      exact Nat.zero_le _
    · exact h.conns_le l e he

/-- **Every change keeps the assignments in order.** -/
theorem Entries.move {s s' : WorkerEngine C} {a : Act} (h : s.Entries) (hm : Move Q s a s') :
    s'.Entries := by
  cases hm with
  | count _ _ | note _ | enroll _ _ | close _ _ _ | enqueue _ _ _ _ _ | dequeue _
  | detachIdle _ _ | reserve _ _ _ _ | burn _ _ _ _ _ | settle _ _ | clean _ | shutdown =>
    exact { h with }
  | assign _ _ _ _ _ _ => exact h.assign
  | attach hl hc _ => exact h.update hl hc rfl rfl rfl rfl
  | detach hl _ =>
    exact h.update hl (le_trans (Nat.sub_le _ _) (h.conns_le _ _ hl)) rfl rfl rfl rfl
  | restore hl _ _ => exact h.drop hl rfl rfl rfl rfl
  | retire _ hl => exact h.drop hl rfl rfl rfl rfl

/-! ### What was handed out -/

structure Handed (s : WorkerEngine C) : Prop where
  generation_le : ∀ l g d, (l, g, d) ∈ s.handed → g ≤ s.nextGeneration
  /-- A lease still at the generation holds the database. -/
  current : ∀ l g d entry, (l, g, d) ∈ s.handed → s.leases.lookup l = some entry →
    entry.generation = g → entry.database.databaseId = d
  /-- Who holds the database is the lease it was handed out for. -/
  owner : ∀ l g d l' entry, (l, g, d) ∈ s.handed → s.leases.lookup l' = some entry →
    entry.database.databaseId = d → l' = l ∧ entry.generation = g
  reserved : ∀ l g d, (l, g, d) ∈ s.handed → d ≤ s.inventory.nextDatabaseId
  not_creating : ∀ l g d, (l, g, d) ∈ s.handed → d ∉ s.inventory.creating
  not_ready : ∀ l g d, (l, g, d) ∈ s.handed →
    ∀ database ∈ s.inventory.ready, database.databaseId ≠ d
  /-- One database for one assignment. -/
  unique : ∀ l g d l' g' d', (l, g, d) ∈ s.handed → (l', g', d') ∈ s.handed →
    (d = d' ↔ l = l' ∧ g = g')

theorem Handed.new (config : WorkerEngineConfig) :
    (WorkerEngine.new config : WorkerEngine C).Handed where
  generation_le := fun _ _ _ h => absurd h List.not_mem_nil
  current := fun _ _ _ _ h => absurd h List.not_mem_nil
  owner := fun _ _ _ _ _ h => absurd h List.not_mem_nil
  reserved := fun _ _ _ h => absurd h List.not_mem_nil
  not_creating := fun _ _ _ h => absurd h List.not_mem_nil
  not_ready := fun _ _ _ h => absurd h List.not_mem_nil
  unique := fun _ _ _ _ _ _ h => absurd h List.not_mem_nil

/-- What was handed out is not touched while assignments stay or go, no new
identifier is being created and nothing new is ready. -/
theorem Handed.congr {s s' : WorkerEngine C} (h : s.Handed) (hh : s'.handed = s.handed)
    (hg : s.nextGeneration ≤ s'.nextGeneration)
    (hl : ∀ l e', s'.leases.lookup l = some e' → ∃ e, s.leases.lookup l = some e ∧
      e.generation = e'.generation ∧ e.database = e'.database)
    (hn : s.inventory.nextDatabaseId ≤ s'.inventory.nextDatabaseId)
    (hc : s'.inventory.creating ⊆ s.inventory.creating)
    (hr : ∀ database ∈ s'.inventory.ready, database ∈ s.inventory.ready) : s'.Handed where
  generation_le := fun l g d h1 => le_trans (h.generation_le l g d (hh ▸ h1)) hg
  current := fun l g d e' h1 h2 h3 => by
    obtain ⟨e, h4, h5, h6⟩ := hl l e' h2
    rw [← h6]
    exact h.current l g d e (hh ▸ h1) h4 (by rw [h5, h3])
  owner := fun l g d l' e' h1 h2 h3 => by
    obtain ⟨e, h4, h5, h6⟩ := hl l' e' h2
    rw [← h5]
    exact h.owner l g d l' e (hh ▸ h1) h4 (by rw [h6, h3])
  reserved := fun l g d h1 => le_trans (h.reserved l g d (hh ▸ h1)) hn
  not_creating := fun l g d h1 h2 => h.not_creating l g d (hh ▸ h1) (hc h2)
  not_ready := fun l g d h1 database h2 => h.not_ready l g d (hh ▸ h1) database (hr _ h2)
  unique := fun l g d l' g' d' h1 h2 => h.unique l g d l' g' d' (hh ▸ h1) (hh ▸ h2)

/-- A new generation takes a database that nobody was told of. -/
theorem Handed.assign {s : WorkerEngine C} (h : s.Handed) {lease : LeaseId}
    {database : Database} {rest : List Database} {scheduling : List (Event C)}
    (hready : s.inventory.ready = database :: rest)
    (hh : (s.assignment lease database rest scheduling).handed = s.handed) :
    (s.assignment lease database rest scheduling).Handed where
  generation_le := fun l g d h1 => Nat.le_succ_of_le (h.generation_le l g d (hh ▸ h1))
  current := fun l g d e h1 h2 h3 => by
    rw [hh] at h1
    rcases lookup_insert_eq_some.mp h2 with ⟨rfl, rfl⟩ | ⟨_, h2⟩
    · have hle := h.generation_le l g d h1
      have heq : s.nextGeneration + 1 = g := h3
      omega
    · exact h.current l g d e h1 h2 h3
  owner := fun l g d l' e h1 h2 h3 => by
    rw [hh] at h1
    rcases lookup_insert_eq_some.mp h2 with ⟨rfl, rfl⟩ | ⟨_, h2⟩
    · have hmem : database ∈ s.inventory.ready := hready ▸ List.mem_cons_self
      exact absurd h3 (h.not_ready l g d h1 database hmem)
    · exact h.owner l g d l' e h1 h2 h3
  reserved := fun l g d h1 => h.reserved l g d (hh ▸ h1)
  not_creating := fun l g d h1 => h.not_creating l g d (hh ▸ h1)
  not_ready := fun l g d h1 other h2 =>
    h.not_ready l g d (hh ▸ h1) other (hready ▸ List.mem_cons_of_mem _ h2)
  unique := fun l g d l' g' d' h1 h2 => h.unique l g d l' g' d' (hh ▸ h1) (hh ▸ h2)

/-- Handing out the database of a lease once more. -/
theorem Handed.attach {s s' : WorkerEngine C} (h : s.Handed) (hb : s.Books) (he : s.Entries)
    {lease : LeaseId} {entry : LeaseEntry} {conns : Nat}
    (hl : s.leases.lookup lease = some entry)
    (hs : s'.leases = s.leases.insert lease { entry with conns := conns })
    (hh : s'.handed = (lease, entry.generation, entry.database.databaseId) :: s.handed)
    (hg : s'.nextGeneration = s.nextGeneration) (hi : s'.inventory = s.inventory) :
    s'.Handed := by
  have old : ∀ l e', s'.leases.lookup l = some e' → ∃ e, s.leases.lookup l = some e ∧
      e.generation = e'.generation ∧ e.database = e'.database := by
    intro l e' he'
    rw [hs] at he'
    obtain ⟨e, h1, h2, h3, _⟩ := lookup_update hl he'
    exact ⟨e, h1, h2, h3⟩
  have hmem : ∀ l g d, (l, g, d) ∈ s'.handed →
      (l = lease ∧ g = entry.generation ∧ d = entry.database.databaseId) ∨
        (l, g, d) ∈ s.handed := by
    intro l g d h1
    rw [hh, List.mem_cons] at h1
    rcases h1 with h1 | h1
    · injection h1 with h1 h2
      injection h2 with h2 h3
      exact Or.inl ⟨h1, h2, h3⟩
    · exact Or.inr h1
  have hheld : entry.database ∈ s.held :=
    mem_held.mpr (Or.inr (Or.inr ⟨lease, entry, hl, rfl⟩))
  have hold : ∀ l e, s.leases.lookup l = some e →
      e.database.databaseId = entry.database.databaseId → l = lease := by
    intro l e hl' hd
    exact hb.leased_inj hl' hl hd
  -- the database of the lease against an older hand-out, by `current` and `owner`
  have hmix : ∀ l g d, (l, g, d) ∈ s.handed →
      (entry.database.databaseId = d ↔ lease = l ∧ entry.generation = g) := by
    intro l g d h1
    constructor
    · exact h.owner l g d lease entry h1 hl
    · rintro ⟨rfl, h2⟩
      exact h.current lease g d entry h1 hl h2
  refine ⟨?_, ?_, ?_, ?_, ?_, ?_, ?_⟩
  · intro l g d h1
    rw [hg]
    rcases hmem l g d h1 with ⟨_, rfl, _⟩ | h1
    · exact he.generation_le lease entry hl
    · exact h.generation_le l g d h1
  · intro l g d e' h1 h2 h3
    obtain ⟨e, h4, h5, h6⟩ := old l e' h2
    rw [← h6]
    rcases hmem l g d h1 with ⟨rfl, _, rfl⟩ | h1
    · rw [hl] at h4
      rw [Option.some.inj h4]
    · exact h.current l g d e h1 h4 (by rw [h5, h3])
  · intro l g d l' e' h1 h2 h3
    obtain ⟨e, h4, h5, h6⟩ := old l' e' h2
    rw [← h5]
    rw [← h6] at h3
    rcases hmem l g d h1 with ⟨rfl, rfl, rfl⟩ | h1
    · have hll := hold l' e h4 h3
      rw [hll, hl] at h4
      exact ⟨hll, by rw [Option.some.inj h4]⟩
    · exact h.owner l g d l' e h1 h4 h3
  · intro l g d h1
    rw [hi]
    rcases hmem l g d h1 with ⟨_, _, rfl⟩ | h1
    · exact hb.held_le hheld
    · exact h.reserved l g d h1
  · intro l g d h1
    rw [hi]
    rcases hmem l g d h1 with ⟨_, _, rfl⟩ | h1
    · exact hb.not_creating hheld
    · exact h.not_creating l g d h1
  · intro l g d h1 database h2
    rw [hi] at h2
    rcases hmem l g d h1 with ⟨_, _, rfl⟩ | h1
    · exact hb.not_ready_of_leased hl database h2
    · exact h.not_ready l g d h1 database h2
  · intro l g d l' g' d' h1 h2
    rcases hmem l g d h1 with ⟨rfl, rfl, rfl⟩ | h1 <;>
      rcases hmem l' g' d' h2 with ⟨rfl, rfl, rfl⟩ | h2
    · exact iff_of_true rfl ⟨rfl, rfl⟩
    · exact hmix l' g' d' h2
    · rw [eq_comm, hmix l g d h1, eq_comm, @eq_comm _ entry.generation]
    · exact h.unique l g d l' g' d' h1 h2

/-- **Every change respects what was handed out.** -/
theorem Handed.move {s s' : WorkerEngine C} {a : Act} (h : s.Handed) (hb : s.Books)
    (he : s.Entries) (hm : Move Q s a s') : s'.Handed := by
  have hmh := hm.handed
  have stay : ∀ (t : WorkerEngine C), t.leases = s.leases → ∀ l e',
      t.leases.lookup l = some e' → ∃ e, s.leases.lookup l = some e ∧
        e.generation = e'.generation ∧ e.database = e'.database := by
    intro t ht l e' he'
    exact ⟨e', ht ▸ he', rfl, rfl⟩
  cases hm with
  | count _ _ | enroll _ _ | enqueue _ _ _ _ _ | dequeue _ | detachIdle _ _ | clean _
  | shutdown =>
    exact h.congr rfl (le_refl _) (stay _ rfl) (le_refl _) (subset_refl _) fun _ hd => hd
  | note _ | close _ _ _ =>
    exact h.congr (hmh nofun) (le_refl _) (stay _ rfl) (le_refl _) (subset_refl _) fun _ hd => hd
  | burn _ _ _ _ _ =>
    exact h.congr rfl (le_refl _) (stay _ rfl) (Nat.le_add_right _ _) (subset_refl _)
      fun _ hd => hd
  | retire _ _ =>
    refine h.congr rfl (le_refl _) ?_ (le_refl _) (subset_refl _) fun _ hd => hd
    intro l e' he'
    exact ⟨e', (lookup_erase_eq_some.mp he').2, rfl, rfl⟩
  | detach hl _ =>
    refine h.congr rfl (le_refl _) ?_ (le_refl _) (subset_refl _) fun _ hd => hd
    intro l e' he'
    obtain ⟨e, h1, h2, h3, _⟩ := lookup_update hl he'
    exact ⟨e, h1, h2, h3⟩
  | assign _ _ _ hready _ _ => exact h.assign hready (hmh nofun)
  | attach hl _ _ => exact h.attach hb he hl rfl rfl rfl rfl
  | @restore lease entry hl _ hu =>
    have hkeep := @Handed.congr C s { s with leases := s.leases.erase lease } h rfl (le_refl _)
      (fun l e' he' => ⟨e', (lookup_erase_eq_some.mp he').2, rfl, rfl⟩) (le_refl _)
      (subset_refl _) fun _ hd => hd
    exact { hkeep with
      not_ready := fun l g d h1 database h2 h3 => by
        rcases List.mem_cons.mp h2 with rfl | h2
        · obtain ⟨rfl, rfl⟩ := h.owner l g d lease entry h1 hl h3
          exact hu d h1
        · exact h.not_ready l g d h1 database h2 h3 }
  | @reserve request events hfirst _ _ _ =>
    have hh := hmh nofun
    have hkeep := @Handed.congr C s { s with
        inventory := { s.inventory with
          nextDatabaseId := s.inventory.nextDatabaseId + request.amount }
        history := events ++ s.history } h hh (le_refl _) (stay _ rfl) (Nat.le_add_right _ _)
      (subset_refl _) fun _ hd => hd
    exact { hkeep with
      not_creating := fun l g d h1 h2 => by
        rcases Finset.mem_union.mp h2 with h2 | h2
        · exact hkeep.not_creating l g d h1 h2
        · have h3 := (DatabaseInventory.mem_ids.mp h2).1
          have h4 := h.reserved l g d (hh ▸ h1)
          omega }
  | @settle databaseId result hc =>
    have hh := hmh nofun
    obtain ⟨hcr, hn, _, hok, herr⟩ := @held_settle C s { s with
      inventory := (s.inventory.completeCreation databaseId result).2
      history := settled databaseId result :: s.history } databaseId result hc rfl rfl
    have hkeep := @Handed.congr C s { s with
        inventory := { (s.inventory.completeCreation databaseId result).2 with
          ready := s.inventory.ready }
        history := settled databaseId result :: s.history } h hh (le_refl _) (stay _ rfl)
      (le_of_eq hn.symm) (hcr ▸ Finset.erase_subset _ _) fun _ hd => hd
    exact { hkeep with
      not_ready := fun l g d h1 database h2 h3 => by
        rw [hh] at h1
        cases result with
        | ok name =>
          rw [(hok name rfl).1, List.mem_append, List.mem_singleton] at h2
          rcases h2 with h2 | rfl
          · exact h.not_ready l g d h1 database h2 h3
          · exact h.not_creating l g d h1 (h3 ▸ hc)
        | error error =>
          rw [(herr error rfl).1] at h2
          exact h.not_ready l g d h1 database h2 h3 }

end WorkerEngine

end PgTest.Engine
