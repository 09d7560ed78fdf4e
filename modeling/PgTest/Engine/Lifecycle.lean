import PgTest.Engine.Books
import PgTest.Engine.Chronicle

/-!
# From creation to cleanup

`Lifecycle` ties the books to the history: the databases that exist are those
that were created and not dropped, each under the name it was created with, and
a cleanup was requested for exactly those that are retiring or dropped.  Nothing
of this happens twice.
-/

namespace PgTest.Engine

open PgTest.Lib

variable {C : Type} {Q : LeaseId → C → Prop}

namespace WorkerEngine

structure Lifecycle (s : WorkerEngine C) : Prop where
  held_iff : ∀ database, database ∈ s.held ↔
    .created database ∈ s.life ∧ .dropped database.databaseId ∉ s.life
  past : ∀ database, .created database ∈ s.life →
    database.databaseId ∉ s.inventory.creating ∧
      database.databaseId ≤ s.inventory.nextDatabaseId
  one_name : ∀ d d', .created d ∈ s.life → .created d' ∈ s.life →
    d.databaseId = d'.databaseId → d = d'
  dropped_created : ∀ databaseId, .dropped databaseId ∈ s.life →
    ∃ database, .created database ∈ s.life ∧ database.databaseId = databaseId
  cleanup_created : ∀ request, .cleanup request ∈ s.life →
    .created ⟨request.databaseId, request.databaseName⟩ ∈ s.life
  cleanup_iff : ∀ databaseId, (∃ name, .cleanup ⟨databaseId, name⟩ ∈ s.life) ↔
    databaseId ∈ s.inventory.retiring ∨ .dropped databaseId ∈ s.life
  once : s.life.Nodup

theorem Lifecycle.new (config : WorkerEngineConfig) :
    (WorkerEngine.new config : WorkerEngine C).Lifecycle where
  held_iff := fun database => iff_of_false (Multiset.notMem_zero database)
    fun h => List.not_mem_nil h.1
  past := fun _ h => absurd h List.not_mem_nil
  one_name := fun _ _ h => absurd h List.not_mem_nil
  dropped_created := fun _ h => absurd h List.not_mem_nil
  cleanup_created := fun _ h => absurd h List.not_mem_nil
  cleanup_iff := fun databaseId => by
    refine iff_of_false (fun h => List.not_mem_nil h.choose_spec) ?_
    intro h
    exact h.elim Finmap.notMem_empty List.not_mem_nil
  once := List.nodup_nil

/-- A change that neither creates nor drops a database, nor asks for a cleanup. -/
theorem Lifecycle.congr {s s' : WorkerEngine C} (h : s.Lifecycle) (hh : s'.held = s.held)
    (hlife : s'.life = s.life) (hr : s'.inventory.retiring = s.inventory.retiring)
    (hn : s.inventory.nextDatabaseId ≤ s'.inventory.nextDatabaseId)
    (hc : ∀ id ∈ s'.inventory.creating,
      id ∈ s.inventory.creating ∨ s.inventory.nextDatabaseId < id) : s'.Lifecycle where
  held_iff := by
    rw [hh, hlife]
    exact h.held_iff
  past := by
    intro database hd
    rw [hlife] at hd
    obtain ⟨h1, h2⟩ := h.past database hd
    refine ⟨fun hcr => ?_, le_trans h2 hn⟩
    rcases hc _ hcr with hcr | hcr
    · exact h1 hcr
    · omega
  one_name := by
    rw [hlife]
    exact h.one_name
  dropped_created := by
    rw [hlife]
    exact h.dropped_created
  cleanup_created := by
    rw [hlife]
    exact h.cleanup_created
  cleanup_iff := by
    rw [hlife, hr]
    exact h.cleanup_iff
  once := hlife ▸ h.once

theorem mem_life_cons {s s' : WorkerEngine C} {event event' : Life}
    (hlife : s'.life = event :: s.life) (hne : event' ≠ event) :
    event' ∈ s'.life ↔ event' ∈ s.life := by
  rw [hlife, List.mem_cons]
  exact or_iff_right hne

theorem Lifecycle.created {s s' : WorkerEngine C} (h : s.Lifecycle) (hb : s.Books)
    {database : Database} (hid : database.databaseId ∈ s.inventory.creating)
    (hh : s'.held = database ::ₘ s.held) (hlife : s'.life = .created database :: s.life)
    (hr : s'.inventory.retiring = s.inventory.retiring)
    (hn : s'.inventory.nextDatabaseId = s.inventory.nextDatabaseId)
    (hc : s'.inventory.creating = s.inventory.creating.erase database.databaseId) :
    s'.Lifecycle := by
  -- the identifier was never used before
  have hfresh : ∀ d, .created d ∈ s.life → d.databaseId ≠ database.databaseId := by
    intro d hd heq
    exact (h.past d hd).1 (heq ▸ hid)
  have hdrop : .dropped database.databaseId ∉ s.life := by
    intro hd
    obtain ⟨d, h1, h2⟩ := h.dropped_created _ hd
    exact hfresh d h1 h2
  have hmem : ∀ d, .created d ∈ s'.life ↔ d = database ∨ .created d ∈ s.life := by
    intro d
    rw [hlife, List.mem_cons, Life.created.injEq]
  have hdropped : ∀ id, .dropped id ∈ s'.life ↔ .dropped id ∈ s.life :=
    fun _ => mem_life_cons hlife Life.noConfusion
  have hcleanup : ∀ request, .cleanup request ∈ s'.life ↔ .cleanup request ∈ s.life :=
    fun _ => mem_life_cons hlife Life.noConfusion
  refine ⟨?_, ?_, ?_, ?_, ?_, ?_, ?_⟩
  · intro d
    rw [hh, Multiset.mem_cons, hmem, hdropped, h.held_iff]
    constructor
    · rintro (rfl | ⟨h1, h2⟩)
      · exact ⟨Or.inl rfl, hdrop⟩
      · exact ⟨Or.inr h1, h2⟩
    · rintro ⟨rfl | h1, h2⟩
      · exact Or.inl rfl
      · exact Or.inr ⟨h1, h2⟩
  · intro d hd
    rw [hc, hn, Finset.mem_erase]
    rcases (hmem d).mp hd with rfl | hd
    · exact ⟨fun he => he.1 rfl, hb.creating_le hid⟩
    · obtain ⟨h1, h2⟩ := h.past d hd
      exact ⟨fun he => h1 he.2, h2⟩
  · intro d d' hd hd' heq
    rcases (hmem d).mp hd with rfl | hd <;> rcases (hmem d').mp hd' with rfl | hd'
    · rfl
    · exact absurd heq.symm (hfresh d' hd')
    · exact absurd heq (hfresh d hd)
    · exact h.one_name d d' hd hd' heq
  · intro id hd
    obtain ⟨d, h1, h2⟩ := h.dropped_created id ((hdropped id).mp hd)
    exact ⟨d, (hmem d).mpr (Or.inr h1), h2⟩
  · intro request hq
    exact (hmem _).mpr (Or.inr (h.cleanup_created request ((hcleanup request).mp hq)))
  · intro id
    simp only [hcleanup, hdropped, hr]
    exact h.cleanup_iff id
  · rw [hlife]
    exact List.nodup_cons.mpr ⟨fun hd => hfresh database hd rfl, h.once⟩

theorem Lifecycle.retire {s s' : WorkerEngine C} (h : s.Lifecycle) (hb : s.Books)
    {lease : LeaseId} {entry : LeaseEntry} (hl : s.leases.lookup lease = some entry)
    (hh : s'.held = s.held)
    (hlife : s'.life =
      .cleanup ⟨entry.database.databaseId, entry.database.databaseName⟩ :: s.life)
    (hr : s'.inventory.retiring =
      s.inventory.retiring.insert entry.database.databaseId entry.database.databaseName)
    (hn : s'.inventory.nextDatabaseId = s.inventory.nextDatabaseId)
    (hc : s'.inventory.creating = s.inventory.creating) : s'.Lifecycle := by
  have hheld : entry.database ∈ s.held :=
    mem_held.mpr (Or.inr (Or.inr ⟨lease, entry, hl, rfl⟩))
  obtain ⟨hcreated, hdrop⟩ := (h.held_iff _).mp hheld
  have hnone : ∀ name, .cleanup ⟨entry.database.databaseId, name⟩ ∉ s.life := by
    intro name hq
    rcases (h.cleanup_iff _).mp ⟨name, hq⟩ with h1 | h1
    · exact hb.retiring_of_leased hl h1
    · exact hdrop h1
  have hmem : ∀ d, .created d ∈ s'.life ↔ .created d ∈ s.life :=
    fun _ => mem_life_cons hlife Life.noConfusion
  have hdropped : ∀ id, .dropped id ∈ s'.life ↔ .dropped id ∈ s.life :=
    fun _ => mem_life_cons hlife Life.noConfusion
  have hcleanup : ∀ request, .cleanup request ∈ s'.life ↔
      request = ⟨entry.database.databaseId, entry.database.databaseName⟩ ∨
        .cleanup request ∈ s.life := by
    intro request
    rw [hlife, List.mem_cons, Life.cleanup.injEq]
  refine ⟨?_, ?_, ?_, ?_, ?_, ?_, ?_⟩
  · intro d
    rw [hh, hmem, hdropped]
    exact h.held_iff d
  · intro d hd
    rw [hc, hn]
    exact h.past d ((hmem d).mp hd)
  · intro d d' hd hd'
    exact h.one_name d d' ((hmem d).mp hd) ((hmem d').mp hd')
  · intro id hd
    obtain ⟨d, h1, h2⟩ := h.dropped_created id ((hdropped id).mp hd)
    exact ⟨d, (hmem d).mpr h1, h2⟩
  · intro request hq
    rcases (hcleanup request).mp hq with rfl | hq
    · exact (hmem _).mpr hcreated
    · exact (hmem _).mpr (h.cleanup_created request hq)
  · intro id
    rw [hr, Finmap.mem_insert, hdropped, or_assoc, ← h.cleanup_iff id]
    constructor
    · rintro ⟨name, hq⟩
      rcases (hcleanup _).mp hq with hq | hq
      · injection hq with hq
        exact Or.inl hq
      · exact Or.inr ⟨name, hq⟩
    · rintro (rfl | ⟨name, hq⟩)
      · exact ⟨_, (hcleanup _).mpr (Or.inl rfl)⟩
      · exact ⟨name, (hcleanup _).mpr (Or.inr hq)⟩
  · rw [hlife]
    exact List.nodup_cons.mpr ⟨hnone _, h.once⟩

theorem Lifecycle.cleaned {s s' : WorkerEngine C} (h : s.Lifecycle) (hb : s.Books)
    {database : Database} (hh : s.held = database ::ₘ s'.held)
    (hlife : s'.life = .dropped database.databaseId :: s.life)
    (hret : database.databaseId ∈ s.inventory.retiring)
    (hr : s'.inventory.retiring = s.inventory.retiring.erase database.databaseId)
    (hn : s'.inventory.nextDatabaseId = s.inventory.nextDatabaseId)
    (hc : s'.inventory.creating = s.inventory.creating) : s'.Lifecycle := by
  have hheld : database ∈ s.held := hh ▸ Multiset.mem_cons_self _ _
  obtain ⟨hcreated, hdrop⟩ := (h.held_iff _).mp hheld
  have hgone : ∀ d ∈ s'.held, d.databaseId ≠ database.databaseId := by
    intro d hd heq
    have hnd := (Multiset.nodup_add.mp hb.1).2.1
    rw [hh, Multiset.map_cons, Multiset.nodup_cons] at hnd
    exact hnd.1 (heq ▸ Multiset.mem_map_of_mem _ hd)
  have hmem : ∀ d, .created d ∈ s'.life ↔ .created d ∈ s.life :=
    fun _ => mem_life_cons hlife Life.noConfusion
  have hcleanup : ∀ request, .cleanup request ∈ s'.life ↔ .cleanup request ∈ s.life :=
    fun _ => mem_life_cons hlife Life.noConfusion
  have hdropped : ∀ id, .dropped id ∈ s'.life ↔
      id = database.databaseId ∨ .dropped id ∈ s.life := by
    intro id
    rw [hlife, List.mem_cons, Life.dropped.injEq]
  refine ⟨?_, ?_, ?_, ?_, ?_, ?_, ?_⟩
  · intro d
    rw [hmem, hdropped, not_or, and_left_comm, ← h.held_iff, hh, Multiset.mem_cons]
    constructor
    · intro hd
      exact ⟨hgone d hd, Or.inr hd⟩
    · rintro ⟨hne, rfl | hd⟩
      · exact absurd rfl hne
      · exact hd
  · intro d hd
    rw [hc, hn]
    exact h.past d ((hmem d).mp hd)
  · intro d d' hd hd'
    exact h.one_name d d' ((hmem d).mp hd) ((hmem d').mp hd')
  · intro id hd
    rcases (hdropped id).mp hd with rfl | hd
    · exact ⟨database, (hmem _).mpr hcreated, rfl⟩
    · obtain ⟨d, h1, h2⟩ := h.dropped_created id hd
      exact ⟨d, (hmem d).mpr h1, h2⟩
  · intro request hq
    exact (hmem _).mpr (h.cleanup_created request ((hcleanup request).mp hq))
  · intro id
    simp only [hcleanup, hdropped, hr, Finmap.mem_erase, h.cleanup_iff id]
    by_cases hid : id = database.databaseId
    · subst hid
      exact iff_of_true (Or.inl hret) (Or.inr (Or.inl rfl))
    · simp only [ne_eq, hid, not_false_eq_true, true_and, false_or]
  · rw [hlife]
    exact List.nodup_cons.mpr ⟨hdrop, h.once⟩

/-- **Every change keeps the lifecycle.** -/
theorem Lifecycle.move {s s' : WorkerEngine C} {a : Act} (h : s.Lifecycle) (hb : s.Books)
    (hm : Move Q s a s') : s'.Lifecycle := by
  have keep := hm.life
  have hold : ∀ id ∈ s.inventory.creating,
      id ∈ s.inventory.creating ∨ s.inventory.nextDatabaseId < id := fun _ => Or.inl
  cases hm with
  | count _ _ | note _ | enroll _ _ | close _ _ _ | enqueue _ _ _ _ _ | dequeue _
  | detachIdle _ _ | shutdown =>
    exact h.congr rfl (keep trivial) rfl (le_refl _) hold
  | assign _ hl _ hready _ _ =>
    exact h.congr (held_assignment hl hready) (keep trivial) rfl (le_refl _) hold
  | attach hl _ _ =>
    exact h.congr (held_update hl rfl rfl rfl) (keep trivial) rfl (le_refl _) hold
  | detach hl _ =>
    exact h.congr (held_update hl rfl rfl rfl) (keep trivial) rfl (le_refl _) hold
  | restore hl _ _ =>
    exact h.congr (held_restore hl rfl rfl) (keep trivial) rfl (le_refl _) hold
  | burn _ _ _ _ _ => exact h.congr rfl (keep trivial) rfl (Nat.le_add_right _ _) hold
  | reserve hfirst _ _ _ =>
    refine h.congr rfl (keep trivial) rfl (Nat.le_add_right _ _) ?_
    intro id hid
    rcases Finset.mem_union.mp hid with hid | hid
    · exact Or.inl hid
    · have hle := (DatabaseInventory.mem_ids.mp hid).1
      exact Or.inr (by omega)
  | retire _ hl =>
    exact h.retire hb hl (held_retire hl rfl (hb.retiring_of_leased hl) rfl) rfl rfl rfl rfl
  | @settle databaseId result hc =>
    obtain ⟨hcr, hn, hr, hok, herr⟩ := @held_settle C s { s with
      inventory := (s.inventory.completeCreation databaseId result).2
      history := settled databaseId result :: s.history } databaseId result hc rfl rfl
    cases result with
    | ok name =>
      exact @Lifecycle.created C s _ h hb ⟨databaseId, name⟩ hc (hok name rfl).2 rfl hr hn hcr
    | error error =>
      refine h.congr (herr error rfl).2 rfl hr (le_of_eq hn.symm) fun id hid => ?_
      rw [hcr] at hid
      exact Or.inl (Finset.mem_of_mem_erase hid)
  | @clean databaseId hr =>
    obtain ⟨name, hl⟩ := Finmap.mem_iff.mp hr
    have hh := @held_clean C s { s with
      inventory := { s.inventory with retiring := s.inventory.retiring.erase databaseId }
      history := .cleaned databaseId :: s.history } databaseId name hl rfl rfl
    exact Lifecycle.cleaned h hb hh rfl hr rfl rfl rfl

end WorkerEngine

end PgTest.Engine
