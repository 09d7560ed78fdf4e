import PgTest.Engine.Assignments
import PgTest.Engine.Lifecycle

/-!
# The replies of the past

What holds of the replies in the history.  `Counted` balances the connections of
a lease: those that were handed out are still counted or were let go.  `Ordered`
says that a database is not ready again after it was handed out.  `Kept` says
that what was said stays true: an `Attached` named a database that was created
under this name, and a released lease is closed.
-/

namespace PgTest.Engine

open PgTest.Lib

variable {C : Type} {Q : LeaseId → C → Prop}

namespace WorkerEngine

/-- The assignments behind the delivered `Attached` replies, newest first. -/
def delivered (s : WorkerEngine C) : List (LeaseId × Nat) :=
  s.handed.map fun h => (h.1, h.2.1)

structure Counted (s : WorkerEngine C) : Prop where
  conns : ∀ lease entry, s.leases.lookup lease = some entry →
    entry.conns + s.letGo.count (lease, entry.generation) =
      s.delivered.count (lease, entry.generation)
  letGo_le : ∀ lease generation, (lease, generation) ∈ s.letGo → generation ≤ s.nextGeneration

/-- Nothing was delivered for, or let go of, a generation to come. -/
theorem Counted.count_new {s : WorkerEngine C} (h : s.Counted) (hh : s.Handed) {lease : LeaseId}
    {generation : Nat} (hg : s.nextGeneration < generation) :
    s.letGo.count (lease, generation) = 0 ∧ s.delivered.count (lease, generation) = 0 := by
  rw [List.count_eq_zero, List.count_eq_zero]
  constructor
  · intro hm
    have hle := h.letGo_le lease generation hm
    omega
  · intro hm
    obtain ⟨⟨l, g, d⟩, h1, h2⟩ := List.mem_map.mp hm
    injection h2 with h2 h3
    have hle : g ≤ s.nextGeneration := hh.generation_le l g d h1
    have heq : g = generation := h3
    omega

theorem Counted.new (config : WorkerEngineConfig) :
    (WorkerEngine.new config : WorkerEngine C).Counted where
  conns := fun _ _ h => (lookup_new h).elim
  letGo_le := fun _ _ h => absurd h List.not_mem_nil

/-- Leases stay as they are, or go. -/
theorem Counted.congr {s s' : WorkerEngine C} (h : s.Counted) (hd : s'.handed = s.handed)
    (hg : s'.letGo = s.letGo) (hn : s.nextGeneration ≤ s'.nextGeneration)
    (hl : ∀ lease entry, s'.leases.lookup lease = some entry →
      s.leases.lookup lease = some entry) : s'.Counted where
  conns := fun lease entry he => by
    rw [hg, delivered, hd]
    exact h.conns lease entry (hl lease entry he)
  letGo_le := fun lease generation hm => le_trans (h.letGo_le _ _ (hg ▸ hm)) hn

/-- One lease with its own two counts, the others with theirs. -/
theorem Counted.update {s s' : WorkerEngine C} (h : s.Counted) {lease : LeaseId}
    {entry : LeaseEntry} {conns : Nat}
    (hs : s'.leases = s.leases.insert lease { entry with conns := conns })
    (hn : s'.nextGeneration = s.nextGeneration)
    (hle : ∀ l g, (l, g) ∈ s'.letGo → g ≤ s.nextGeneration)
    (hother : ∀ l g, l ≠ lease → s'.letGo.count (l, g) = s.letGo.count (l, g) ∧
      s'.delivered.count (l, g) = s.delivered.count (l, g))
    (hself : conns + s'.letGo.count (lease, entry.generation) =
      s'.delivered.count (lease, entry.generation)) : s'.Counted where
  conns := fun l e he => by
    rw [hs] at he
    rcases lookup_insert_eq_some.mp he with ⟨rfl, rfl⟩ | ⟨hne, he⟩
    · exact hself
    · rw [(hother l e.generation hne).1, (hother l e.generation hne).2]
      exact h.conns l e he
  letGo_le := fun l g hm => hn ▸ hle l g hm

theorem count_cons_pair {l lease : LeaseId} {g generation : Nat} (hne : l ≠ lease)
    (rest : List (LeaseId × Nat)) :
    ((lease, generation) :: rest).count (l, g) = rest.count (l, g) :=
  List.count_cons_of_ne fun heq => hne (congrArg Prod.fst heq).symm

/-- **Every change keeps the count.** -/
theorem Counted.move {s s' : WorkerEngine C} {a : Act} (h : s.Counted) (hh : s.Handed)
    (he : s.Entries) (hm : Move Q s a s') : s'.Counted := by
  have hand := hm.handed
  have letg := hm.letGo
  cases hm with
  | count _ _ | note _ | enroll _ _ | close _ _ _ | enqueue _ _ _ _ _ | dequeue _ | reserve _ _ _ _
  | burn _ _ _ _ _ | settle _ _ | clean _ | shutdown =>
    exact h.congr (hand nofun) (letg nofun) (le_refl _) fun _ _ hl => hl
  | detachIdle _ _ => exact h.congr rfl rfl (le_refl _) fun _ _ hl => hl
  | restore _ _ _ =>
    exact h.congr (hand nofun) (letg nofun) (le_refl _) fun _ _ hl =>
      (lookup_erase_eq_some.mp hl).2
  | retire _ _ =>
    exact h.congr (hand nofun) (letg nofun) (le_refl _) fun _ _ hl =>
      (lookup_erase_eq_some.mp hl).2
  | assign _ _ _ _ _ _ =>
    have h1 := hand nofun
    have h2 := letg nofun
    refine ⟨fun l e hl => ?_, fun l g hg => Nat.le_succ_of_le (h.letGo_le l g (h2 ▸ hg))⟩
    rw [h2, delivered, h1]
    rcases lookup_insert_eq_some.mp hl with ⟨rfl, rfl⟩ | ⟨_, hl⟩
    · obtain ⟨h3, h4⟩ := @Counted.count_new C s h hh l _ (Nat.lt_succ_self s.nextGeneration)
      exact (Nat.zero_add _).trans (h3.trans h4.symm)
    · exact h.conns l e hl
  | @attach lease entry consumer hl _ _ =>
    refine h.update rfl rfl (fun l g hg => h.letGo_le l g hg)
      (fun l g hne => ⟨rfl, count_cons_pair hne _⟩) ?_
    have hc := h.conns lease entry hl
    show entry.conns + 1 + s.letGo.count _ = ((lease, entry.generation) :: s.delivered).count _
    rw [List.count_cons_self]
    omega
  | @detach lease entry hl hc =>
    refine h.update rfl rfl (fun l g hg => ?_)
      (fun l g hne => ⟨count_cons_pair hne _, rfl⟩) ?_
    · rcases List.mem_cons.mp hg with heq | hg
      · injection heq with _ heq
        rw [heq]
        exact he.generation_le lease entry hl
      · exact h.letGo_le l g hg
    · have hc := h.conns lease entry hl
      show entry.conns - 1 + ((lease, entry.generation) :: s.letGo).count _ = s.delivered.count _
      rw [List.count_cons_self]
      omega

/-! ### The order of events -/

/-- **Handed out is never ready again.** -/
def Ordered (s : WorkerEngine C) : Prop :=
  s.history.Pairwise fun later earlier =>
    ∀ l g d, earlier.handsOut = some (l, g, d) → later.readies ≠ some d

theorem Ordered.new (config : WorkerEngineConfig) :
    (WorkerEngine.new config : WorkerEngine C).Ordered := List.Pairwise.nil

theorem mem_handed {s : WorkerEngine C} {event : Event C} (he : event ∈ s.history)
    {h : LeaseId × Nat × Nat} (hh : event.handsOut = some h) : h ∈ s.handed :=
  List.mem_filterMap.mpr ⟨event, he, hh⟩

theorem Ordered.move {s s' : WorkerEngine C} {a : Act} (h : s.Ordered) (hh : s.Handed)
    (hm : Move Q s a s') : s'.Ordered := by
  obtain ⟨new, hn, _, hist⟩ := hm.news
  -- what is ready from now on was not handed out before, and nothing is handed out with it
  have key : ∀ event ∈ new, (∀ l g d, (l, g, d) ∈ s.handed → event.readies ≠ some d) ∧
      ∀ other ∈ new, ∀ h, other.handsOut = some h → event.readies = none := by
    cases hn with
    | minor hm =>
      intro event he
      have hr := (hm event he).readies
      refine ⟨fun l g d _ => ?_, fun _ _ _ _ => hr⟩
      rw [hr]
      exact nofun
    | attach consumer hl =>
      intro event he
      rw [List.mem_singleton.mp he]
      exact ⟨fun _ _ _ _ => nofun, fun _ _ _ _ => rfl⟩
    | detach hl =>
      intro event he
      rw [List.mem_singleton.mp he]
      exact ⟨fun _ _ _ _ => nofun, fun _ _ _ _ => rfl⟩
    | cleaned hr =>
      intro event he
      rw [List.mem_singleton.mp he]
      exact ⟨fun _ _ _ _ => nofun, fun _ _ _ _ => rfl⟩
    | retire accepted hl =>
      intro event he
      rcases List.mem_pair.mp he with rfl | rfl
      · exact ⟨fun _ _ _ _ => nofun, fun _ _ _ _ => rfl⟩
      · exact ⟨fun _ _ _ _ => nofun, fun _ _ _ _ => rfl⟩
    | created name hc =>
      intro event he
      rw [List.mem_singleton.mp he]
      refine ⟨fun l g d hd heq => ?_, fun other ho h hs => ?_⟩
      · rw [← Option.some.inj heq] at hd
        exact hh.not_creating l g _ hd hc
      · rw [List.mem_singleton.mp ho] at hs
        cases hs
    | @restore lease entry hl hu =>
      have hnone : ∀ other ∈ [Event.returned lease entry.generation entry.database,
          Event.cancelled (C := C) entry.cancellation], other.handsOut = none := by
        intro other ho
        rcases List.mem_pair.mp ho with rfl | rfl
        · rfl
        · rfl
      intro event he
      refine ⟨fun l g d hd heq => ?_, fun other ho h hs => ?_⟩
      · rcases List.mem_pair.mp he with rfl | rfl
        · obtain ⟨rfl, rfl⟩ := hh.owner l g d lease entry hd hl (Option.some.inj heq)
          exact hu d hd
        · cases heq
      · rw [hnone other ho] at hs
        cases hs
  rw [Ordered, hist]
  refine List.pairwise_append.mpr ⟨?_, h, ?_⟩
  · refine List.pairwise_of_forall_mem_list fun later hl earlier hr l g d hs => ?_
    rw [(key later hl).2 earlier hr _ hs]
    exact nofun
  · intro later hl earlier hr l g d hs
    exact (key later hl).1 l g d (mem_handed hr hs)

/-! ### What was said stays true -/

structure Kept (s : WorkerEngine C) : Prop where
  named : ∀ lease consumer name generation token behind delivered,
    .reply lease consumer (.attached name generation token) behind delivered ∈ s.history →
      ∃ databaseId, behind = some databaseId ∧ .created ⟨databaseId, name⟩ ∈ s.life
  released : ∀ lease consumer behind delivered,
    .reply lease consumer (.releaseResult (.ok ())) behind delivered ∈ s.history →
      s.leaseRecords.lookup lease = some .closed

theorem Kept.new (config : WorkerEngineConfig) :
    (WorkerEngine.new config : WorkerEngine C).Kept where
  named := fun _ _ _ _ _ _ _ h => absurd h List.not_mem_nil
  released := fun _ _ _ _ h => absurd h List.not_mem_nil

end WorkerEngine

open WorkerEngine

/-- A closed lease stays closed. -/
theorem Move.closed {s s' : WorkerEngine C} {a : Act} (h : Move Q s a s') {lease : LeaseId}
    (hl : s.leaseRecords.lookup lease = some .closed) :
    s'.leaseRecords.lookup lease = some .closed := by
  cases h with
  | count _ _ | note _ | enqueue _ _ _ _ _ | dequeue _ | assign _ _ _ _ _ _ | attach _ _ _
  | restore _ _ _ | detach _ _ | detachIdle _ _ | retire _ _ | reserve _ _ _ _ | burn _ _ _ _ _
  | settle _ _ | clean _ | shutdown => exact hl
  | enroll hnew _ =>
    exact lookup_insert_eq_some.mpr (Or.inr ⟨fun he => hnew (he ▸ mem_of_lookup hl), hl⟩)
  | @close other _ _ _ _ =>
    by_cases he : lease = other
    · exact lookup_insert_eq_some.mpr (Or.inl ⟨he, rfl⟩)
    · exact lookup_insert_eq_some.mpr (Or.inr ⟨he, hl⟩)

namespace WorkerEngine

theorem Kept.move {s s' : WorkerEngine C} {a : Act} (h : s.Kept) (hlc : s.Lifecycle)
    (hm : Move Q s a s') : s'.Kept := by
  obtain ⟨new, _, hon, hist⟩ := hm.news
  have hlife : ∀ x ∈ s.life, x ∈ s'.life := by
    intro x hx
    rw [life, hist, List.filterMap_append]
    exact List.mem_append_right _ hx
  refine ⟨fun lease consumer name generation token behind delivered hr => ?_,
    fun lease consumer behind delivered hr => ?_⟩
  · rw [hist] at hr
    rcases List.mem_append.mp hr with hr | hr
    · obtain ⟨entry, hl, rfl, _, _, rfl⟩ := hon _ hr
      have hheld : entry.database ∈ s.held :=
        mem_held.mpr (Or.inr (Or.inr ⟨lease, entry, hl, rfl⟩))
      exact ⟨_, rfl, hlife _ ((hlc.held_iff _).mp hheld).1⟩
    · obtain ⟨d, h1, h2⟩ := h.named _ _ _ _ _ _ _ hr
      exact ⟨d, h1, hlife _ h2⟩
  · rw [hist] at hr
    rcases List.mem_append.mp hr with hr | hr
    · exact hm.closed (hon _ hr)
    · exact hm.closed (h.released _ _ _ _ hr)

end WorkerEngine

end PgTest.Engine
