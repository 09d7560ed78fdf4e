import PgTest.Engine.Dispatch

/-!
# Supply and demand

`Covered` says that the ready databases and the pending creations cover the live
waiting leases, the starvation threshold and one more.  `grow` establishes it
where the batch size is positive and the worker accepts.

A message that takes supply or adds demand ends with `grow`; any other leaves
supply and demand alone (`Untouched`).  `Handles` is what is shown of each
handler: its path, no idle supply, and which of the two it does.
-/

namespace PgTest.Engine

open PgTest.Lib

variable {C : Type} {Q : LeaseId → C → Prop}

namespace WorkerEngine

/-! ### The waiting leases -/

theorem live_antitone {s : WorkerEngine C} {now later messageTime : Nat} (h : now ≤ later)
    (hl : s.live later messageTime) : s.live now messageTime := by
  rcases hl with hl | hl
  · exact Or.inl hl
  · refine Or.inr (le_trans ?_ hl)
    exact Nat.div_le_div_right (Nat.sub_le_sub_right h _)

theorem mem_waiting {s : WorkerEngine C} {now : C → Nat} {lease : LeaseId} :
    lease ∈ s.waiting now ↔ ∃ replies, s.groupWaiters.lookup lease = some replies ∧
      lease ∉ s.leases ∧ ∃ request ∈ replies, s.live (now request.1) request.2 := by
  rw [waiting, Finset.mem_filter, Finmap.mem_keys]
  constructor
  · rintro ⟨hg, hl, hr⟩
    obtain ⟨replies, hg⟩ := Finmap.mem_iff.mp hg
    rw [hg] at hr
    exact ⟨replies, hg, hl, hr⟩
  · rintro ⟨replies, hg, hl, hr⟩
    refine ⟨mem_of_lookup hg, hl, ?_⟩
    rw [hg]
    exact hr

/-- **Waiting only gets less with time.** -/
theorem waiting_antitone (s : WorkerEngine C) {now later : C → Nat}
    (h : ∀ c, now c ≤ later c) : s.waiting later ⊆ s.waiting now := by
  intro lease hm
  obtain ⟨replies, hg, hl, request, hr, hlive⟩ := mem_waiting.mp hm
  exact mem_waiting.mpr ⟨replies, hg, hl, request, hr, live_antitone (h _) hlive⟩

/-! ### What grow establishes -/

/-- Supply covers demand, when supply can be had. -/
def Covered (env : Env C) (t : WorkerEngine C) : Prop :=
  t.config.growBatchSize ≠ 0 → (∀ request, env.requestCreation request = true) →
    (t.waiting env.now).card + t.config.starvationThreshold + 1 ≤ t.inventory.supplyLen

theorem grow_covers {env : Env C} {s t : WorkerEngine C} (h : Inv Q s)
    (hok : grow env s = .ok t) : t.Covered env ∧ .grew ∈ t.history := by
  rcases grow_cases hok with ⟨rfl, hz⟩ | ⟨_, _, hle, ⟨_, rfl⟩ | ⟨hno, rfl⟩⟩
  · refine ⟨fun hb _ => ?_, List.mem_cons_self⟩
    rcases hz with hz | hz
    · exact absurd hz hb
    · exact Nat.sub_eq_zero_iff_le.mp hz
  · refine ⟨fun _ _ => ?_, List.mem_cons_of_mem _ List.mem_cons_self⟩
    have hcard : (s.inventory.creating ∪ (s.growth env.now).ids).card =
        s.inventory.creating.card + (s.growth env.now).amount := by
      rw [Finset.card_union_of_disjoint (h.books.disjoint_ids rfl), DatabaseInventory.card_ids]
    have hdef : s.deficit env.now = (s.waiting env.now).card + s.config.starvationThreshold + 1 -
        (s.inventory.ready.length + s.inventory.creating.card) := rfl
    show (s.waiting env.now).card + s.config.starvationThreshold + 1 ≤
      s.inventory.ready.length + (s.inventory.creating ∪ (s.growth env.now).ids).card
    omega
  · refine ⟨fun _ hall => ?_, List.mem_cons_of_mem _ List.mem_cons_self⟩
    rw [hall] at hno
    cases hno

/-! ### What leaves supply and demand alone -/

structure Untouched (s t : WorkerEngine C) : Prop where
  config : t.config = s.config
  supply : t.inventory.supplyLen = s.inventory.supplyLen
  groups : ∀ lease replies, t.groupWaiters.lookup lease = some replies →
    s.groupWaiters.lookup lease = some replies
  leases : ∀ lease, lease ∈ s.leases → lease ∈ t.leases
  grew : .grew ∈ t.history ↔ .grew ∈ s.history

theorem Untouched.refl (s : WorkerEngine C) : Untouched s s :=
  ⟨rfl, rfl, fun _ _ h => h, fun _ h => h, Iff.rfl⟩

theorem Untouched.trans {s t u : WorkerEngine C} (h : Untouched s t) (g : Untouched t u) :
    Untouched s u :=
  ⟨g.config.trans h.config, g.supply.trans h.supply,
    fun lease replies hl => h.groups _ _ (g.groups lease replies hl),
    fun lease hl => g.leases _ (h.leases lease hl), g.grew.trans h.grew⟩

theorem Untouched.log {event : Event C} (s : WorkerEngine C) (he : event ≠ .grew) :
    Untouched s (s.log event) := by
  refine ⟨rfl, rfl, fun _ _ h => h, fun _ h => h, ?_⟩
  show .grew ∈ event :: s.history ↔ _
  rw [List.mem_cons]
  exact or_iff_right he.symm

theorem Untouched.waiting {s t : WorkerEngine C} (h : Untouched s t) (now : C → Nat) :
    t.waiting now ⊆ s.waiting now := by
  intro lease hm
  obtain ⟨replies, hg, hl, request, hr, hlive⟩ := mem_waiting.mp hm
  refine mem_waiting.mpr ⟨replies, h.groups _ _ hg, fun hs => hl (h.leases _ hs), request, hr, ?_⟩
  rw [live, ← h.config]
  exact hlive

theorem Covered.untouched {env : Env C} {s t : WorkerEngine C} (hs : s.Covered env)
    (h : Untouched s t) : t.Covered env := by
  intro hb hall
  have hle := Finset.card_le_card (h.waiting env.now)
  have hcov := hs (h.config ▸ hb) hall
  rw [h.config, h.supply]
  omega

/-! ### What is shown of a handler -/

structure Handles (Q : LeaseId → C → Prop) (P : Act → Prop) (env : Env C)
    (s t : WorkerEngine C) : Prop where
  path : Path Q P s t
  noIdle : t.NoIdle
  supplied : Untouched s t ∨ t.Covered env ∧ .grew ∈ t.history

variable {P : Act → Prop} {env : Env C} {s t u : WorkerEngine C}

/-- Handling that starts with a path that leaves supply and demand alone. -/
theorem Handles.after (hp : Path Q P s t) (hu : Untouched s t) (h : Handles Q P env t u) :
    Handles Q P env s u where
  path := hp.trans h.path
  noIdle := h.noIdle
  supplied := h.supplied.imp_left hu.trans

/-- Handling that ends with a last reply. -/
theorem Handles.note (h : Handles Q P env s t) {event : Event C} (hP : P .note)
    (hq : t.Quiet event) (he : event ≠ .grew) : Handles Q P env s (t.log event) where
  path := h.path.snoc (.note hq) hP
  noIdle := h.noIdle
  supplied := by
    rcases h.supplied with hu | ⟨hc, hg⟩
    · exact Or.inl (hu.trans (.log t he))
    · exact Or.inr ⟨hc.untouched (.log t he), List.mem_cons_of_mem _ hg⟩

/-- Handling that ends with `grow`. -/
theorem Handles.grow (h : Inv Q s) (hP : ∀ a, Act.Growing a → P a) (hp : Path Q P s t)
    (hidle : t.NoIdle) (hok : WorkerEngine.grow env t = .ok u) : Handles Q P env s u where
  path := hp.trans ((grow_path (hp.inv h) hok).mono hP)
  noIdle := by
    obtain ⟨_, hw, _, _, hr⟩ := grow_keeps hok
    exact hidle.congr hr hw
  supplied := Or.inr (grow_covers (hp.inv h) hok)

end WorkerEngine

end PgTest.Engine
