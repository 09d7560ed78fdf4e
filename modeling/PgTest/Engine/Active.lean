import PgTest.Engine.Refinement

/-!
# The databases in use

A database is in use while it is ready or leased.  It comes into use when its creation
is settled and goes out of use when a cleanup is requested for it, and in no other way:
`Flows` balances the two over a message, with the names of the databases.
-/

namespace PgTest.Engine

open PgTest.Lib

variable {C : Type} {Q : LeaseId → C → Prop}

/-- The database that goes out of use. -/
def Event.retires : Event C → Option Database
  | .requestedCleanup request _ => some ⟨request.databaseId, request.databaseName⟩
  | _ => none

/-- The database that the message brings into use, if the engine waits for it. -/
def EngineMessage.creates : EngineMessage C → List Database
  | .databaseWorker (.creationFinished databaseId (.ok databaseName)) =>
      [⟨databaseId, databaseName⟩]
  | _ => []

/-- Changes that settle no creation. -/
def Act.Unsettling : Act → Prop
  | .settle _ => False
  | _ => True

namespace WorkerEngine

/-- The databases that are ready or leased. -/
def active (s : WorkerEngine C) : Multiset Database := (s.inventory.ready : List _) + s.leased

/-- From `s` to `t` the databases `created` came into use. -/
def Flows (created : Multiset Database) (s t : WorkerEngine C) : Prop :=
  ∃ new, t.history = new ++ s.history ∧
    t.active + (new.filterMap Event.retires : List Database) = s.active + created

namespace Flows

variable {created created' : Multiset Database} {s t u : WorkerEngine C}

theorem refl (s : WorkerEngine C) : Flows 0 s s := ⟨[], rfl, rfl⟩

theorem trans (h : Flows created s t) (g : Flows created' t u) :
    Flows (created + created') s u := by
  obtain ⟨new, h1, h2⟩ := h
  obtain ⟨more, g1, g2⟩ := g
  refine ⟨more ++ new, by rw [g1, h1, List.append_assoc], ?_⟩
  rw [List.filterMap_append, ← Multiset.coe_add, ← add_assoc, g2, add_right_comm, h2, add_assoc]

theorem before (h : Flows created s t) (g : Flows 0 t u) : Flows created s u := by
  simpa using h.trans g

theorem after (h : Flows 0 s t) (g : Flows created t u) : Flows created s u := by
  simpa using h.trans g

/-- Nothing goes out of use. -/
theorem same (ha : t.active = s.active)
    (hh : ∃ new, t.history = new ++ s.history ∧ ∀ event ∈ new, event.retires = none) :
    Flows 0 s t := by
  obtain ⟨new, hh, hnew⟩ := hh
  refine ⟨new, hh, ?_⟩
  rw [List.filterMap_eq_nil_iff.mpr hnew, ha]
  rfl

end Flows

/-! ### Changes of the ledger -/

variable {s t : WorkerEngine C}

theorem active_update {lease : LeaseId} {entry entry' : LeaseEntry}
    (hl : s.leases.lookup lease = some entry) (hs : t.leases = s.leases.insert lease entry')
    (hi : t.inventory = s.inventory) (hd : entry'.database = entry.database) :
    t.active = s.active := by
  rw [active, active, leased, hs, hi, image_update _ hl hd]
  rfl

theorem active_erase {lease : LeaseId} {entry : LeaseEntry}
    (hl : s.leases.lookup lease = some entry) (hs : t.leases = s.leases.erase lease) :
    s.leased = entry.database ::ₘ t.leased := by
  rw [leased, image_erase _ hl, leased, hs]

end WorkerEngine

open WorkerEngine

variable {s t : WorkerEngine C}

/-- **In use is only what a creation brought, and until a cleanup is requested.** -/
theorem Move.flows {a : Act} (h : Move Q s a t) (ha : a.Unsettling) :
    Flows 0 s t := by
  cases h with
  | count _ _ | enroll _ _ | enqueue _ _ _ _ _ | dequeue _ | detachIdle _ _ | shutdown =>
    exact .same rfl ⟨[], rfl, by simp⟩
  | @note noted hq =>
    refine .same rfl ⟨[noted], rfl, ?_⟩
    cases noted <;> simp_all [Quiet, Event.retires]
  | close _ _ hev =>
    refine .same rfl ⟨_, rfl, fun event he => ?_⟩
    obtain ⟨_, _, rfl⟩ := hev event he
    rfl
  | @assign lease database rest scheduling _ hl _ hready _ hsched =>
    refine .same ?_ ⟨scheduling ++ [.assigned lease (s.nextGeneration + 1) database],
      by simp [assignment], ?_⟩
    · rw [active, active, leased, leased, hready]
      show (rest : Multiset Database) + image _ (s.leases.insert lease _) = _
      rw [image_insert _ _ hl, ← Multiset.cons_coe, Multiset.add_cons, Multiset.cons_add]
    · rw [Scheduling] at hsched
      split at hsched
      · obtain ⟨_, rfl⟩ := hsched
        simp [Event.retires]
      · subst hsched
        simp [Event.retires]
  | attach hl _ _ =>
    exact .same (active_update hl rfl rfl rfl) ⟨[_], rfl, by simp [Event.retires]⟩
  | detach hl _ =>
    exact .same (active_update hl rfl rfl rfl) ⟨[_], rfl, by simp [Event.retires]⟩
  | @restore lease entry hl _ _ =>
    refine .same ?_ ⟨[_, _], rfl, by simp [Event.retires]⟩
    rw [active, active, active_erase hl (t := { s with leases := s.leases.erase lease }) rfl]
    show ((entry.database :: s.inventory.ready : List Database) : Multiset Database) + _ = _
    rw [← Multiset.cons_coe, Multiset.add_cons, Multiset.cons_add]
    rfl
  | @retire lease entry accepted hl =>
    refine ⟨[_, _], rfl, ?_⟩
    rw [active, active, active_erase hl (t := { s with leases := s.leases.erase lease }) rfl]
    show _ + _ + (([entry.database] : List Database) : Multiset Database) = _
    rw [Multiset.add_cons, Multiset.coe_singleton, ← Multiset.singleton_add, add_zero]
    exact (add_comm _ _).trans (by rfl)
  | reserve _ _ _ hev =>
    refine .same rfl ⟨_, rfl, ?_⟩
    rcases hev with rfl | rfl <;> simp [Event.retires]
  | burn _ _ _ _ _ => exact .same rfl ⟨[_], rfl, by simp [Event.retires]⟩
  | clean _ => exact .same rfl ⟨[_], rfl, by simp [Event.retires]⟩
  | settle _ _ => exact ha.elim

theorem Path.flows (h : Path Q Act.Unsettling s t) (hs : Inv Q s) : Flows 0 s t := by
  refine h.invariant (I := fun t => Flows 0 s t) (fun _ _ _ ha _ hI hm => ?_) hs (.refl s)
  exact hI.before (hm.flows ha)

/-! ### Messages -/

theorem Act.Attaching.unsettling {a : Act} {base : Nat} (h : a.Attaching base) :
    a.Unsettling := by
  cases a with
  | note | enroll _ | close _ | enqueue _ | dequeue _ | assign _ _ | attach _ _ | restore _ _
  | detach _ _ | reserve | retire _ _ | clean _ | shutdown => exact trivial
  | settle _ =>
    obtain ⟨_, h⟩ := h
    exact h.elim

theorem Act.Handling.unsettling {a : Act} {message : EngineMessage C} {base : Nat}
    (h : a.Handling message base)
    (hm : ∀ databaseId result, message ≠ .databaseWorker (.creationFinished databaseId result)) :
    a.Unsettling := by
  cases a with
  | settle databaseId =>
    obtain ⟨result, he⟩ := h
    exact absurd he (hm databaseId result)
  | note | enroll _ | close _ | enqueue _ | dequeue _ | assign _ _ | attach _ _ | restore _ _
  | detach _ _ | reserve | retire _ _ | clean _ | shutdown => exact trivial

/-- An accepted creation brings its database into use. -/
theorem settledWith_flows {databaseId : Nat} (result : Except PostgresDDLClientError ReadString)
    (hc : databaseId ∈ s.inventory.creating) :
    Flows ((EngineMessage.databaseWorker (C := C) (.creationFinished databaseId result)).creates :
      List Database) s (s.settledWith databaseId result) := by
  obtain ⟨_, _, _, hok, herr⟩ :=
    @held_settle C s (s.settledWith databaseId result) databaseId result hc rfl rfl
  refine ⟨[settled databaseId result], rfl, ?_⟩
  cases result with
  | ok name =>
    rw [active, active, (hok name rfl).1, ← Multiset.coe_add]
    show _ + s.leased + (0 : Multiset Database) = _
    rw [add_zero, add_right_comm]
    rfl
  | error error =>
    rw [active, active, (herr error rfl).1]
    rfl

/-- **What a message brings into use**: the database of its creation, if the engine
waited for it. -/
theorem processMessage_flows {env : Env C} {message : EngineMessage C} (h : Inv Q s)
    (hidle : s.NoIdle) (hQ : message.Known Q) (hok : processMessage env message s = .ok t) :
    Flows 0 s t ∨ Flows (message.creates : List Database) s t := by
  by_cases hm : ∃ databaseId result,
      message = .databaseWorker (.creationFinished databaseId result)
  · obtain ⟨databaseId, result, rfl⟩ := hm
    rcases creationFinished_cases hok with ⟨_, rfl⟩ | ⟨hc, s₂, h1, h2⟩
    · exact Or.inl (.refl _)
    · refine Or.inr ?_
      have hsettle : Move Q s (.settle databaseId) (s.settledWith databaseId result) :=
        .settle result hc
      have hcount : Move Q (s.settledWith databaseId result) .note _ :=
        .count (s.counters.afterCreation result) (s.counters.afterCreation_detachOnZero result)
      have hinv := (h.move hsettle).move hcount
      have hp := (dispatchLoop_path hinv (Nat.zero_le _) rfl h1).1
      have hdispatch : Flows 0 _ s₂ := (hp.mono fun _ ha => ha.attaching.unsettling).flows hinv
      have hgrow : Flows 0 s₂ t := by
        rcases grow_cases h2 with ⟨rfl, _⟩ | ⟨_, _, _, ⟨_, rfl⟩ | ⟨_, rfl⟩⟩
        · exact .same rfl ⟨[_], rfl, by simp [Event.retires]⟩
        · exact .same rfl ⟨[_, _], rfl, by simp [Event.retires]⟩
        · exact .same rfl ⟨[_, _], rfl, by simp [Event.retires]⟩
      exact (((settledWith_flows result hc).before (hcount.flows trivial)).before
        hdispatch).before hgrow
  · have hpath := (processMessage_handles h hidle hQ hok).path
    refine Or.inl ((hpath.mono fun a ha => ?_).flows h)
    exact ha.unsettling fun databaseId result he => hm ⟨databaseId, result, he⟩

end PgTest.Engine
