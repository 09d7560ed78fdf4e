import PgTest.Engine.Refinement

/-!
# Initialisation settles every reservation

`try_init` reserves the initial slots and settles one of them with each report.
The client reports every index once, in any order, so `reports_settle` runs over
the reports with what is left of `creating` being what is left of them.
-/

namespace PgTest.Engine

open PgTest.Lib

variable {C : Type}

/-- One report of the client: an index of the batch, and what came of it. -/
abbrev Report := Nat × Except PostgresDDLClientError ReadString

/-- The database that a report brings. -/
def Report.database : Report → Option Database
  | (index, .ok databaseName) => some ⟨index + 1, databaseName⟩
  | (_, .error _) => none

def Report.failure : Report → Option PostgresDDLClientError
  | (_, .ok _) => none
  | (_, .error error) => some error

theorem Report.failure_none (report : Report) :
    report.failure = none ↔ ∃ databaseName, report.2 = .ok databaseName := by
  obtain ⟨index, result⟩ := report
  cases result <;> simp [Report.failure]

namespace WorkerEngine

/-- The engine after one report of the initial batch. -/
def reported (report : Report) (s : WorkerEngine C) : WorkerEngine C :=
  { s with
    inventory := { s.inventory with
      creating := s.inventory.creating.erase (report.1 + 1)
      ready := s.inventory.ready ++ report.database.toList }
    history := settled (report.1 + 1) report.2 :: s.history }

theorem reportInitial_eq {amount : Nat} {first : Option PostgresDDLClientError}
    {s : WorkerEngine C} {report : Report} (hamount : amount ≤ u64Max) (hi : report.1 < amount)
    (hc : report.1 + 1 ∈ s.inventory.creating) :
    reportInitial ⟨1, amount⟩ (first, s) report =
      .ok (first.or report.failure, s.reported report) := by
  obtain ⟨index, result⟩ := report
  have hid : CreateDatabases.databaseIdAt ⟨1, amount⟩ index = .ok (index + 1) := by
    rw [DatabaseInventory.databaseIdAt_ok hi (by simp only at hi ⊢; omega)]
    simp only [Nat.add_comm]
  simp only [reportInitial, hid]
  cases result with
  | ok name =>
    simp only [DatabaseInventory.completeCreation, bind, Except.bind, if_pos hc]
    rw [Report.failure, Option.or_none]
    rfl
  | error error =>
    simp only [DatabaseInventory.completeCreation, bind, Except.bind, if_pos hc]
    rw [reported, Report.database, Option.toList_none, List.append_nil]
    rfl

/-- **The loop of the reports**, where those to come are what is being created. -/
theorem reports_settle {amount : Nat} (hamount : amount ≤ u64Max) :
    ∀ {reports : List Report} {first : Option PostgresDDLClientError} {s : WorkerEngine C},
    (∀ report ∈ reports, report.1 < amount) → (reports.map Prod.fst).Nodup →
    s.inventory.creating = (reports.map (·.1 + 1)).toFinset →
    reports.foldlM (reportInitial ⟨1, amount⟩) (first, s) =
      .ok (first.or (reports.findSome? Report.failure), { s with
        inventory := { s.inventory with
          creating := ∅
          ready := s.inventory.ready ++ reports.filterMap Report.database }
        history := (reports.map fun report => settled (report.1 + 1) report.2).reverse ++
          s.history }) := by
  intro reports
  induction reports with
  | nil =>
    intro first s _ _ hc
    simp at hc
    simp [← hc, pure, Except.pure]
  | cons report reports ih =>
    intro first s hlt hnd hc
    have hmem : report.1 + 1 ∈ s.inventory.creating := by simp [hc]
    rw [List.map_cons, List.nodup_cons] at hnd
    have hrest : (s.reported report).inventory.creating = (reports.map (·.1 + 1)).toFinset := by
      have hnot : report.1 + 1 ∉ (reports.map (·.1 + 1)).toFinset := by
        intro h
        obtain ⟨other, ho, he⟩ := List.mem_map.mp (List.mem_toFinset.mp h)
        apply hnd.1
        rw [← Nat.succ.inj he]
        exact List.mem_map_of_mem ho
      show s.inventory.creating.erase (report.1 + 1) = _
      rw [hc, List.map_cons, List.toFinset_cons, Finset.erase_insert hnot]
    rw [List.foldlM_cons, reportInitial_eq hamount (hlt report List.mem_cons_self) hmem]
    refine (ih (fun r hr => hlt r (List.mem_cons_of_mem _ hr)) hnd.2 hrest).trans ?_
    have hfirst : (first.or report.failure).or (reports.findSome? Report.failure) =
        first.or ((report :: reports).findSome? Report.failure) := by
      rw [Option.or_assoc, List.findSome?_cons]
      cases report.failure <;> rfl
    have hready : s.inventory.ready ++ report.database.toList ++
        reports.filterMap Report.database =
          s.inventory.ready ++ (report :: reports).filterMap Report.database := by
      rw [List.append_assoc, List.filterMap_cons]
      cases report.database <;> rfl
    have hhistory : (reports.map fun report => settled (report.1 + 1) report.2).reverse ++
        (settled (report.1 + 1) report.2 :: s.history) =
          (((report :: reports).map fun report => settled (report.1 + 1) report.2).reverse ++
            s.history : List (Event C)) := by
      rw [List.map_cons, List.reverse_cons, List.append_assoc, List.singleton_append]
    rw [hfirst]
    simp only [reported, hready, hhistory]

/-- What `try_init` returns for the first error that was reported. -/
def initResult : Option PostgresDDLClientError → Except PostgresDDLClientError Unit
  | none => .ok ()
  | some error => .error error

theorem initResult_ok {first : Option PostgresDDLClientError} :
    initResult first = .ok () ↔ first = none := by
  cases first <;> simp [initResult]

theorem initResult_error {first : Option PostgresDDLClientError} {error : PostgresDDLClientError} :
    initResult first = .error error ↔ first = some error := by
  cases first <;> simp [initResult]

/-- The engine after all reports of the initial batch. -/
def initialised (config : WorkerEngineConfig) (reports : List Report) : WorkerEngine C :=
  { WorkerEngine.new config with
    inventory := {
      nextDatabaseId := config.initialSlots
      creating := ∅
      ready := reports.filterMap Report.database
      retiring := ∅ }
    history := (reports.map fun report => settled (report.1 + 1) report.2).reverse }

/-- **What `try_init` does** where every index is reported once. -/
theorem tryInit_eq {config : WorkerEngineConfig} {reports : List Report}
    (hmax : config.initialSlots ≤ u64Max)
    (horder : (reports.map Prod.fst).Perm (List.range config.initialSlots)) :
    (WorkerEngine.new config : WorkerEngine C).tryInit reports =
      .ok (initResult (reports.findSome? Report.failure), initialised config reports) := by
  have hlt : ∀ report ∈ reports, report.1 < config.initialSlots := by
    intro report hr
    exact List.mem_range.mp (horder.subset (List.mem_map_of_mem hr))
  by_cases hz : config.initialSlots = 0
  · have hnone : reports = [] := by
      rw [hz, List.range_zero] at horder
      exact List.map_eq_nil_iff.mp horder.eq_nil
    subst hnone
    rw [tryInit_new, if_pos hz, initialised, hz]
    rfl
  · have hids : (CreateDatabases.mk 1 config.initialSlots).ids =
        (reports.map (·.1 + 1)).toFinset := by
      have hp := horder.map (1 + ·)
      rw [List.map_map] at hp
      rw [CreateDatabases.ids, ← DatabaseInventory.toFinset_range_map]
      simpa [Nat.add_comm, Function.comp_def] using List.toFinset_eq_of_perm _ _ hp.symm
    have hnd : (reports.map Prod.fst).Nodup := horder.nodup_iff.mpr List.nodup_range
    rw [tryInit_new, if_neg hz, if_pos hmax, reports_settle hmax hlt hnd hids]
    rw [Option.none_or]
    -- the new engine has no history before the reports
    have hdone : ∀ result, (.ok (result, { initialised config reports with
        history := (reports.map fun report => settled (report.1 + 1) report.2).reverse ++ [] }) :
          Except Panic (Except PostgresDDLClientError Unit × WorkerEngine C)) =
        .ok (result, initialised config reports) := by
      intro result
      rw [List.append_nil]
      rfl
    cases reports.findSome? Report.failure with
    | none => exact hdone (.ok ())
    | some error => exact hdone (.error error)

end WorkerEngine

open WorkerEngine

/-- **Initialisation settles every reservation.**  The number of initial slots is
a `u16`.  Whatever the order of the reports and whichever of them failed, no
completion is without a reservation, nothing is left in `creating`, and the
successful reports are ready in their order.  The result is the first error that
was reported, and there is none exactly where no report failed. -/
theorem initialisation_settles (config : WorkerEngineConfig)
    (hslots : config.initialSlots ≤ u16Max) (reports : List Report)
    (horder : (reports.map Prod.fst).Perm (List.range config.initialSlots)) :
    ∃ result s, (WorkerEngine.new config : WorkerEngine C).tryInit reports = .ok (result, s) ∧
      s.inventory.creating = ∅ ∧ s.inventory.nextDatabaseId = config.initialSlots ∧
      s.inventory.ready = reports.filterMap Report.database ∧
      s.inventory.retiring = ∅ ∧ s.leases = ∅ ∧ s.waiters = [] ∧ s.groupWaiters = ∅ ∧
      (result = .ok () ↔ ∀ report ∈ reports, ∃ databaseName, report.2 = .ok databaseName) ∧
      ∀ error, result = .error error ↔ reports.findSome? Report.failure = some error := by
  have hmax : config.initialSlots ≤ u64Max := hslots.trans (by decide)
  refine ⟨_, _, tryInit_eq hmax horder, rfl, rfl, rfl, rfl, rfl, rfl, rfl, ?_, fun error => ?_⟩
  · rw [initResult_ok, List.findSome?_eq_none_iff]
    constructor
    · intro h report hr
      exact report.failure_none.mp (h report hr)
    · intro h report hr
      exact report.failure_none.mpr (h report hr)
  · exact initResult_error

/-- Two initial slots, of which the second is reported first and the first failed. -/
theorem initialisation_settles_small : ∃ result, ∃ s : WorkerEngine Nat,
    (WorkerEngine.new Sample.settings).tryInit
        [(1, .ok "second"), (0, .error (.operationFailed "no template"))] = .ok (result, s) ∧
      s.inventory.creating = ∅ ∧ s.inventory.ready = [⟨2, "second"⟩] ∧
      result = .error (.operationFailed "no template") := by
  obtain ⟨result, s, hok, hc, _, hready, _, _, _, _, _, herror⟩ :=
    initialisation_settles (C := Nat) Sample.settings (by decide)
      [(1, .ok "second"), (0, .error (.operationFailed "no template"))] (by decide)
  exact ⟨result, s, hok, hc, hready, (herror _).mpr rfl⟩

end PgTest.Engine
