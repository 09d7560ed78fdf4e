import PgTest.Engine.Message
import PgTest.Lib.Window
import PgTest.Operations.Ddl

/-!
# A batch of drops

`drop_ddl_databases` keeps a window of drops on one connection.  A completion is one
of those that are outstanding, with the answer of the server; in which order they
come is not known.  `PostgresClient::drop_databases` reports the batch to the engine,
each index once, also where there is no connection.
-/

namespace PgTest.Operations

open PgTest.Lib
open PgTest.Engine (PostgresDDLClientError)

/-- A drop, by its index in the batch. -/
abbrev IndexedDrop := Nat × List Char

/-- One of the outstanding drops, and the answer to its statement. -/
abbrev Completion := Nat × Except String Unit

/-- A batch that is being dropped. -/
abbrev Drops := Window IndexedDrop (Except String Unit)

/-- `iter().enumerate()`. -/
def enumerate (databaseNames : List (List Char)) : List IndexedDrop :=
  databaseNames.zipIdx.map Prod.swap

/-- `drop_indexed`, with the answer to its statement. -/
def dropIndexed (drop : IndexedDrop) (answer : Except String Unit) :
    Nat × Except PostgresOperationsError Unit := (drop.1, dropOnConnection (fun _ => answer) drop.2)

/-- The calls of `on_result`. -/
def reports (w : Drops) : List (Nat × Except PostgresOperationsError Unit) :=
  w.results.map fun result => dropIndexed result.1 result.2

/-- The batch after the first loop, which takes from the iterator of the second. -/
def beginDrops (databaseNames : List (List Char)) : Drops :=
  .start cleanupPipelineDepth (enumerate databaseNames)

/-- The second loop, `none` where it is not over after these completions. -/
def drain (w : Drops) (completions : List Completion) : Option Drops :=
  (completions.foldlM Window.complete w).filter fun w => w.running.isEmpty

/-- `drop_ddl_databases`, with what the cleanup pool returns: the calls of
`on_result`, and the result. -/
def dropDdlDatabases (databaseNames : List (List Char)) (acquired : Except String Unit)
    (completions : List Completion) : Option
      (List (Nat × Except PostgresOperationsError Unit) × Except PostgresOperationsError Unit) :=
  if databaseNames.isEmpty then some ([], .ok ())
  else match acquired with
    | .error source => some ([], .error (dropError "cleanup batch".toList source))
    | .ok () => (drain (beginDrops databaseNames) completions).map fun w => (reports w, .ok ())

/-- `PostgresDDLClientError::from`. -/
def ddlClientError (error : PostgresOperationsError) : PostgresDDLClientError :=
  .operationFailed error.text

/-- What `drop_databases` reports for an index where the batch has failed. -/
def unsubmitted (error : PostgresOperationsError) (drop : IndexedDrop) :
    Nat × Except PostgresDDLClientError Unit :=
  (drop.1, .error (.operationFailed
    ("unable to drop database " ++ String.ofList drop.2 ++ ": " ++ error.text)))

/-- `PostgresClient::drop_databases`: the calls of `on_finished`. -/
def dropDatabases (databaseNames : List (List Char)) (acquired : Except String Unit)
    (completions : List Completion) : Option (List (Nat × Except PostgresDDLClientError Unit)) :=
  (dropDdlDatabases databaseNames acquired completions).map fun (reported, result) =>
    (reported.map fun report => (report.1, report.2.mapError ddlClientError)) ++
      match result with
      | .ok () => []
      | .error error => (enumerate databaseNames).map (unsubmitted error)

/-! ### Indices -/

theorem map_fst_enumerate (databaseNames : List (List Char)) :
    (enumerate databaseNames).map Prod.fst = List.range databaseNames.length := by
  rw [enumerate, List.map_map]
  exact (List.zipIdx_map_snd 0 databaseNames).trans (List.range_eq_range' ).symm

theorem mem_enumerate {databaseNames : List (List Char)} {drop : IndexedDrop} :
    drop ∈ enumerate databaseNames ↔ databaseNames[drop.1]? = some drop.2 := by
  obtain ⟨index, name⟩ := drop
  rw [enumerate, List.mem_map]
  constructor
  · rintro ⟨⟨name', index'⟩, hm, heq⟩
    cases heq
    exact List.mem_zipIdx_iff_getElem?.mp hm
  · intro h
    exact ⟨(name, index), List.mem_zipIdx_iff_getElem?.mpr h, rfl⟩

theorem length_enumerate (databaseNames : List (List Char)) :
    (enumerate databaseNames).length = databaseNames.length := by
  rw [enumerate, List.length_map, List.length_zipIdx]

/-! ### A batch on its way -/

/-- The completions of a batch of drops. -/
def batch (databaseNames : List (List Char)) : Machine Drops Completion :=
  Window.machine cleanupPipelineDepth (enumerate databaseNames)

/-- What holds of a batch after some completions. -/
structure InProgress (databaseNames : List (List Char)) (completions : List Completion)
    (w : Drops) : Prop where
  inOrder : w.submitted.map Prod.fst = List.range w.submitted.length
  bounded : w.running.length ≤ cleanupPipelineDepth
  /-- What was submitted is outstanding or has been reported. -/
  once : ((reports w).map Prod.fst ++ w.running.map Prod.fst).Perm
    (List.range w.submitted.length)
  counted : (reports w).length = completions.length
  /-- Each completion is reported with its own answer, in their order. -/
  answered : w.results.map Prod.snd = completions.map Prod.snd
  atMost : completions.length ≤ databaseNames.length
  /-- The next completion, of any of those that are outstanding, is reported as its own. -/
  own : ∀ position drop answer, w.running[position]? = some drop →
    databaseNames[drop.1]? = some drop.2 ∧ ∃ t, w.complete (position, answer) = some t ∧
      reports t = reports w ++ [dropIndexed drop answer]
  ended : w.running = [] →
    w.submitted.length = databaseNames.length ∧
      ((reports w).map Prod.fst).Perm (List.range databaseNames.length)
  /-- With other answers to the same completions, the same drops are submitted. -/
  independent : ∀ others : List Completion, others.map Prod.fst = completions.map Prod.fst →
    ∃ t, (batch databaseNames).Run (beginDrops databaseNames) others t ∧
      t.submitted = w.submitted ∧ t.running = w.running ∧
      (reports t).map Prod.fst = (reports w).map Prod.fst

theorem map_fst_reports (w : Drops) :
    (reports w).map Prod.fst = (w.results.map Prod.fst).map Prod.fst := by
  rw [reports, List.map_map, List.map_map]
  rfl

theorem reports_of_blank {w t : Drops} (h : t.blank = w.blank) :
    (reports t).map Prod.fst = (reports w).map Prod.fst := by
  have hresults : t.results.map (fun result => (result.1, ())) =
      w.results.map (fun result => (result.1, ())) :=
    congrArg (fun x : Window IndexedDrop Unit => x.results) h
  have hdrops : t.results.map Prod.fst = w.results.map Prod.fst := by
    have hmap := congrArg (List.map Prod.fst) hresults
    rwa [List.map_map, List.map_map] at hmap
  rw [map_fst_reports, map_fst_reports, hdrops]

variable {databaseNames : List (List Char)} {completions : List Completion} {w : Drops}

section Invariant

variable (h : Window.Inv cleanupPipelineDepth (enumerate databaseNames) w)

include h

theorem length_submitted_le : w.submitted.length ≤ databaseNames.length := by
  rw [← length_enumerate]
  exact (show w.submitted <+: enumerate databaseNames from ⟨w.waiting, h.order⟩).length_le

/-- What is submitted is the front of the batch, index by index. -/
theorem indices_submitted : w.submitted.map Prod.fst = List.range w.submitted.length := by
  have hfront : w.submitted <+: enumerate databaseNames := ⟨w.waiting, h.order⟩
  have htake := List.prefix_iff_eq_take.mp (hfront.map Prod.fst)
  rw [map_fst_enumerate, List.length_map, List.take_range] at htake
  rwa [Nat.min_eq_left (length_submitted_le h)] at htake

theorem name_of_submitted {drop : IndexedDrop} (hd : drop ∈ w.submitted) :
    databaseNames[drop.1]? = some drop.2 :=
  mem_enumerate.mp (h.order ▸ List.mem_append_left _ hd)

theorem indices_once : ((reports w).map Prod.fst ++ w.running.map Prod.fst).Perm
    (List.range w.submitted.length) := by
  rw [map_fst_reports, ← List.map_append, ← indices_submitted h]
  exact h.once.map Prod.fst

theorem ended_of_inv (hrun : w.running = []) : w.submitted.length = databaseNames.length ∧
    ((reports w).map Prod.fst).Perm (List.range databaseNames.length) := by
  obtain ⟨hall, hperm⟩ := h.ended (by decide) hrun
  refine ⟨by rw [hall, length_enumerate], ?_⟩
  rw [map_fst_reports, ← map_fst_enumerate]
  exact hperm.map Prod.fst

end Invariant

theorem answers_reported
    (h : (batch databaseNames).Run (beginDrops databaseNames) completions w) :
    w.results.map Prod.snd = completions.map Prod.snd := by
  have hresults := Window.results_run h
  rwa [beginDrops, Window.start_results, List.map_nil, List.nil_append] at hresults

theorem length_reports
    (h : (batch databaseNames).Run (beginDrops databaseNames) completions w) :
    (reports w).length = completions.length := by
  have hlen := congrArg List.length (answers_reported h)
  rwa [List.length_map, List.length_map, ← List.length_map] at hlen

/-- A drop that ends is reported, and only this one. -/
theorem reports_complete {position : Nat} {drop : IndexedDrop}
    (hd : w.running[position]? = some drop) (answer : Except String Unit) :
    ∃ t, w.complete (position, answer) = some t ∧
      reports t = reports w ++ [dropIndexed drop answer] := by
  refine ⟨_, Window.complete_eq_some.mpr ⟨drop, hd, rfl⟩, ?_⟩
  rw [reports, Window.next_results, Window.finished, List.map_append]
  rfl

/-- **Every batch on its way** has what was submitted in its place. -/
theorem inProgress_of_run
    (h : (batch databaseNames).Run (beginDrops databaseNames) completions w) :
    InProgress databaseNames completions w := by
  have hinv : Window.Inv cleanupPipelineDepth (enumerate databaseNames) w := Window.Inv.run h
  refine ⟨indices_submitted hinv, hinv.bounded, indices_once hinv, length_reports h,
    answers_reported h, ?_, fun position drop answer hd => ⟨?_, reports_complete hd answer⟩,
    ended_of_inv hinv, fun others hpos => ?_⟩
  · have hlen := (indices_once hinv).length_eq
    have hle := length_submitted_le hinv
    rw [List.length_append, List.length_map, List.length_range, length_reports h] at hlen
    omega
  · exact name_of_submitted hinv
      (hinv.once.mem_iff.mp (List.mem_append_right _ (List.mem_of_getElem? hd)))
  · obtain ⟨t, ht, hblank⟩ := Window.blank_run h (u := beginDrops databaseNames) rfl hpos
    exact ⟨t, ht, (congrArg (fun x : Window IndexedDrop Unit => x.submitted) hblank).symm,
      (congrArg (fun x : Window IndexedDrop Unit => x.running) hblank).symm,
      reports_of_blank hblank.symm⟩

theorem drain_eq_some :
    drain (beginDrops databaseNames) completions = some w ↔
      (batch databaseNames).Run (beginDrops databaseNames) completions w ∧ w.running = [] := by
  rw [drain, Option.filter_eq_some_iff, List.isEmpty_iff, batch, Window.run_iff_foldlM]

/-! ### What is reported -/

/-- A batch that ends has reported each index, unless there was no connection. -/
theorem dropDdlDatabases_some {acquired : Except String Unit}
    {reported : List (Nat × Except PostgresOperationsError Unit)}
    {result : Except PostgresOperationsError Unit}
    (h : dropDdlDatabases databaseNames acquired completions = some (reported, result)) :
    (result = .ok () ∧ (reported.map Prod.fst).Perm (List.range databaseNames.length) ∧
      ∀ report ∈ reported, ∃ name, ∃ completion ∈ completions,
        databaseNames[report.1]? = some name ∧
          report.2 = dropOnConnection (fun _ => completion.2) name) ∨
    ∃ source, acquired = .error source ∧ reported = [] ∧
      result = .error (dropError "cleanup batch".toList source) := by
  unfold dropDdlDatabases at h
  split at h
  case isTrue hempty =>
    cases h
    rw [List.isEmpty_iff.mp hempty]
    exact Or.inl ⟨rfl, .nil, fun _ hr => absurd hr List.not_mem_nil⟩
  case isFalse _ =>
    cases acquired with
    | error source =>
      cases h
      exact Or.inr ⟨source, rfl, rfl, rfl⟩
    | ok _ =>
      obtain ⟨w, hdrain, heq⟩ := Option.map_eq_some_iff.mp h
      cases heq
      obtain ⟨hrun, hover⟩ := drain_eq_some.mp hdrain
      have hinv : Window.Inv cleanupPipelineDepth (enumerate databaseNames) w := Window.Inv.run hrun
      refine Or.inl ⟨rfl, (ended_of_inv hinv hover).2, fun report hr => ?_⟩
      obtain ⟨⟨drop, answer⟩, hm, rfl⟩ := List.mem_map.mp hr
      have hdrop : drop ∈ w.submitted :=
        hinv.once.mem_iff.mp (List.mem_append_left _ (List.mem_map_of_mem hm))
      have hanswer : answer ∈ completions.map Prod.snd := by
        rw [← answers_reported hrun]
        exact List.mem_map_of_mem hm
      obtain ⟨completion, hc, rfl⟩ := List.mem_map.mp hanswer
      exact ⟨drop.2, completion, hc, name_of_submitted hinv hdrop, rfl⟩

/-- Without a connection every index has the same failure. -/
theorem dropDatabases_unavailable (databaseNames : List (List Char)) (source : String)
    (completions : List Completion) :
    dropDatabases databaseNames (.error source) completions =
      some ((enumerate databaseNames).map
        (unsubmitted (dropError "cleanup batch".toList source))) := by
  rw [dropDatabases, dropDdlDatabases]
  cases databaseNames with
  | nil => rfl
  | cons name databaseNames => rfl

/-- What `drop_databases` has reported when it returns. -/
structure Reported (databaseNames : List (List Char)) (acquired : Except String Unit)
    (completions : List Completion)
    (reported : List (Nat × Except PostgresDDLClientError Unit)) : Prop where
  indices : (reported.map Prod.fst).Perm (List.range databaseNames.length)
  own : ∀ report ∈ reported, ∃ name, databaseNames[report.1]? = some name ∧
    ((∃ completion ∈ completions,
        report.2 = (dropOnConnection (fun _ => completion.2) name).mapError ddlClientError) ∨
      ∃ source, acquired = .error source ∧ report.2 = .error (.operationFailed
        ("unable to drop database " ++ String.ofList name ++ ": " ++
          (dropError "cleanup batch".toList source).text)))

theorem reported_of_some {acquired : Except String Unit}
    {reported : List (Nat × Except PostgresDDLClientError Unit)}
    (h : dropDatabases databaseNames acquired completions = some reported) :
    Reported databaseNames acquired completions reported := by
  obtain ⟨⟨calls, result⟩, hcalls, rfl⟩ := Option.map_eq_some_iff.mp h
  rcases dropDdlDatabases_some hcalls with ⟨rfl, hperm, hown⟩ | ⟨source, hsource, rfl, rfl⟩
  · constructor
    · simp only [List.append_nil, List.map_map]
      exact hperm
    · intro report hr
      simp only [List.append_nil] at hr
      obtain ⟨call, hc, rfl⟩ := List.mem_map.mp hr
      obtain ⟨name, completion, hcompletion, hname, hanswer⟩ := hown call hc
      exact ⟨name, hname, Or.inl ⟨completion, hcompletion, by rw [hanswer]⟩⟩
  · constructor
    · simp only [List.map_nil, List.nil_append, List.map_map]
      rw [← map_fst_enumerate]
      exact .refl _
    · intro report hr
      simp only [List.map_nil, List.nil_append] at hr
      obtain ⟨drop, hd, rfl⟩ := List.mem_map.mp hr
      exact ⟨drop.2, mem_enumerate.mp hd, Or.inr ⟨source, hsource, rfl⟩⟩

/-- A run that has ended is what the function returns. -/
theorem dropDdlDatabases_of_run
    (h : (batch databaseNames).Run (beginDrops databaseNames) completions w)
    (hrun : w.running = []) :
    dropDdlDatabases databaseNames (.ok ()) completions = some (reports w, .ok ()) := by
  rw [dropDdlDatabases]
  split
  case isTrue hempty =>
    have hall := ((inProgress_of_run h).ended hrun).2.length_eq
    rw [List.isEmpty_iff.mp hempty, List.length_map] at hall
    have hnil : reports w = [] := List.eq_nil_of_length_eq_zero hall
    rw [hnil]
  case isFalse _ => simp only [drain_eq_some.mpr ⟨h, hrun⟩, Option.map_some]

/-- So is what the engine is told of it, error by error. -/
theorem dropDatabases_of_run
    (h : (batch databaseNames).Run (beginDrops databaseNames) completions w)
    (hrun : w.running = []) :
    dropDatabases databaseNames (.ok ()) completions =
      some ((reports w).map fun report => (report.1, report.2.mapError ddlClientError)) := by
  simp only [dropDatabases, dropDdlDatabases_of_run h hrun, Option.map_some, List.append_nil]

/-- **Every drop of a batch is reported once.**

In every order of the completions and with every answer, the drops are submitted in
order, with at most `cleanupPipelineDepth` of them outstanding, and each index is
reported once, with the result of its own drop.  While a drop is outstanding any of
those can be the next one, and no batch has more completions than names, so it ends,
with everything reported.  `drop_databases` returns the same reports at that end, and
one failure for each index where it gets no connection, so it has one result for each
index in every case. -/
theorem drops_reported_once (databaseNames : List (List Char)) :
    (∀ completions w, (batch databaseNames).Run (beginDrops databaseNames) completions w →
      InProgress databaseNames completions w ∧
        (w.running = [] →
          dropDdlDatabases databaseNames (.ok ()) completions = some (reports w, .ok ()) ∧
          dropDatabases databaseNames (.ok ()) completions =
            some ((reports w).map fun report =>
              (report.1, report.2.mapError ddlClientError)))) ∧
    (∀ acquired completions reported result,
      dropDdlDatabases databaseNames acquired completions = some (reported, result) →
      (result = .ok () → (reported.map Prod.fst).Perm (List.range databaseNames.length)) ∧
        ∀ error, result = .error error → reported = []) ∧
    (∀ acquired completions reported,
      dropDatabases databaseNames acquired completions = some reported →
      Reported databaseNames acquired completions reported) ∧
    ∀ source completions, dropDatabases databaseNames (.error source) completions =
      some ((enumerate databaseNames).map
        (unsubmitted (dropError "cleanup batch".toList source))) := by
  refine ⟨fun completions w h => ⟨inProgress_of_run h, fun hrun => ?_⟩,
    fun acquired completions reported result h => ?_,
    fun acquired completions reported h => reported_of_some h,
    dropDatabases_unavailable databaseNames⟩
  · exact ⟨dropDdlDatabases_of_run h hrun, dropDatabases_of_run h hrun⟩
  · rcases dropDdlDatabases_some h with ⟨rfl, hperm, _⟩ | ⟨source, _, rfl, rfl⟩
    · exact ⟨fun _ => hperm, fun error he => (by cases he)⟩
    · exact ⟨fun he => (by cases he), fun _ _ => rfl⟩

/-- The second of two drops ends first, and fails. -/
theorem drops_reported_once_out_of_order :
    dropDatabases ["a".toList, "b".toList] (.ok ()) [(1, .error "busy"), (0, .ok ())] =
      some [(1, .error (.operationFailed "unable to drop database b: busy")), (0, .ok ())] := by
  obtain ⟨w, hw⟩ : ∃ w, (batch ["a".toList, "b".toList]).Run
      (beginDrops ["a".toList, "b".toList]) [(1, .error "busy"), (0, .ok ())] w ∧
      w.running = [] ∧ reports w =
        [dropIndexed (1, "b".toList) (.error "busy"), dropIndexed (0, "a".toList) (.ok ())] :=
    ⟨_, Window.run_iff_foldlM.mpr rfl, rfl, rfl⟩
  have hreturned := (((drops_reported_once ["a".toList, "b".toList]).1 _ w hw.1).2 hw.2.1).2
  rw [hw.2.2] at hreturned
  exact hreturned

end PgTest.Operations
