import PgTest.Lib.Pool
import PgTest.Operations.Drops
import PgTest.Operations.Sweep

/-!
# Batches of creations

`run_bounded` keeps a window of creations for each batch, and each creation takes a
connection of the creation pool for its one statement.  The pool is that of the driver:
it hands out at most as many connections as it has, and a wait for one may fail.  Batches
run side by side, and each may be dropped with its creations.

`create_databases` reports one result for each index of a batch, whatever the order in
which its creations end.
-/

namespace PgTest.Operations

open PgTest.Lib
open PgTest.Engine (PostgresDDLClientError ReadString)

/-- The letters of a creation, and what it got: no connection, or the answer to its
statement. -/
abbrev Attempt := Choices generatedIdLen × Except String (Except String Unit)

/-- A creation that ends, by its place in the window, with its attempt. -/
abbrev Creation := Nat × Attempt

/-- How many futures `run_bounded` keeps: `limit.min(amount).max(1)`. -/
def creationWindow (limit amount : Nat) : Nat := max (min limit amount) 1

/-- The loop of `run_bounded`, `none` where it is not over after these completions. -/
def runBounded {β : Type} (amount limit : Nat) (completions : List (Nat × β)) :
    Except Failure (Option (List (Nat × β))) :=
  if 0 < limit then
    let window : Window Nat β := .start (creationWindow limit amount) (List.range amount)
    .ok (((completions.foldlM Window.complete window).filter fun w => w.running.isEmpty).map
      Window.results)
  else .error .panic

/-- `create_ddl_database` of an attempt. -/
def attempted (manager : PostgresManager) (attempt : Attempt) :
    Except PostgresOperationsError (List Char) :=
  createDdlDatabase manager attempt.1 (attempt.2.map fun answer _ => answer)

/-- `create_ddl_databases`: the calls of `on_result`. -/
def createDdlDatabases (manager : PostgresManager) (amount : Nat) (completions : List Creation) :
    Except Failure (Option (List (Nat × Except PostgresOperationsError (List Char)))) :=
  if amount = 0 then .ok (some [])
  else (runBounded amount manager.creationConcurrency completions).map fun results =>
    results.map fun results => results.map fun (index, attempt) => (index, attempted manager attempt)

/-- What `on_finished` gets for an attempt. -/
def created (manager : PostgresManager) (attempt : Attempt) :
    Except PostgresDDLClientError ReadString :=
  ((attempted manager attempt).mapError ddlClientError).map String.ofList

/-- `PostgresClient::create_databases`: the calls of `on_finished`. -/
def createDatabases (manager : PostgresManager) (amount : Nat) (completions : List Creation) :
    Except Failure (Option (List (Nat × Except PostgresDDLClientError ReadString))) :=
  (createDdlDatabases manager amount completions).map fun results =>
    results.map fun results => results.map fun (index, result) =>
      (index, (result.mapError ddlClientError).map String.ofList)

/-! ### The pool -/

/-- What may happen to the batches and to the pool. -/
inductive PoolTurn
  /-- Another call of `create_ddl_databases`. -/
  | start (amount : Nat)
  | acquire (batch index : Nat)
  /-- `pool.get` fails. -/
  | unavailable (batch index : Nat) (id : Choices generatedIdLen) (source : String)
  /-- The server answers a `CREATE DATABASE`. -/
  | answer (batch index : Nat) (id : Choices generatedIdLen) (result : Except String Unit)
  /-- The future of a batch is dropped. -/
  | abandon (batch : Nat)

def PoolTurn.turn : PoolTurn → Pool.Turn Nat Attempt
  | .start amount => .start (List.range amount)
  | .acquire batch index => .acquire batch index
  | .unavailable batch index id source => .refuse batch index (id, .error source)
  | .answer batch index id result => .finish batch index (id, .ok result)
  | .abandon batch => .abandon batch

/-- The window of a batch, by its indices. -/
def batchDepth (limit : Nat) (indices : List Nat) : Nat := creationWindow limit indices.length

/-- The creation pool of a manager, with the batches that use it. -/
def creations (manager : PostgresManager) : Machine (Pool Nat Attempt) PoolTurn where
  init s := s = ⟨[], []⟩
  step s turn t := turn ≠ .start 0 ∧
    s.act manager.creationConcurrency (batchDepth manager.creationConcurrency) turn.turn = some t

/-! ### The window of a batch -/

theorem creationWindow_pos (limit amount : Nat) : 0 < creationWindow limit amount :=
  Nat.le_max_right _ _

/-- For a batch that has a creation, the window is the smaller of both. -/
theorem creationWindow_eq {limit amount : Nat} (hl : 0 < limit) (ha : 0 < amount) :
    creationWindow limit amount = min limit amount := by
  rw [creationWindow]
  omega

/-- A batch of creations on its way. -/
structure CreationBatch (limit amount : Nat) (w : Window Nat Attempt) : Prop where
  /-- Creations start in the order of their indices, -/
  inOrder : w.submitted = List.range w.submitted.length
  /-- so many at the same time, -/
  bounded : w.running.length ≤ min limit amount
  /-- no less while one has not started. -/
  full : w.submitted.length < amount → w.running.length = min limit amount
  /-- A creation that has started runs or was reported, once. -/
  once : (w.results.map Prod.fst ++ w.running).Perm (List.range w.submitted.length)
  ended : w.running = [] → (w.results.map Prod.fst).Perm (List.range amount)

theorem creationBatch_of_inv {limit amount : Nat} {w : Window Nat Attempt} (hl : 0 < limit)
    (ha : 0 < amount)
    (h : Window.Inv (creationWindow limit amount) (List.range amount) w) :
    CreationBatch limit amount w := by
  have hwindow := creationWindow_eq hl ha
  have hfront : w.submitted <+: List.range amount := ⟨w.waiting, h.order⟩
  have hle : w.submitted.length ≤ amount := by
    have hlen := hfront.length_le
    rwa [List.length_range] at hlen
  have horder : w.submitted = List.range w.submitted.length := by
    have htake := List.prefix_iff_eq_take.mp hfront
    rw [List.take_range, Nat.min_eq_left hle] at htake
    exact htake
  refine ⟨horder, hwindow ▸ h.bounded, fun hlt => ?_, horder ▸ h.once, fun hrun => ?_⟩
  · rw [← hwindow]
    refine h.full fun hnone => ?_
    have hall := congrArg List.length h.order
    rw [hnone, List.append_nil, List.length_range] at hall
    omega
  · exact (h.ended (creationWindow_pos _ _) hrun).2

/-- **What `create_databases` reports** when it returns: one result for each index. -/
theorem createDatabases_indices {manager : PostgresManager} {amount : Nat}
    {completions : List Creation}
    {reports : List (Nat × Except PostgresDDLClientError ReadString)}
    (h : createDatabases manager amount completions = .ok (some reports)) :
    (reports.map Prod.fst).Perm (List.range amount) ∧
      ∀ report ∈ reports, ∃ attempt, report.2 = created manager attempt := by
  rw [createDatabases, createDdlDatabases] at h
  by_cases ha : amount = 0
  · rw [if_pos ha] at h
    cases h
    rw [ha]
    exact ⟨.nil, fun _ hm => absurd hm List.not_mem_nil⟩
  rw [if_neg ha, runBounded] at h
  split at h
  case isFalse => cases h
  case isTrue hl =>
    obtain ⟨reported, hreported, rfl⟩ := Option.map_eq_some_iff.mp (Except.ok.inj h)
    obtain ⟨results, hresults, rfl⟩ := Option.map_eq_some_iff.mp hreported
    obtain ⟨w, hw, rfl⟩ := Option.map_eq_some_iff.mp hresults
    obtain ⟨hrun, hover⟩ := Option.filter_eq_some_iff.mp hw
    have hinv := Window.Inv.run (Window.run_iff_foldlM.mpr hrun)
    have hended := (hinv.ended (creationWindow_pos _ _) (List.isEmpty_iff.mp hover)).2
    refine ⟨?_, fun report hr => ?_⟩
    · rw [List.map_map, List.map_map]
      exact hended
    · obtain ⟨call, hc, rfl⟩ := List.mem_map.mp hr
      obtain ⟨result, _, rfl⟩ := List.mem_map.mp hc
      exact ⟨result.2, rfl⟩

/-- The manager that `start` returns has a connection to create databases with. -/
theorem start_concurrency {parallelTestId : Choices 4} {server : Server} {config : PostgresConfig}
    {manager : PostgresManager} (h : start parallelTestId server config = .ok manager) :
    0 < manager.creationConcurrency := by
  rw [start] at h
  split at h
  · cases h
  rename_i hcreation
  split at h
  · cases h
  obtain ⟨_, _, h⟩ := bind_ok h
  obtain ⟨_, _, h⟩ := bind_ok h
  obtain ⟨_, _, h⟩ := bind_ok h
  obtain ⟨_, _, h⟩ := bind_ok h
  split at h <;> cases h
  exact Nat.pos_of_ne_zero hcreation

/-! ### All batches at once -/

/-- The turns that end creations: they get connections, and the server answers. -/
def PoolTurn.Answers (outcome : Nat → Nat → Choices generatedIdLen × Except String Unit) :
    PoolTurn → Prop
  | .acquire _ _ => True
  | .answer batch index id result => (id, result) = outcome batch index
  | .start _ | .unavailable _ _ _ _ | .abandon _ => False

section Pooled

variable {manager : PostgresManager} {s t : Pool Nat Attempt}

/-- Every batch has its indices. -/
theorem creations_indexed (h : (creations manager).Reachable s) {batch : Nat}
    {found : Pool.Task Nat Attempt} (hf : s.tasks[batch]? = some (some found)) :
    ∃ amount, 0 < amount ∧ found.items = List.range amount := by
  refine h.invariant (I := fun s => ∀ (batch : Nat) (found : Pool.Task Nat Attempt),
    s.tasks[batch]? = some (some found) → ∃ amount, 0 < amount ∧ found.items = List.range amount)
    ?_ ?_ batch found hf
  · rintro s rfl batch found hf
    cases hf
  · rintro s turn t _ hI ⟨hstart, hok⟩ batch found hf
    rcases Pool.act_items hok hf with hturn | ⟨before, hb, hitems⟩
    · cases turn with
      | start amount =>
        refine ⟨amount, Nat.pos_of_ne_zero fun hz => hstart (hz ▸ rfl), ?_⟩
        exact (Pool.Turn.start.inj hturn).symm
      | acquire _ _ | unavailable _ _ _ _ | answer _ _ _ _ | abandon _ => cases hturn
    · rw [← hitems]
      exact hI batch before hb

theorem creations_inv (h : (creations manager).Reachable s) :
    Pool.Inv manager.creationConcurrency (batchDepth manager.creationConcurrency) s := by
  refine h.invariant (fun s hs => Pool.reachable_inv (.of_init hs)) fun s turn t _ hI hstep => ?_
  exact hI.act hstep.2

/-- The batch of a task. -/
theorem creationBatch_of_task (hc : 0 < manager.creationConcurrency)
    (h : Pool.Inv manager.creationConcurrency (batchDepth manager.creationConcurrency) s)
    {batch amount : Nat} {found : Pool.Task Nat Attempt} (ha : 0 < amount)
    (hf : s.tasks[batch]? = some (some found)) (hitems : found.items = List.range amount) :
    CreationBatch manager.creationConcurrency amount found.window := by
  have hinv := h.windows batch found hf
  rw [hitems, batchDepth, List.length_range] at hinv
  exact creationBatch_of_inv hc ha hinv

/-- Turns of the pool that settle its items are turns of the creations. -/
theorem exists_answers {outcome : Nat → Nat → Choices generatedIdLen × Except String Unit}
    {turns : List (Pool.Turn Nat Attempt)} :
    ∀ {s t : Pool Nat Attempt}, (Pool.machine manager.creationConcurrency
      (batchDepth manager.creationConcurrency)).Run s turns t →
    (∀ turn ∈ turns, turn.Settles fun batch index =>
      ((outcome batch index).1, .ok (outcome batch index).2)) →
    ∃ answers, (creations manager).Run s answers t ∧ answers.length = turns.length ∧
      ∀ turn ∈ answers, turn.Answers outcome := by
  induction turns with
  | nil =>
    intro s t h _
    cases h
    exact ⟨[], .nil s, rfl, fun _ hm => absurd hm List.not_mem_nil⟩
  | cons turn turns ih =>
    intro s t h hall
    cases h with
    | @cons _ u _ _ _ hok hr =>
      obtain ⟨answers, hrun, hlen, hans⟩ := ih hr fun other hm =>
        hall other (List.mem_cons_of_mem _ hm)
      have hfirst := hall turn List.mem_cons_self
      have hturn : ∃ answer : PoolTurn, answer.turn = turn ∧ answer.Answers outcome := by
        cases turn with
        | acquire batch index => exact ⟨.acquire batch index, rfl, trivial⟩
        | finish batch index attempt =>
          have hattempt : attempt = _ := hfirst
          exact ⟨.answer batch index (outcome batch index).1 (outcome batch index).2,
            by rw [hattempt]; rfl, rfl⟩
        | start _ | refuse _ _ _ | abandon _ => exact hfirst.elim
      obtain ⟨answer, rfl, hanswer⟩ := hturn
      refine ⟨answer :: answers, .cons ⟨?_, hok⟩ hrun, by rw [List.length_cons, hlen]; rfl, ?_⟩
      · rintro rfl
        exact hanswer
      · intro other hm
        rcases List.mem_cons.mp hm with rfl | hm
        · exact hanswer
        · exact hans other hm

end Pooled

/-- **Creations are bounded, and come to their end.**  Take any batches, whenever they
are started and dropped, and any order in which creations get connections, fail to and
are answered.  Over all batches at most `creation_concurrency` statements run at the same
time, each for a creation that its batch runs.  Each batch starts its creations in order,
keeps as many of them as it may, and reports each once.  However the server answers, all
batches can come to their end from there, with no creation given up and every index
reported. -/
theorem creations_end {parallelTestId : Choices 4} {server : Server} {config : PostgresConfig}
    {manager : PostgresManager} (hstart : start parallelTestId server config = .ok manager)
    {s : Pool Nat Attempt} (h : (creations manager).Reachable s) :
    s.held.length ≤ manager.creationConcurrency ∧ s.held.Nodup ∧
    (∀ batch index, (batch, index) ∈ s.held → index ∈ s.running batch) ∧
    (∀ (batch : Nat) (found : Pool.Task Nat Attempt), s.tasks[batch]? = some (some found) →
      ∃ amount, found.items = List.range amount ∧
        CreationBatch manager.creationConcurrency amount found.window) ∧
    ∀ outcome, ∃ turns t, (creations manager).Run s turns t ∧
      (∀ turn ∈ turns, turn.Answers outcome) ∧
      ∀ (batch : Nat) (found : Pool.Task Nat Attempt), s.tasks[batch]? = some (some found) →
        ∃ after, t.tasks[batch]? = some (some after) ∧
          (after.window.results.map Prod.fst).Perm found.items := by
  have hc := start_concurrency hstart
  have hinv := creations_inv h
  refine ⟨hinv.bounded, hinv.once, hinv.runs, fun batch found hf => ?_, fun outcome => ?_⟩
  · obtain ⟨amount, ha, hitems⟩ := creations_indexed h hf
    exact ⟨amount, hitems, creationBatch_of_task hc hinv ha hf hitems⟩
  · obtain ⟨turns, t, hr, hall, _, hidle, hsame⟩ := hinv.settles hc fun batch index =>
      ((outcome batch index).1, .ok (outcome batch index).2)
    obtain ⟨answers, hrun, _, hans⟩ := exists_answers hr hall
    refine ⟨answers, t, hrun, hans, fun batch found hf => ?_⟩
    have hafter : (t.tasks.map (Option.map Pool.Task.items))[batch]? = some (some found.items) := by
      rw [hsame, List.getElem?_map, hf]
      rfl
    rw [List.getElem?_map] at hafter
    obtain ⟨task, ht, hmap⟩ := Option.map_eq_some_iff.mp hafter
    obtain ⟨after, rfl, hitems⟩ := Option.map_eq_some_iff.mp hmap
    rw [← hitems]
    refine ⟨after, ht, ?_⟩
    have hnone : after.window.running = [] := by
      have hrunning := hidle batch
      rwa [Pool.running, ht] at hrunning
    have hwindow := (creations_inv (h.run hrun)).windows batch after ht
    exact (hwindow.ended (creationWindow_pos _ _) hnone).2

/-! ### A small pool -/

namespace PoolSample

def settings : PostgresConfig :=
  { Sample.settings "pgtest".toList with creationPoolConnection := 2 }

def letters {n : Nat} : Choices n := .replicate n Sample.letter

def step (manager : PostgresManager) (s : Pool Nat Attempt) : PoolTurn → Option (Pool Nat Attempt)
  | .start 0 => none
  | turn => s.act manager.creationConcurrency (batchDepth manager.creationConcurrency) turn.turn

theorem step_creations {manager : PostgresManager} {s t : Pool Nat Attempt} {turn : PoolTurn}
    (h : step manager s turn = some t) : (creations manager).step s turn t := by
  refine ⟨fun heq => ?_, ?_⟩
  · rw [heq] at h
    cases h
  · unfold step at h
    split at h
    · cases h
    · exact h

/-- One batch of three and one of two.  The first creation of the first batch failed, so
its third one runs; each batch holds a connection. -/
def turns : List PoolTurn :=
  [.start 3, .start 2, .acquire 0 0, .acquire 1 1, .answer 0 0 letters (.error "disk full"),
    .acquire 0 2]

end PoolSample

/-- Both connections are held, and four creations are to be answered. -/
theorem creations_end_small : ∃ manager s, (creations manager).Reachable s ∧
    s.held = [(1, 1), (0, 2)] ∧ s.running 0 = [1, 2] ∧ s.running 1 = [0, 1] ∧
    ∃ turns t, (creations manager).Run s turns t ∧
      (∀ turn ∈ turns, turn.Answers fun _ _ => (PoolSample.letters, .ok ())) ∧
      ∃ after, t.tasks[0]? = some (some after) ∧
        (after.window.results.map Prod.fst).Perm [0, 1, 2] := by
  have hrun : ((start PoolSample.letters Sample.postgres PoolSample.settings).toOption.any
      fun manager => (PoolSample.turns.foldlM (PoolSample.step manager) ⟨[], []⟩).any fun s =>
        decide (s.held = [(1, 1), (0, 2)] ∧ s.running 0 = [1, 2] ∧ s.running 1 = [0, 1] ∧
          s.tasks[0]?.any fun task => task.any fun found => found.items = [0, 1, 2])) = true := by
    decide
  obtain ⟨manager, hstart, hany⟩ := ok_of_any hrun
  obtain ⟨s, hs, hp⟩ := (Option.any_eq_true _ _).mp hany
  obtain ⟨h1, h2, h3, h4⟩ := of_decide_eq_true hp
  have hreach : (creations manager).Reachable s :=
    (Machine.Reachable.of_init rfl).run
      (.of_foldlM (fun _ _ _ h => PoolSample.step_creations h) hs)
  obtain ⟨turns, t, hr, hall, hend⟩ := (creations_end hstart hreach).2.2.2.2
    fun _ _ => (PoolSample.letters, .ok ())
  obtain ⟨task, htask, h5⟩ := (Option.any_eq_true _ _).mp h4
  obtain ⟨found, rfl, hitems⟩ := (Option.any_eq_true _ _).mp h5
  obtain ⟨after, ht, hperm⟩ := hend 0 found htask
  rw [of_decide_eq_true hitems] at hperm
  exact ⟨manager, s, hreach, h1, h2, h3, turns, t, hr, hall, after, ht, hperm⟩

end PgTest.Operations
