import PgTest.Engine.Panics

/-!
# Growth is minimal, and a refused request burns its identifiers

`grow` compares what is required with what is supplied.  What it asks for is
stated in these terms, against the identifiers that `creating` holds.

`asked` are the creation requests of the history.  Their identifiers rise from
request to request (`Rising`), so those of a refused request never return.
-/

namespace PgTest.Engine

open PgTest.Lib

variable {C : Type} {Q : LeaseId → C → Prop}

/-- A creation request, and whether the worker accepted it. -/
def Event.asks : Event C → Option (CreateDatabases × Bool)
  | .requestedCreation request accepted => some (request, accepted)
  | _ => none

namespace WorkerEngine

/-! ### What is required -/

/-- The queued leases with a live request. -/
def queuedLive (s : WorkerEngine C) (now : C → Nat) : Finset LeaseId :=
  s.groupWaiters.keys.filter fun lease =>
    ∃ request ∈ (s.groupWaiters.lookup lease).getD [], s.live (now request.1) request.2

/-- What the supply has to cover. -/
def required (s : WorkerEngine C) (now : C → Nat) : Nat :=
  (s.queuedLive now).card + s.config.starvationThreshold + 1

/-- A queued lease has no database, so all of them count. -/
theorem Queue.waiting_eq {s : WorkerEngine C} (h : Queue Q s) (now : C → Nat) :
    s.waiting now = s.queuedLive now := by
  unfold waiting queuedLive
  apply Finset.filter_congr
  intro lease hl
  have hfree := h.waiting_free lease (Finmap.mem_keys.mp hl)
  simp [hfree]

theorem Queue.deficit_eq {s : WorkerEngine C} (h : Queue Q s) (now : C → Nat) :
    s.deficit now = s.required now - s.inventory.supplyLen := by
  rw [deficit, required, h.waiting_eq]

/-- Rounding gives nothing only for want of a deficit or of a batch. -/
theorem roundUp_ne_zero {deficit batchSize : Nat} (h : roundUp deficit batchSize ≠ 0) :
    deficit ≠ 0 ∧ batchSize ≠ 0 := by
  constructor
  · rintro rfl
    apply h
    rw [roundUp, Nat.zero_add]
    rcases Nat.eq_zero_or_pos batchSize with rfl | hb
    · rfl
    · rw [Nat.div_eq_of_lt (Nat.sub_lt hb Nat.one_pos), Nat.zero_mul]
  · rintro rfl
    exact h (Nat.mul_zero _)

theorem dvd_roundUp (deficit batchSize : Nat) : batchSize ∣ roundUp deficit batchSize := by
  unfold roundUp
  exact Nat.dvd_mul_left _ _

/-! ### One growth -/

variable {env : Env C} {s t : WorkerEngine C}

theorem grow_enough (h : s.deficit env.now = 0) : grow env s = .ok (s.log .grew) := by
  rw [grow_eq]
  simp [h]

theorem grow_total (h : s.inventory.nextDatabaseId + (s.growth env.now).amount ≤ u64Max) :
    ∃ t, grow env s = .ok t := by
  cases hok : grow env s with
  | ok t => exact ⟨t, rfl⟩
  | error p => exact absurd h (Nat.not_le_of_lt (grow_exhausted hok).2.2)

/-- What growth is for: the supply reaches what is required, and not by a batch more. -/
theorem grown_supply (h : Inv Q s) (hb : s.config.growBatchSize ≠ 0)
    (hless : s.inventory.supplyLen < s.required env.now) (counters : EngineCounters)
    (accepted : Bool) :
    (s.grown env (s.inventory.creating ∪ (s.growth env.now).ids) counters
      accepted).inventory.supplyLen = s.inventory.supplyLen + (s.growth env.now).amount ∧
    s.required env.now ≤ s.inventory.supplyLen + (s.growth env.now).amount ∧
    s.inventory.supplyLen + (s.growth env.now).amount <
      s.required env.now + s.config.growBatchSize := by
  have hdef := h.queue.deficit_eq env.now
  have hle : s.deficit env.now ≤ (s.growth env.now).amount := le_roundUp _ hb
  have hlt : (s.growth env.now).amount < s.deficit env.now + s.config.growBatchSize :=
    roundUp_lt _ hb
  refine ⟨?_, by omega, by omega⟩
  show s.inventory.ready.length + (s.inventory.creating ∪ (s.growth env.now).ids).card = _
  rw [Finset.card_union_of_disjoint (h.books.disjoint_ids rfl), DatabaseInventory.card_ids,
    DatabaseInventory.supplyLen, Nat.add_assoc]

/-- What was asked for, once, and what the worker said. -/
theorem grow_submits (hok : grow env s = .ok t) (hd : s.deficit env.now ≠ 0)
    (hb : s.config.growBatchSize ≠ 0) :
    t.history = .requestedCreation (s.growth env.now)
      (env.requestCreation (s.growth env.now)) :: .grew :: s.history := by
  rcases grow_cases hok with ⟨_, hz⟩ | ⟨_, _, _, ⟨hreq, rfl⟩ | ⟨hreq, rfl⟩⟩
  · omega
  · rw [hreq]
    rfl
  · rw [hreq]
    rfl

/-- The request that went out says what growth did. -/
theorem grow_requested (hok : grow env s = .ok t) {request : CreateDatabases} {accepted : Bool}
    {new : List (Event C)} (hnew : t.history = new ++ s.history)
    (hmem : .requestedCreation request accepted ∈ new) :
    request = s.growth env.now ∧ env.requestCreation request = accepted ∧
      request.amount ≠ 0 ∧ s.inventory.nextDatabaseId + request.amount ≤ u64Max := by
  rcases grow_cases hok with ⟨rfl, _⟩ | ⟨hc, hmax, _, ⟨hreq, rfl⟩ | ⟨hreq, rfl⟩⟩
  · have hh : new = [.grew] := List.append_cancel_right hnew.symm
    rw [hh, List.mem_singleton] at hmem
    cases hmem
  · have hh : new = [.requestedCreation (s.growth env.now) true, .grew] :=
      List.append_cancel_right hnew.symm
    simp [hh] at hmem
    obtain ⟨rfl, rfl⟩ := hmem
    exact ⟨rfl, hreq, hc, hmax⟩
  · have hh : new = [.requestedCreation (s.growth env.now) false, .grew] :=
      List.append_cancel_right hnew.symm
    simp [hh] at hmem
    obtain ⟨rfl, rfl⟩ := hmem
    exact ⟨rfl, hreq, hc, hmax⟩

end WorkerEngine

open WorkerEngine

/-- **Growth is minimal and idempotent**, in every state that the engine is in
between two atomic changes.  With enough supply nothing is changed and nothing
submitted.  Otherwise exactly one request is submitted, of whole batches, and
where the worker accepts it the supply covers what is required by less than a
batch more, only the requested identifiers are added to `creating`, and growing
once more at the same clock reading changes nothing. -/
theorem growth_is_minimal {s : WorkerEngine C} (h : (ledger Q).Reachable s) (env : Env C)
    (hb : 0 < s.config.growBatchSize) :
    (s.required env.now ≤ s.inventory.supplyLen → grow env s = .ok (s.log .grew)) ∧
    (s.inventory.supplyLen < s.required env.now →
      0 < (s.growth env.now).amount ∧
      s.config.growBatchSize ∣ (s.growth env.now).amount ∧
      (s.inventory.nextDatabaseId + (s.growth env.now).amount ≤ u64Max →
        ∃ t, grow env s = .ok t) ∧
      ∀ t, grow env s = .ok t →
        t.history = .requestedCreation (s.growth env.now)
          (env.requestCreation (s.growth env.now)) :: .grew :: s.history ∧
        (env.requestCreation (s.growth env.now) = true →
          t = { s with
            inventory := { s.inventory with
              creating := s.inventory.creating ∪ (s.growth env.now).ids
              nextDatabaseId := s.inventory.nextDatabaseId + (s.growth env.now).amount }
            history := .requestedCreation (s.growth env.now) true :: .grew :: s.history } ∧
          Disjoint s.inventory.creating (s.growth env.now).ids ∧
          (s.growth env.now).ids.card = (s.growth env.now).amount ∧
          s.required env.now ≤ t.inventory.supplyLen ∧
          t.inventory.supplyLen < s.required env.now + s.config.growBatchSize ∧
          ∀ env' : Env C, (∀ consumer, env'.now consumer = env.now consumer) →
            grow env' t = .ok (t.log .grew))) := by
  have hinv := ledger_inv h
  have hb' : s.config.growBatchSize ≠ 0 := by omega
  have hdef := hinv.queue.deficit_eq env.now
  refine ⟨fun hle => grow_enough (by omega), fun hless => ?_⟩
  have hle : s.deficit env.now ≤ (s.growth env.now).amount := le_roundUp _ hb'
  refine ⟨by omega, dvd_roundUp _ _, grow_total, fun t hok => ?_⟩
  refine ⟨grow_submits hok (by omega) hb', fun hreq => ?_⟩
  rcases grow_cases hok with ⟨_, hz⟩ | ⟨_, _, _, ⟨_, rfl⟩ | ⟨hno, _⟩⟩
  · omega
  · obtain ⟨hsupply, hmin, hmax⟩ := grown_supply hinv hb' hless s.counters true
    refine ⟨rfl, hinv.books.disjoint_ids rfl, DatabaseInventory.card_ids _, ?_, ?_, ?_⟩
    · rw [hsupply]
      exact hmin
    · rw [hsupply]
      exact hmax
    · intro env' hnow
      have hclock : env'.now = env.now := funext hnow
      apply grow_enough
      rw [((grow_path hinv hok).inv hinv).queue.deficit_eq, hsupply, hclock]
      exact Nat.sub_eq_zero_of_le hmin
  · rw [hreq] at hno
    cases hno

/-! ### A third session, refused its database -/

namespace Sample

/-- The worker refuses every submission. -/
def refusing : Env Nat :=
  { env with
    requestCreation := fun _ => false
    requestCleanup := fun _ => false }

/-- Two sessions took the databases of the start; the third waits, and the worker
refused what its arrival asked for. -/
def starving : List (Env Nat × EngineMessage Nat) :=
  [(env, .attachOrJoin leaseA 0 0), (env, .attachOrJoin leaseB 1 0),
    (refusing, .attachOrJoin leaseC 2 0)]

theorem starved (p : WorkerEngine Nat → Prop) [DecidablePred p]
    (h : ((started settings reports starving).any fun s => decide (p s)) = true) :
    ∃ s, started settings reports starving = some s ∧ (ledger Anyone).Reachable s ∧ p s := by
  obtain ⟨s, hs, hp⟩ := (Option.any_eq_true _ _).mp h
  have hreach := (engine_refines Nat settings).reachable (started_reachable hs)
  exact ⟨s, hs, hreach.1, of_decide_eq_true hp⟩

end Sample

/-- One creation is under way where two databases are missing. -/
theorem growth_is_minimal_behind : ∃ s t : WorkerEngine Nat,
    started Sample.settings Sample.reports Sample.starving = some s ∧
      s.inventory.creating = {3} ∧ s.queuedLive Sample.env.now = {Sample.leaseC} ∧
      grow Sample.env s = .ok t ∧
      t.history = .requestedCreation ⟨5, 1⟩ true :: .grew :: s.history ∧
      t.inventory.creating = {3} ∪ CreateDatabases.ids ⟨5, 1⟩ ∧
      2 ≤ t.inventory.supplyLen ∧ t.inventory.supplyLen < 3 ∧
      grow Sample.env t = .ok (t.log .grew) := by
  obtain ⟨s, hs, hreach, hcreating, hwaiting, hconfig, hsupply, hrequired, hgrowth, hnext⟩ :=
    Sample.starved (fun s => s.inventory.creating = {3} ∧
      s.queuedLive Sample.env.now = {Sample.leaseC} ∧ s.config = Sample.settings ∧
      s.inventory.supplyLen = 1 ∧ s.required Sample.env.now = 2 ∧
      s.growth Sample.env.now = ⟨5, 1⟩ ∧ s.inventory.nextDatabaseId = 4) (by decide)
  have hb : s.config.growBatchSize = 1 := congrArg WorkerEngineConfig.growBatchSize hconfig
  have hmin := (growth_is_minimal hreach Sample.env (by omega)).2 (by omega)
  rw [hgrowth, hnext, hcreating, hrequired, hb] at hmin
  obtain ⟨_, _, htotal, heffect⟩ := hmin
  obtain ⟨t, ht⟩ := htotal (by decide)
  obtain ⟨hhistory, hgrown⟩ := heffect t ht
  obtain ⟨hstate, _, _, hreached, hbelow, hagain⟩ := hgrown rfl
  exact ⟨s, t, hs, hcreating, hwaiting, ht, hhistory, hstate ▸ rfl, hreached, hbelow,
    hagain Sample.env fun _ => rfl⟩

/-! ### Requests that were refused -/

namespace WorkerEngine

/-- The creation requests so far, newest first. -/
def asked (s : WorkerEngine C) : List (CreateDatabases × Bool) := s.history.filterMap Event.asks

/-- **The identifiers rise from request to request**, and nothing is created
under those of a refused one. -/
structure Rising (s : WorkerEngine C) : Prop where
  below : ∀ x ∈ s.asked, x.1.firstDatabaseId + x.1.amount ≤ s.inventory.nextDatabaseId + 1
  rising : s.asked.Pairwise fun later earlier =>
    earlier.1.firstDatabaseId + earlier.1.amount ≤ later.1.firstDatabaseId
  burnt : ∀ request, (request, false) ∈ s.asked → Disjoint s.inventory.creating request.ids

theorem Rising.new (config : WorkerEngineConfig) :
    (WorkerEngine.new config : WorkerEngine C).Rising :=
  ⟨fun _ hx => absurd hx List.not_mem_nil, .nil, fun _ hx => absurd hx List.not_mem_nil⟩

/-- Nothing is asked, and nothing new is being created. -/
theorem Rising.keep {s s' : WorkerEngine C} (h : s.Rising) (ha : s'.asked = s.asked)
    (hn : s'.inventory.nextDatabaseId = s.inventory.nextDatabaseId)
    (hc : s'.inventory.creating ⊆ s.inventory.creating) : s'.Rising where
  below := fun x hx => by
    rw [hn]
    exact h.below x (ha ▸ hx)
  rising := ha ▸ h.rising
  burnt := fun request hx => (h.burnt request (ha ▸ hx)).mono_left hc

/-- The next identifiers are drawn, and asked for or not. -/
theorem Rising.draw {s s' : WorkerEngine C} (h : s.Rising) (hb : s.Books)
    {request : CreateDatabases} (accepted : Bool)
    (hfirst : request.firstDatabaseId = s.inventory.nextDatabaseId + 1)
    (hn : s'.inventory.nextDatabaseId = s.inventory.nextDatabaseId + request.amount)
    (ha : s'.asked = s.asked ∨ s'.asked = (request, accepted) :: s.asked)
    (hc : s'.inventory.creating =
      if accepted then s.inventory.creating ∪ request.ids else s.inventory.creating) :
    s'.Rising := by
  have hmem : ∀ x ∈ s'.asked, x = (request, accepted) ∨ x ∈ s.asked := by
    intro x hx
    rcases ha with ha | ha
    · exact Or.inr (ha ▸ hx)
    · rw [ha] at hx
      exact List.mem_cons.mp hx
  -- what was asked for before ends below the new identifiers
  have hdisjoint : ∀ x ∈ s.asked, Disjoint request.ids x.1.ids := by
    intro x hx
    have hx := h.below x hx
    refine Finset.disjoint_left.mpr fun id h1 h2 => ?_
    have h1 := DatabaseInventory.mem_ids.mp h1
    have h2 := DatabaseInventory.mem_ids.mp h2
    omega
  refine ⟨fun x hx => ?_, ?_, fun old hx => ?_⟩
  · rcases hmem x hx with rfl | hx
    · simp only
      omega
    · have hx := h.below x hx
      omega
  · rcases ha with ha | ha
    · rw [ha]
      exact h.rising
    · rw [ha]
      refine List.pairwise_cons.mpr ⟨fun x hx => ?_, h.rising⟩
      have hx := h.below x hx
      simp only
      omega
  · rw [hc]
    rcases hmem _ hx with hold | hx
    · cases hold
      exact hb.disjoint_ids hfirst
    · cases accepted with
      | false => exact h.burnt old hx
      | true =>
        rw [if_pos rfl]
        exact Finset.disjoint_union_left.mpr ⟨h.burnt old hx, hdisjoint _ hx⟩

/-- **Every change keeps the requests rising.** -/
theorem Rising.move {s s' : WorkerEngine C} {a : Act} (h : s.Rising) (hb : s.Books)
    (hm : Move Q s a s') : s'.Rising := by
  cases hm with
  | count _ _ | enroll _ _ | enqueue _ _ _ _ _ | dequeue _ | attach _ _ _ | restore _ _ _
  | detach _ _ | detachIdle _ _ | retire _ _ | clean _ | shutdown =>
    exact h.keep rfl rfl (Finset.Subset.refl _)
  | @note event hq =>
    have hsilent : event.asks = none := by
      cases event with
      | requestedCreation _ _ => exact hq.elim
      | reply _ _ _ _ _ | assigned _ _ _ | scheduled _ _ _ _ _ | cancelled _ | returned _ _ _
      | requestedCleanup _ _ | created _ | creationFailed _ | cleaned _ | expired _ _
      | detached _ _ | grew => rfl
    exact h.keep (List.filterMap_cons_none hsilent) rfl (Finset.Subset.refl _)
  | close _ _ hev =>
    refine h.keep (filterMap_minor fun event he => ?_) rfl (Finset.Subset.refl _)
    obtain ⟨_, _, rfl⟩ := hev event he
    rfl
  | assign _ _ _ _ _ hsched =>
    refine h.keep ?_ rfl (Finset.Subset.refl _)
    rw [Scheduling] at hsched
    split at hsched
    · obtain ⟨_, rfl⟩ := hsched
      rfl
    · subst hsched
      rfl
  | @settle databaseId result hc =>
    obtain ⟨hcr, hn, _⟩ := @held_settle C s { s with
      inventory := (s.inventory.completeCreation databaseId result).2
      history := settled databaseId result :: s.history } databaseId result hc rfl rfl
    refine h.keep ?_ hn (by rw [hcr]; exact Finset.erase_subset _ _)
    cases result <;> rfl
  | @reserve request events hfirst _ _ hev =>
    refine h.draw hb true hfirst rfl ?_ rfl
    rcases hev with rfl | rfl
    · exact Or.inl rfl
    · exact Or.inr rfl
  | burn _ _ hfirst _ _ => exact h.draw hb false hfirst rfl (Or.inr rfl) rfl

theorem ledger_rising {s : WorkerEngine C} (h : (ledger Q).Reachable s) : s.Rising := by
  refine h.invariant (I := fun s => s.Rising) (fun s hs => ?_)
    fun s a t hr hs hm => hs.move (ledger_inv hr).books hm
  obtain ⟨config, rfl⟩ := hs
  exact .new config

end WorkerEngine

open WorkerEngine

/-! ### A database that could not be dropped -/

/-- A retiring database stays until it is reported clean. -/
theorem Move.retiring {s s' : WorkerEngine C} {a : Act} {databaseId : Nat} {name : ReadString}
    (h : Move Q s a s') (hb : s.Books) (ha : a ≠ .clean databaseId)
    (hr : s.inventory.retiring.lookup databaseId = some name) :
    s'.inventory.retiring.lookup databaseId = some name := by
  cases h with
  | count _ _ | note _ | enroll _ _ | close _ _ _ | enqueue _ _ _ _ _ | dequeue _
  | assign _ _ _ _ _ _ | attach _ _ _ | restore _ _ _ | detach _ _ | detachIdle _ _
  | reserve _ _ _ _ | burn _ _ _ _ _ | shutdown => exact hr
  | @retire _ entry _ hl =>
    have hne : databaseId ≠ entry.database.databaseId := by
      rintro rfl
      exact hb.retiring_of_leased hl (mem_of_lookup hr)
    exact (Finmap.lookup_insert_of_ne _ hne).trans hr
  | @settle id result hc =>
    obtain ⟨_, _, hkeep, _⟩ := @held_settle C s { s with
      inventory := (s.inventory.completeCreation id result).2
      history := settled id result :: s.history } id result hc rfl rfl
    exact hkeep ▸ hr
  | @clean id _ =>
    have hne : databaseId ≠ id := by
      rintro rfl
      exact ha rfl
    exact (Finmap.lookup_erase_ne hne).trans hr

theorem retiring_run {s t : WorkerEngine C} {acts : List Act} {databaseId : Nat}
    {name : ReadString} (h : (ledger Q).Run s acts t) (hs : Inv Q s)
    (ha : .clean databaseId ∉ acts) (hr : s.inventory.retiring.lookup databaseId = some name) :
    t.inventory.retiring.lookup databaseId = some name := by
  have hp : Path Q (fun a => a ≠ .clean databaseId) s t := by
    refine ⟨acts, fun a hmem => ?_, h⟩
    rintro rfl
    exact ha hmem
  exact hp.invariant (fun s₁ a t₁ hne hinv hI hm => hm.retiring hinv.books hne hI) hs hr

/-- What `grow` adds to the history and leaves of the rest. -/
theorem grow_leaves {env : Env C} {s t : WorkerEngine C} (hok : grow env s = .ok t) :
    (∃ new, t.history = new ++ s.history) ∧ t.cancelledTokens = s.cancelledTokens ∧
      t.inventory.retiring = s.inventory.retiring := by
  rcases grow_cases hok with ⟨rfl, _⟩ | ⟨_, _, _, ⟨_, rfl⟩ | ⟨_, rfl⟩⟩
  · exact ⟨⟨[.grew], rfl⟩, rfl, rfl⟩
  · exact ⟨⟨[_, .grew], rfl⟩, rfl, rfl⟩
  · exact ⟨⟨[_, .grew], rfl⟩, rfl, rfl⟩

theorem retireLease_total {env : Env C} {s : WorkerEngine C} (h : Inv Q s)
    (hmax : s.inventory.nextDatabaseId + s.demand ≤ u64Max) (lease : LeaseId) :
    ∃ t, retireLease env lease s = .ok t := by
  cases hl : s.leases.lookup lease with
  | none => exact ⟨s, retireLease_none hl⟩
  | some entry =>
    rw [retireLease_eq hl (h.books.contains_leased hl)]
    cases hok : grow env (s.retired env lease entry) with
    | ok t => exact ⟨t, rfl⟩
    | error p =>
      have hp := grow_error 0 (h.move (retired_move hl)).queue hok
      obtain ⟨rfl, _⟩ := grow_exhausted hok
      exact absurd hmax (Nat.not_le_of_lt hp)

/-- **A refused submission leaves no trace but the identifiers it drew.**

Where the worker refuses the request of `grow`, the identifiers of the request
are skipped and counted as slots that were not started, and nothing else
changes; a refusal in the history has no other cause.  No later request names
one of them again, nor is anything created under them.

Where the worker refuses the request of `retire_lease`, the lease is gone with
its token cancelled, and its database is retiring under its own identifier and
name until it is reported clean.

The queue and the other leases are as before in both cases. -/
theorem refusals_leave_no_trace {s : WorkerEngine C} (h : (ledger Q).Reachable s) (env : Env C) :
    (s.inventory.nextDatabaseId + (s.growth env.now).amount ≤ u64Max →
      ∃ t, grow env s = .ok t) ∧
    (0 < s.config.growBatchSize → s.inventory.supplyLen < s.required env.now →
      env.requestCreation (s.growth env.now) = false → ∀ t, grow env s = .ok t →
        t = { s with
          inventory := { s.inventory with
            nextDatabaseId := s.inventory.nextDatabaseId + (s.growth env.now).amount }
          counters := { s.counters with
            unableToStartDatabaseSlots :=
              s.counters.unableToStartDatabaseSlots + (s.growth env.now).amount }
          history := .requestedCreation (s.growth env.now) false :: .grew :: s.history }) ∧
    (∀ t new request, grow env s = .ok t → t.history = new ++ s.history →
      .requestedCreation request false ∈ new →
        request = s.growth env.now ∧ 0 < s.config.growBatchSize ∧
          s.inventory.supplyLen < s.required env.now ∧ env.requestCreation request = false) ∧
    (∀ later request earlier, s.asked = later ++ (request, false) :: earlier →
      (∀ x ∈ later, Disjoint x.1.ids request.ids) ∧
        Disjoint s.inventory.creating request.ids) ∧
    (s.inventory.nextDatabaseId + s.demand ≤ u64Max →
      ∀ lease, ∃ t, retireLease env lease s = .ok t) ∧
    ∀ lease entry t, s.leases.lookup lease = some entry → retireLease env lease s = .ok t →
      env.requestCleanup ⟨entry.database.databaseId, entry.database.databaseName⟩ = false →
        (∃ new, t.history = new ++ .requestedCleanup
          ⟨entry.database.databaseId, entry.database.databaseName⟩ false ::
            .cancelled entry.cancellation :: s.history) ∧
        t.leases = s.leases.erase lease ∧
        t.cancelledTokens = insert entry.cancellation s.cancelledTokens ∧
        t.inventory.retiring = s.inventory.retiring.insert entry.database.databaseId
          entry.database.databaseName ∧
        t.inventory.ready = s.inventory.ready ∧ t.waiters = s.waiters ∧
        t.groupWaiters = s.groupWaiters ∧ t.leaseRecords = s.leaseRecords ∧
        ∀ acts u, (ledger Q).Run t acts u → .clean entry.database.databaseId ∉ acts →
          u.inventory.retiring.lookup entry.database.databaseId =
            some entry.database.databaseName := by
  have hinv := ledger_inv h
  have hdef := hinv.queue.deficit_eq env.now
  refine ⟨grow_total, fun hb hless hreq t hok => ?_, fun t new request hok hnew hmem => ?_, ?_,
    fun hmax lease => retireLease_total hinv hmax lease, ?_⟩
  · rcases grow_cases hok with ⟨_, hz⟩ | ⟨_, _, _, ⟨hyes, _⟩ | ⟨_, rfl⟩⟩
    · omega
    · cases hreq.symm.trans hyes
    · -- the reservation is undone exactly, as it met nothing in `creating`
      have hundo : (s.inventory.creating ∪ (s.growth env.now).ids) \ (s.growth env.now).ids =
          s.inventory.creating := by
        rw [Finset.union_sdiff_right]
        exact Finset.sdiff_eq_self_of_disjoint (hinv.books.disjoint_ids rfl)
      rw [hundo]
      rfl
  · obtain ⟨rfl, hreq, hamount, _⟩ := grow_requested hok hnew hmem
    obtain ⟨hd, hb⟩ := roundUp_ne_zero hamount
    exact ⟨rfl, by omega, by omega, hreq⟩
  · intro later request earlier hasked
    have hr := ledger_rising h
    refine ⟨fun x hx => ?_, hr.burnt request (hasked ▸ List.mem_append_right _ List.mem_cons_self)⟩
    have hpair := hr.rising
    rw [hasked] at hpair
    have hle := (List.pairwise_append.mp hpair).2.2 x hx _ List.mem_cons_self
    refine Finset.disjoint_left.mpr fun id h1 h2 => ?_
    have h1 := DatabaseInventory.mem_ids.mp h1
    have h2 := DatabaseInventory.mem_ids.mp h2
    simp only at hle
    omega
  · intro lease entry t hl hok hreq
    have hgrow := retireLease_some hl hok
    obtain ⟨hleases, hwaiters, hgroups, hrecords, hready⟩ := grow_keeps hgrow
    obtain ⟨⟨new, hnew⟩, htokens, hretiring⟩ := grow_leaves hgrow
    refine ⟨⟨new, ?_⟩, hleases, htokens, hretiring, hready, hwaiters, hgroups, hrecords, ?_⟩
    · rw [hnew, retired, hreq]
    · intro acts u hrun hclean
      have hm : Inv Q (s.retired env lease entry) := hinv.move (retired_move hl)
      refine retiring_run hrun ((grow_path hm hgrow).inv hm) hclean ?_
      rw [hretiring]
      exact Finmap.lookup_insert _

/-- The third session waits: what it still lacks is refused once more, and so is the
cleanup of the first session, which is given up. -/
theorem refusals_leave_no_trace_behind : ∃ s t u : WorkerEngine Nat,
    started Sample.settings Sample.reports Sample.starving = some s ∧
      s.inventory.creating = {3} ∧ Sample.leaseC ∈ s.groupWaiters ∧
      grow Sample.refusing s = .ok t ∧
      t.history = .requestedCreation ⟨5, 1⟩ false :: .grew :: s.history ∧
      t.inventory.creating = {3} ∧ t.inventory.nextDatabaseId = 5 ∧
      retireLease Sample.refusing Sample.leaseA s = .ok u ∧ Sample.leaseA ∉ u.leases ∧
      u.inventory.retiring.lookup 1 = some "first" ∧ u.groupWaiters = s.groupWaiters := by
  obtain ⟨s, hs, hreach, hcreating, hwaiting, hconfig, hsupply, hrequired, hgrowth, hnext, hdemand,
      hleased⟩ :=
    Sample.starved (fun s => s.inventory.creating = {3} ∧
      Sample.leaseC ∈ s.groupWaiters ∧ s.config = Sample.settings ∧
      s.inventory.supplyLen = 1 ∧ s.required Sample.refusing.now = 2 ∧
      s.growth Sample.refusing.now = ⟨5, 1⟩ ∧ s.inventory.nextDatabaseId = 4 ∧ s.demand ≤ 3 ∧
      (s.leases.lookup Sample.leaseA).map (·.database) = some ⟨1, "first"⟩) (by decide)
  have hb : s.config.growBatchSize = 1 := congrArg WorkerEngineConfig.growBatchSize hconfig
  obtain ⟨htotal, heffect, _, _, hretires, hretired⟩ :=
    refusals_leave_no_trace hreach Sample.refusing
  have heffect := heffect (by omega) (by omega) rfl
  rw [hgrowth, hnext] at htotal heffect
  obtain ⟨t, ht⟩ := htotal (by decide)
  have hstate := heffect t ht
  obtain ⟨u, hu⟩ := hretires (by rw [hnext, u64Max]; omega) Sample.leaseA
  obtain ⟨entry, hentry, hdatabase⟩ := Option.map_eq_some_iff.mp hleased
  obtain ⟨_, hleases, _, hretiring, _, _, hgroups, _⟩ :=
    hretired Sample.leaseA entry u hentry hu rfl
  refine ⟨s, t, u, hs, hcreating, hwaiting, ht, hstate ▸ rfl, hstate ▸ hcreating, hstate ▸ rfl, hu,
    ?_, ?_, hgroups⟩
  · rw [hleases]
    exact Finmap.notMem_erase_self
  · rw [hretiring, hdatabase]
    exact Finmap.lookup_insert _

end PgTest.Engine
