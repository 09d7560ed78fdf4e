import PgTest.Engine.Refinement

/-!
# No assertion of the engine fails

Each function is shown to fail only where a generation or a database identifier is
drawn and `u64` has none left (`Panic.Exhausted`).  What each assertion rests on is
in the invariant: a leased database is nowhere else in the books, a lease that waits
has no entry, and a group that is dispatched finds a database as long as its lease
has none, which is the invariant of the inner loop (`Serves`).
-/

namespace PgTest.Engine

open PgTest.Lib

variable {C : Type} {Q : LeaseId → C → Prop}

/-- The panic is one of the two that come from numbers, and the numbers do not reach
as far as `generations` and `databases`. -/
def Panic.Exhausted (generations databases : Nat) : Panic → Prop
  | .leaseGenerationExhausted => u64Max < generations
  | .databaseIdentityExhausted => u64Max < databases
  | _ => False

theorem Panic.Exhausted.mono {generations databases generations' databases' : Nat} {p : Panic}
    (h : p.Exhausted generations databases) (hg : generations ≤ generations')
    (hd : databases ≤ databases') : p.Exhausted generations' databases' := by
  cases p <;> simp only [Panic.Exhausted] at h ⊢ <;> omega

namespace WorkerEngine

variable {env : Env C} {s t : WorkerEngine C} {p : Panic} {generations databases : Nat}

/-! ### One request -/

theorem replyAttached_no_error {lease : LeaseId} {entry : LeaseEntry} {name : ReadString}
    {reply : C} (hl : s.leases.lookup lease = some entry) :
    replyAttached env lease name reply s ≠ .error p := by
  rw [replyAttached, hl]
  simp only
  split
  · simp
  · split <;> simp

/-- A leased database is nowhere in the inventory. -/
theorem Books.contains_leased (h : s.Books) {lease : LeaseId} {entry : LeaseEntry}
    (hl : s.leases.lookup lease = some entry) :
    s.inventory.contains entry.database.databaseId = false := by
  rw [Bool.eq_false_iff, ne_eq, DatabaseInventory.contains_iff]
  intro hm
  have hnd := h.1
  rw [ids, held, Multiset.map_add, ← Multiset.add_assoc] at hnd
  have hleased : entry.database.databaseId ∈ s.leased.map Database.databaseId :=
    Multiset.mem_map_of_mem _ (mem_leased.mpr ⟨lease, entry, hl, rfl⟩)
  exact Multiset.disjoint_left.mp (Multiset.nodup_add.mp hnd).2.2 hm hleased

theorem restoreUnclaimedDatabase_no_error (h : s.Books) {lease : LeaseId} :
    restoreUnclaimedDatabase lease s ≠ .error p := by
  rw [restoreUnclaimedDatabase]
  cases hl : s.leases.lookup lease with
  | none => simp
  | some entry =>
    have hc := h.contains_leased hl
    simp only
    split
    · simp only [cancel, DatabaseInventory.returnReady, hc]
      intro h
      cases h
    · simp

theorem assignDatabase_error (databases : Nat) {lease : LeaseId} {database : Database}
    (hl : lease ∉ s.leases) (herr : assignDatabase env lease database s = .error p) :
    p.Exhausted (s.nextGeneration + 1) databases := by
  rw [assignDatabase, if_neg hl] at herr
  split at herr
  · cases herr
    assumption
  · simp only at herr
    split at herr <;> cases herr

/-! ### One group -/

/-- The lease that is being served has a database, or one is ready for it; `generations`
is enough for what is drawn. -/
def Serves (lease : LeaseId) (generations : Nat) (s : WorkerEngine C) : Prop :=
  lease ∈ s.leases ∧ s.nextGeneration ≤ generations ∨
    s.inventory.ready ≠ [] ∧ s.nextGeneration + 1 ≤ generations

theorem claimDatabase_error {lease : LeaseId} (h : s.Serves lease generations)
    (herr : claimDatabase env lease s = .error p) : p.Exhausted generations databases := by
  rw [claimDatabase] at herr
  cases hlook : s.leases.lookup lease with
  | some entry =>
    rw [hlook] at herr
    cases herr
  | none =>
    have hnot := Finmap.lookup_eq_none.mp hlook
    obtain ⟨hready, hn⟩ := h.resolve_left fun hm => hnot hm.1
    obtain ⟨database, rest, hready⟩ := List.exists_cons_of_ne_nil hready
    rw [hlook, DatabaseInventory.takeReady, hready] at herr
    have hp := assignDatabase_error (s := { s with
      inventory := { s.inventory with ready := rest } }) databases hnot herr
    exact hp.mono hn (le_refl _)

theorem claimDatabase_serves {lease : LeaseId} {name : ReadString}
    (h : s.Serves lease generations) (hok : claimDatabase env lease s = .ok (name, t)) :
    lease ∈ t.leases ∧ t.nextGeneration ≤ generations := by
  rw [claimDatabase] at hok
  cases hlook : s.leases.lookup lease with
  | some entry =>
    rw [hlook] at hok
    cases hok
    refine ⟨mem_of_lookup hlook, ?_⟩
    rcases h with ⟨_, hn⟩ | ⟨_, hn⟩ <;> omega
  | none =>
    have hnot := Finmap.lookup_eq_none.mp hlook
    obtain ⟨hready, hn⟩ := h.resolve_left fun hm => hnot hm.1
    obtain ⟨database, rest, hready⟩ := List.exists_cons_of_ne_nil hready
    rw [hlook, DatabaseInventory.takeReady, hready] at hok
    obtain ⟨_, _, _, scheduling, _, rfl⟩ := assignDatabase_cases hok
    exact ⟨Finmap.mem_insert.mpr (Or.inl rfl), hn⟩

theorem replyAttached_serves {lease : LeaseId} {name : ReadString} {reply : C}
    (hok : replyAttached env lease name reply s = .ok t) :
    (lease ∈ s.leases → lease ∈ t.leases) ∧ t.nextGeneration = s.nextGeneration := by
  rw [replyAttached] at hok
  cases hlook : s.leases.lookup lease with
  | none =>
    rw [hlook] at hok
    cases hok
  | some entry =>
    rw [hlook] at hok
    simp only at hok
    split at hok
    · cases hok
      exact ⟨id, rfl⟩
    · split at hok
      · cases hok
        exact ⟨fun _ => Finmap.mem_insert.mpr (Or.inl rfl), rfl⟩
      · split at hok
        · cases hok
        · cases hok
          exact ⟨fun _ => Finmap.mem_insert.mpr (Or.inl rfl), rfl⟩

theorem serveRequest_serves {lease : LeaseId} {request : C × Nat}
    (h : s.Serves lease generations) (hok : serveRequest env lease s request = .ok t) :
    t.Serves lease generations := by
  rw [serveRequest] at hok
  split at hok
  · cases hok
    exact h
  · obtain ⟨⟨name, s₁⟩, h1, h2⟩ := bind_ok hok
    obtain ⟨hm, hn⟩ := claimDatabase_serves h h1
    obtain ⟨hm', hn'⟩ := replyAttached_serves h2
    exact Or.inl ⟨hm' hm, hn'.trans_le hn⟩

theorem serveRequest_error {lease : LeaseId} {request : C × Nat}
    (h : s.Serves lease generations) (herr : serveRequest env lease s request = .error p) :
    p.Exhausted generations databases := by
  rw [serveRequest] at herr
  split at herr
  · cases herr
  · rcases bind_error herr with herr | ⟨⟨name, s₁⟩, h1, herr⟩
    · exact claimDatabase_error h herr
    · obtain ⟨hm, _⟩ := claimDatabase_serves h h1
      obtain ⟨entry, hl⟩ := Finmap.mem_iff.mp hm
      exact absurd herr (replyAttached_no_error hl)

/-- **A group is served**, with one generation at most. -/
theorem serveGroup_serves {lease : LeaseId} {replies : List (C × Nat)}
    (hopen : s.leaseRecords.lookup lease = some .opened) (h : s.Serves lease generations)
    (hok : serveGroup env lease replies s = .ok t) : t.nextGeneration ≤ generations := by
  rw [serveGroup, if_neg (by simp [hopen])] at hok
  obtain ⟨served, h1, h2⟩ := bind_ok hok
  have hserved : served.Serves lease generations :=
    foldlM_ok (I := fun s => s.Serves lease generations)
      (fun _ _ _ _ hI hs => serveRequest_serves hI hs) h h1
  have hn : served.nextGeneration ≤ generations := by
    rcases hserved with ⟨_, hn⟩ | ⟨_, hn⟩ <;> omega
  split at h2
  · cases h2
    exact hn
  · obtain ⟨⟨restored, s₂⟩, h3, h4⟩ := bind_ok h2
    cases h4
    rcases restoreUnclaimedDatabase_cases h3 with ⟨_, rfl⟩ | ⟨_, _, _, _, rfl⟩ <;> exact hn

theorem serveGroup_error (databases : Nat) {lease : LeaseId} {replies : List (C × Nat)}
    (hinv : Inv Q s) (hopen : s.leaseRecords.lookup lease = some .opened)
    (hw : lease ∉ s.groupWaiters)
    (hl : lease ∉ s.leases) (hQ : ∀ request ∈ replies, Q lease request.1)
    (h : s.Serves lease generations) (herr : serveGroup env lease replies s = .error p) :
    p.Exhausted generations databases := by
  rw [serveGroup, if_neg (by simp [hopen])] at herr
  rcases bind_error herr with herr | ⟨served, h1, herr⟩
  · obtain ⟨s₁, request, _, hs₁, herr⟩ := foldlM_error (I := fun s => s.Serves lease generations)
      (fun _ _ _ _ hI hs => serveRequest_serves hI hs) h herr
    exact serveRequest_error hs₁ herr
  · have hp := (serveRequests_path hinv hopen hw hl (le_refl _) hQ h1).1
    rw [if_neg hl] at herr
    rcases bind_error herr with herr | ⟨_, _, herr⟩
    · exact absurd herr (restoreUnclaimedDatabase_no_error (hp.inv hinv).books)
    · cases herr

/-! ### The queue -/

theorem dispatchLoop_error (databases : Nat) {queue : List LeaseId} {s : WorkerEngine C}
    (hinv : Inv Q s) (hq : s.waiters = queue) (herr : dispatchLoop env queue s = .error p) :
    p.Exhausted (s.nextGeneration + queue.length) databases := by
  induction queue generalizing s with
  | nil => cases herr
  | cons lease rest ih =>
    rw [dispatchLoop] at herr
    split at herr
    · cases herr
    · rename_i hready
      obtain ⟨hg, hl, hopen⟩ := hinv.queue.head_free hq
      obtain ⟨replies, hg⟩ := Finmap.mem_iff.mp hg
      simp only [hg] at herr
      have hm : Move Q s (.dequeue lease) { s with
          waiters := rest, groupWaiters := s.groupWaiters.erase lease } := .dequeue hq
      have hinv₁ := hinv.move hm
      have hQ := hinv.queue.known lease replies hg
      -- a database is ready for the lease, and one generation is set aside for it
      have hserves : Serves lease (s.nextGeneration + 1) { s with
          waiters := rest, groupWaiters := s.groupWaiters.erase lease } :=
        Or.inr ⟨fun h0 : s.inventory.ready = [] => hready (by simp [h0]), le_refl _⟩
      rcases bind_error herr with herr | ⟨s₁, h1, herr⟩
      · have hp := serveGroup_error databases hinv₁ hopen Finmap.notMem_erase_self
          hl hQ hserves herr
        exact hp.mono (by simp) (le_refl _)
      · have hn := serveGroup_serves (by exact hopen) hserves h1
        have hp := serveGroup_path hinv₁ hopen Finmap.notMem_erase_self hl (le_refl _) hQ h1
        refine (ih (hp.inv hinv₁) (path_sameQueue hp hinv₁).waiters herr).mono ?_ (le_refl _)
        rw [List.length_cons]
        omega

/-! ### Growth -/

theorem roundUp_lt (deficit : Nat) {batchSize : Nat} (h : batchSize ≠ 0) :
    roundUp deficit batchSize < deficit + batchSize := by
  have hle := Nat.div_mul_le_self (deficit + batchSize - 1) batchSize
  rw [roundUp]
  omega

/-- How many databases `grow` asks for at most. -/
def demand (s : WorkerEngine C) : Nat :=
  s.waiters.length + s.config.starvationThreshold + s.config.growBatchSize

theorem Queue.waiting_le (h : Queue Q s) (now : C → Nat) :
    (s.waiting now).card ≤ s.waiters.length := by
  have hsub : s.waiting now ⊆ s.waiters.toFinset := by
    intro lease hm
    rw [List.mem_toFinset, h.keys, ← Finmap.mem_keys]
    exact (Finset.mem_filter.mp hm).1
  exact (Finset.card_le_card hsub).trans (List.toFinset_card_le _)

theorem growth_le (env : Env C) (h : Queue Q s) (hb : s.config.growBatchSize ≠ 0) :
    (s.growth env.now).amount ≤ s.demand := by
  have hw := h.waiting_le env.now
  have hr := roundUp_lt (s.deficit env.now) hb
  have hd : s.deficit env.now ≤ (s.waiting env.now).card + s.config.starvationThreshold + 1 :=
    Nat.sub_le _ _
  rw [demand]
  show roundUp (s.deficit env.now) s.config.growBatchSize ≤ _
  omega

/-- Growth fails only where the identifiers it asks for run out. -/
theorem grow_exhausted (herr : grow env s = .error p) :
    p = .databaseIdentityExhausted ∧ s.config.growBatchSize ≠ 0 ∧
      u64Max < s.inventory.nextDatabaseId + (s.growth env.now).amount := by
  rw [grow_eq] at herr
  by_cases hb : s.config.growBatchSize = 0
  · rw [if_pos hb] at herr
    cases herr
  by_cases hd : s.deficit env.now = 0
  · rw [if_neg hb, if_pos hd] at herr
    cases herr
  have hle : s.deficit env.now ≤ (s.growth env.now).amount := le_roundUp _ hb
  rw [if_neg hb, if_neg hd, DatabaseInventory.reserveCreations_eq _ (by omega)] at herr
  by_cases hmax : s.inventory.nextDatabaseId + (s.growth env.now).amount ≤ u64Max
  · rw [if_pos hmax] at herr
    simp only at herr
    split at herr
    · cases herr
    · rw [cancelCreations_eq (by simp only; omega)] at herr
      cases herr
  · rw [if_neg hmax] at herr
    cases herr
    exact ⟨rfl, hb, Nat.lt_of_not_le hmax⟩

theorem grow_error (generations : Nat) (h : Queue Q s) (herr : grow env s = .error p) :
    p.Exhausted generations (s.inventory.nextDatabaseId + s.demand) := by
  obtain ⟨rfl, hb, hmax⟩ := grow_exhausted herr
  have hgrow := growth_le env h hb
  show u64Max < _
  omega

theorem retireLease_eq {lease : LeaseId} {entry : LeaseEntry}
    (hl : s.leases.lookup lease = some entry)
    (hc : s.inventory.contains entry.database.databaseId = false) :
    retireLease env lease s = grow env (s.retired env lease entry) := by
  rw [retireLease, hl]
  simp only [cancel, DatabaseInventory.retire, hc]
  rfl

/-! ### The handlers -/

/-- The numbers that the handling of one message needs at most run out: a generation for
each lease that waits and one more, the databases of `grow` with one more lease waiting. -/
def RunsOut (s : WorkerEngine C) : Panic → Prop :=
  Panic.Exhausted (s.nextGeneration + s.waiters.length + 1)
    (s.inventory.nextDatabaseId + s.demand + 1)

theorem RunsOut.of_exhausted (h : p.Exhausted generations databases)
    (hg : generations ≤ s.nextGeneration + s.waiters.length + 1)
    (hd : databases ≤ s.inventory.nextDatabaseId + s.demand + 1) : s.RunsOut p := h.mono hg hd

end WorkerEngine

open WorkerEngine

/-- Changes that add no demand: all but those of the queue's end and of `grow`. -/
def Act.Frugal : Act → Prop
  | .enqueue _ | .reserve => False
  | _ => True

theorem Act.Dispatching.frugal {base : Nat} {a : Act} (h : a.Dispatching base) : a.Frugal := by
  cases a with
  | enqueue _ | reserve =>
    obtain ⟨_, h⟩ := h
    exact h.elim
  | note | enroll _ | close _ | dequeue _ | assign _ _ | attach _ _ | restore _ _ | detach _ _
  | retire _ _ | settle _ | clean _ | shutdown => exact trivial

theorem Move.frugal {s t : WorkerEngine C} {a : Act} (h : Move Q s a t) (ha : a.Frugal) :
    t.inventory.nextDatabaseId = s.inventory.nextDatabaseId ∧
      t.waiters.length ≤ s.waiters.length := by
  cases h with
  | count _ _ | note _ | enroll _ _ | assign _ _ _ _ _ _ | attach _ _ _ | restore _ _ _
  | detach _ _ | detachIdle _ _ | retire _ _ | clean _ | shutdown => exact ⟨rfl, le_refl _⟩
  | close _ _ _ => exact ⟨rfl, List.length_filter_le _ _⟩
  | dequeue hw => simp [hw]
  | @settle databaseId result hc =>
    obtain ⟨_, hn, _⟩ :=
      @held_settle C s (s.settledWith databaseId result) databaseId result hc rfl rfl
    exact ⟨hn, le_refl _⟩
  | enqueue _ _ _ _ _ | reserve _ _ _ _ | burn _ _ _ _ _ => exact ha.elim

theorem Path.frugal {P : Act → Prop} {s t : WorkerEngine C} (h : Path Q P s t) (hs : Inv Q s)
    (hP : ∀ a, P a → a.Frugal) :
    t.inventory.nextDatabaseId = s.inventory.nextDatabaseId ∧ t.demand ≤ s.demand := by
  have key : t.inventory.nextDatabaseId = s.inventory.nextDatabaseId ∧
      t.waiters.length ≤ s.waiters.length := by
    refine h.invariant (I := fun t => t.inventory.nextDatabaseId = s.inventory.nextDatabaseId ∧
      t.waiters.length ≤ s.waiters.length) (fun s₁ a t₁ ha _ hI hm => ?_) hs ⟨rfl, le_refl _⟩
    obtain ⟨h1, h2⟩ := hm.frugal (hP a ha)
    exact ⟨h1.trans hI.1, h2.trans hI.2⟩
  refine ⟨key.1, ?_⟩
  rw [demand, demand, h.config hs]
  omega

namespace WorkerEngine

variable {env : Env C} {s t : WorkerEngine C} {p : Panic}

/-- Growth at the end of a path that adds no demand. -/
theorem grow_runsOut {P : Act → Prop} (hinv : Inv Q s) (hp : Path Q P s t)
    (hP : ∀ a, P a → a.Frugal) (herr : grow env t = .error p) : s.RunsOut p := by
  obtain ⟨hn, hd⟩ := hp.frugal hinv hP
  refine .of_exhausted (grow_error 0 (hp.inv hinv).queue herr) (Nat.zero_le _) ?_
  omega

theorem leaseMaxTimeReached_runsOut {lease : LeaseId} {generation : Nat} (h : Inv Q s)
    (herr : leaseMaxTimeReached env lease generation s = .error p) : s.RunsOut p := by
  rw [leaseMaxTimeReached] at herr
  split at herr
  · have hcount : Path Q (fun a => a.Frugal) s { s with counters := { s.counters with
        rejectedAttachMaxLifetime := s.counters.rejectedAttachMaxLifetime + 1 } } :=
      .single (.count _ rfl) trivial
    cases hl : s.leases.lookup lease with
    | none => simp_all
    | some entry =>
      rw [retireLease_eq (by exact hl) (by exact h.books.contains_leased hl)] at herr
      exact grow_runsOut h (hcount.snoc (retired_move hl) trivial) (fun _ ha => ha) herr
  · cases herr

theorem releaseLease_runsOut {lease : LeaseId} (h : Inv Q s)
    (herr : releaseLease env lease s = .error p) : s.RunsOut p := by
  cases ha : s.admitLease lease with
  | mk outcome s₀ =>
    have hp : Path Q (fun a => a.Frugal) s s₀ :=
      (admitLease_path ha).mono fun _ he => he ▸ trivial
    cases outcome with
    | error error =>
      rw [releaseLease, ha] at herr
      cases herr
    | ok status =>
      cases status with
      | closed =>
        rw [releaseLease, ha] at herr
        cases herr
      | opened =>
        rw [releaseLease_eq ha] at herr
        replace herr := (bind_error herr).resolve_right (by rintro ⟨_, _, h⟩; cases h)
        cases hl : s₀.leases.lookup lease with
        | none =>
          rw [retireLease_none (by exact hl)] at herr
          cases herr
        | some entry =>
          have hinv := hp.inv h
          rw [hinv.rejections_nil hl,
            retireLease_eq (by exact hl) (by exact hinv.books.contains_leased hl)] at herr
          have hpath := retired_close_path (Q := Q) env (admitLease_lookup ha) hl
          refine grow_runsOut h (hp.trans (hpath.mono fun a ha => ?_)) (fun _ ha => ha) herr
          rcases ha with rfl | rfl <;> exact trivial

theorem attachOpen_runsOut {lease : LeaseId} {reply : C} {messageTime : Nat} (h : Inv Q s)
    (hidle : s.NoIdle) (hopen : s.leaseRecords.lookup lease = some .opened) (hQ : Q lease reply)
    (herr : attachOpen env lease reply messageTime s = .error p) : s.RunsOut p := by
  rw [attachOpen] at herr
  cases hl : s.leases.lookup lease with
  | some entry =>
    rw [hl] at herr
    exact absurd herr (replyAttached_no_error hl)
  | none =>
    have hnot := Finmap.lookup_eq_none.mp hl
    rw [hl, DatabaseInventory.takeReady] at herr
    cases hready : s.inventory.ready with
    | nil =>
      rw [hready] at herr
      have henq : Move Q s (.enqueue lease) (s.enqueue lease reply messageTime) :=
        .enqueue messageTime hopen hnot hready hQ
      have hp := grow_error 0 (h.move henq).queue herr
      refine .of_exhausted hp (Nat.zero_le _) ?_
      have hlen : (s.enqueue lease reply messageTime).waiters.length ≤ s.waiters.length + 1 := by
        rw [enqueue]
        simp only
        split <;> simp
      simp only [demand, enqueue] at hlen ⊢
      omega
    | cons database rest =>
      rw [hready] at herr
      have hne : s.inventory.ready ≠ [] := by simp [hready]
      obtain ⟨hempty, hw⟩ := h.not_waiting hidle hne lease
      rcases bind_error herr with herr | ⟨⟨name, s₁⟩, h1, herr⟩
      · have hp := assignDatabase_error (s := { s with
          inventory := { s.inventory with ready := rest } }) 0 hnot herr
        exact .of_exhausted hp (by simp only; omega) (Nat.zero_le _)
      rcases bind_error herr with herr | ⟨s₂, h2, herr⟩
      · obtain ⟨_, _, _, _, _, rfl⟩ := assignDatabase_cases h1
        exact absurd herr (replyAttached_no_error (Finmap.lookup_insert _))
      obtain ⟨hp₂, hf₂⟩ := attachFresh_path h hopen hw (le_refl _) hQ hready h1 h2
      rcases bind_error herr with herr | ⟨⟨restored, s₃⟩, h3, herr⟩
      · exact absurd herr (restoreUnclaimedDatabase_no_error (hp₂.inv h).books)
      have hp₃ := hp₂.trans (restore_path (Q := Q) hf₂ h3).1
      have hfrugal : Path Q (fun a => a.Frugal) s s₃ :=
        hp₃.mono fun _ ha => ha.dispatching.frugal
      -- one generation was drawn, and nobody waits
      have hn : s₃.nextGeneration = s.nextGeneration + 1 := by
        have hn₂ := (replyAttached_serves h2).2
        obtain ⟨_, _, _, _, _, rfl⟩ := assignDatabase_cases h1
        rcases restoreUnclaimedDatabase_cases h3 with ⟨_, rfl⟩ | ⟨_, _, _, _, rfl⟩ <;> exact hn₂
      have hwait : s₃.waiters = [] := (path_sameQueue hp₃ h).waiters.trans hempty
      cases restored with
      | false =>
        exact grow_runsOut h hfrugal (fun _ ha => ha) herr
      | true =>
        rcases bind_error herr with herr | ⟨s₄, h4, herr⟩
        · have hp := dispatchLoop_error 0 (hp₃.inv h) rfl herr
          refine .of_exhausted hp ?_ (Nat.zero_le _)
          rw [hwait, hn]
          simp
        · have hp₄ := (dispatchLoop_path (hp₃.inv h) (le_refl _) rfl h4).1
          exact grow_runsOut h (hfrugal.trans (hp₄.mono fun _ ha => ha.frugal)) (fun _ ha => ha)
            herr

theorem attachOrJoin_runsOut {lease : LeaseId} {reply : C} {messageTime : Nat} (h : Inv Q s)
    (hidle : s.NoIdle) (hQ : Q lease reply)
    (herr : attachOrJoin env lease reply messageTime s = .error p) : s.RunsOut p := by
  cases ha : s.admitLease lease with
  | mk outcome s₀ =>
    rw [attachOrJoin, ha] at herr
    cases outcome with
    | error error => cases error <;> cases herr
    | ok status =>
      cases status with
      | closed => cases herr
      | opened =>
        have hinv := (admitLease_path (Q := Q) ha).inv h
        have hopen := admitLease_lookup ha
        have hkeep := admitLease_keeps ha
        have hidle₀ : s₀.NoIdle := by
          rw [hkeep]
          exact hidle
        have hp := attachOpen_runsOut hinv hidle₀ hopen hQ herr
        rw [hkeep] at hp
        exact hp

/-- Dispatch and growth, after a creation was settled. -/
theorem dispatchGrow_runsOut {u : WorkerEngine C} (h : Inv Q s)
    (hp : Path Q (fun a => a.Frugal) s u) (hn : u.nextGeneration = s.nextGeneration)
    (hw : u.waiters = s.waiters)
    (herr : (dispatchWaiters env u >>= grow env) = .error p) : s.RunsOut p := by
  rcases bind_error herr with herr | ⟨v, h1, herr⟩
  · have hp := dispatchLoop_error 0 (hp.inv h) rfl herr
    refine .of_exhausted hp ?_ (Nat.zero_le _)
    rw [hn, hw]
    omega
  · have hp₁ := (dispatchLoop_path (hp.inv h) (le_refl _) rfl h1).1
    exact grow_runsOut h (hp.trans (hp₁.mono fun _ ha => ha.frugal)) (fun _ ha => ha) herr

theorem handleDatabaseWorkerMessage_runsOut {message : DatabaseWorkerMessages} (h : Inv Q s)
    (herr : handleDatabaseWorkerMessage env message s = .error p) : s.RunsOut p := by
  cases message with
  | creationFinished databaseId result =>
    by_cases hc : databaseId ∈ s.inventory.creating
    · have hp : Path Q (fun a => a.Frugal) s (s.settledWith databaseId result) :=
        .single (.settle result hc) trivial
      rw [creationFinished_eq env result hc] at herr
      have hp₁ := hp.snoc (.count _ (s.counters.afterCreation_detachOnZero result)) trivial
      exact dispatchGrow_runsOut h hp₁ rfl rfl herr
    · rw [creationFinished_unknown result hc] at herr
      cases herr
  | cleanupFinished databaseId result =>
    rw [handleDatabaseWorkerMessage] at herr
    split at herr <;> cases herr

/-- **A message fails only where the numbers run out.** -/
theorem processMessage_runsOut {message : EngineMessage C} (h : Inv Q s) (hidle : s.NoIdle)
    (hQ : message.Known Q) (herr : processMessage env message s = .error p) : s.RunsOut p := by
  cases message with
  | attachOrJoin lease reply messageTime => exact attachOrJoin_runsOut h hidle hQ herr
  | releaseLease lease reply =>
    exact releaseLease_runsOut h ((bind_error herr).resolve_right nofun)
  | leaseMaxTimeReached lease generation => exact leaseMaxTimeReached_runsOut h herr
  | databaseWorker message => exact handleDatabaseWorkerMessage_runsOut h herr
  | detach _ _ | shutdown => cases herr

end WorkerEngine

/-! ### In the runs of the engine -/

variable {config : WorkerEngineConfig} {s t : WorkerEngine C}

/-- The messages of a run that fails fail with numbers that ran out. -/
theorem processMessages_runsOut {messages : List (Env C × EngineMessage C)} {p : Panic}
    (h : (engine C config).Reachable s) (hrun : s.rootCancelled = false)
    (herr : processMessages messages s = .error p) :
    ∃ t, (engine C config).Reachable t ∧ t.RunsOut p := by
  induction messages generalizing s with
  | nil => cases herr
  | cons i messages ih =>
    obtain ⟨env, message⟩ := i
    by_cases hm : message = .shutdown
    · subst hm
      cases herr
    · rw [processMessages_cons hm] at herr
      rcases bind_error herr with herr | ⟨s₁, h1, herr⟩
      · obtain ⟨hinv, hidle⟩ := engine_inv h
        exact ⟨s, h, processMessage_runsOut hinv hidle message.known_anyone herr⟩
      · have hstep : (engine C config).step s (env, message) s₁ := ⟨hrun, h1⟩
        exact ih (h.step hstep) ((engine_running h hm h1).trans hrun) herr

/-- The count of a request converts to `u64`, as `grow` expects of it. -/
def Event.Fits : Event C → Prop
  | .requestedCreation request _ => request.amount ≤ u64Max
  | _ => True

theorem Move.fits {a : Act} (h : Move Q s a t) (hs : ∀ event ∈ s.history, event.Fits) :
    ∀ event ∈ t.history, event.Fits := by
  cases h with
  | count _ _ | enroll _ _ | enqueue _ _ _ _ _ | dequeue _ | detachIdle _ _ | shutdown => exact hs
  | @note noted hq =>
    cases noted <;> simp_all [Quiet, log, Event.Fits]
  | close _ _ hev =>
    intro event he
    rcases List.mem_append.mp he with he | he
    · obtain ⟨_, _, rfl⟩ := hev event he
      exact trivial
    · exact hs event he
  | assign _ _ _ _ _ hsched =>
    rw [Scheduling] at hsched
    split at hsched
    · obtain ⟨_, rfl⟩ := hsched
      simpa [assignment, Event.Fits] using hs
    · subst hsched
      simpa [assignment, Event.Fits] using hs
  | attach _ _ _ | restore _ _ _ | detach _ _ | retire _ _ | clean _ =>
    simpa [Event.Fits] using hs
  | settle result _ => cases result <;> simpa [settled, Event.Fits] using hs
  | reserve _ _ hmax hev =>
    rcases hev with rfl | rfl
    · exact hs
    · have hle := (Nat.le_add_left _ _).trans hmax
      simpa [Event.Fits, hle] using hs
  | burn _ _ _ _ hmax =>
    have hle := (Nat.le_add_left _ _).trans hmax
    simpa [Event.Fits, hle] using hs

theorem ledger_fits (h : (ledger Q).Reachable s) : ∀ event ∈ s.history, event.Fits := by
  refine h.invariant (I := fun s => ∀ event ∈ s.history, event.Fits) (fun s hs => ?_)
    fun _ _ _ _ hs hm => hm.fits hs
  obtain ⟨config, rfl⟩ := hs
  exact fun _ he => absurd he List.not_mem_nil

/-- **The engine cannot panic.**  Whatever it is told and answered, a message fails only
where a generation or an identifier is drawn and there is none left, and with enough of
both it is handled.  Connections stay within `u16`, and what is requested within `u64`. -/
theorem engine_cannot_panic (h : (engine C config).Reachable s) :
    (∀ env message p, processMessage env message s = .error p →
      p = .leaseGenerationExhausted ∧
          u64Max < s.nextGeneration + s.waiters.length + 1 ∨
        p = .databaseIdentityExhausted ∧
          u64Max < s.inventory.nextDatabaseId + s.waiters.length +
            s.config.starvationThreshold + s.config.growBatchSize + 1) ∧
    (∀ env message, s.nextGeneration + s.waiters.length + 1 ≤ u64Max →
      s.inventory.nextDatabaseId + s.waiters.length + s.config.starvationThreshold +
        s.config.growBatchSize + 1 ≤ u64Max →
      ∃ t, processMessage env message s = .ok t) ∧
    (∀ messages p, s.rootCancelled = false → processMessages messages s = .error p →
      p = .leaseGenerationExhausted ∨ p = .databaseIdentityExhausted) ∧
    (∀ lease entry, s.leases.lookup lease = some entry → entry.conns ≤ u16Max) ∧
    ∀ request accepted, .requestedCreation request accepted ∈ s.history →
      request.amount ≤ u64Max := by
  obtain ⟨hinv, hidle⟩ := engine_inv h
  have herror : ∀ env message p, processMessage env message s = .error p → s.RunsOut p :=
    fun env message p herr => processMessage_runsOut hinv hidle message.known_anyone herr
  refine ⟨?_, ?_, ?_, hinv.entries.conns_le, ?_⟩
  · intro env message p herr
    have hp := herror env message p herr
    rw [RunsOut, demand] at hp
    cases p with
    | leaseGenerationExhausted => exact Or.inl ⟨rfl, hp⟩
    | databaseIdentityExhausted =>
      refine Or.inr ⟨rfl, ?_⟩
      simp only [Panic.Exhausted] at hp
      omega
    | creationIndexOutsideBatch | initialCreationWithoutReservation | databaseAlreadyInventoried
    | dispatchWithoutReadyDatabase | replyWithoutLease | leaseAlreadyAssigned | growthCountZero
    | connectionCountUnderflow => exact hp.elim
  · intro env message hg hd
    cases hok : processMessage env message s with
    | ok t => exact ⟨t, rfl⟩
    | error p =>
      have hp := herror env message p hok
      rw [RunsOut, demand] at hp
      cases p <;> simp only [Panic.Exhausted] at hp <;> omega
  · intro messages p hrun herr
    obtain ⟨t, _, hp⟩ := processMessages_runsOut h hrun herr
    cases p <;> simp_all [RunsOut, Panic.Exhausted]
  · intro request accepted hm
    exact ledger_fits ((engine_refines C config).reachable h).1 _ hm

/-- The small engine, when a lease comes and a reply is not taken. -/
theorem engine_cannot_panic_undelivered : ∃ s t : WorkerEngine Nat,
    (engine Nat Sample.settings).Reachable s ∧
      processMessage { Sample.env with reply := fun _ _ => false }
        (.attachOrJoin Sample.leaseC 5 0) s = .ok t := by
  obtain ⟨s, hs, hg, hd⟩ := Sample.reached
    [.attachOrJoin Sample.leaseA 0 0, .attachOrJoin Sample.leaseB 1 0]
    (fun s => s.nextGeneration + s.waiters.length + 1 ≤ u64Max ∧
      s.inventory.nextDatabaseId + s.waiters.length + s.config.starvationThreshold +
        s.config.growBatchSize + 1 ≤ u64Max) (by decide)
  obtain ⟨t, ht⟩ := (engine_cannot_panic hs).2.1 { Sample.env with reply := fun _ _ => false }
    (.attachOrJoin Sample.leaseC 5 0) hg hd
  exact ⟨s, t, hs, ht⟩

end PgTest.Engine
