import PgTest.Engine.Supply

/-!
# The handlers

Every message is handled by a path of the ledger, whose changes are those the
message allows (`Act.Handling`): a lease is retired only by its release or its
own timer, a database is assigned only by an attachment or after a creation, it
is put back only from an assignment made while the message
is handled, and a connection is let go only by its `Detach`.

`processMessage_handles` is what most of the development uses of the engine's
functions.
-/

namespace PgTest.Engine

open PgTest.Lib

variable {C : Type} {Q : LeaseId → C → Prop}

/-- The messages that may assign a database. -/
def EngineMessage.Serves : EngineMessage C → Prop
  | .attachOrJoin _ _ _ | .databaseWorker (.creationFinished _ _) => True
  | _ => False

/-- The changes that handling `message` may make, when `base` is the last
generation given out before. -/
def Act.Handling (message : EngineMessage C) (base : Nat) : Act → Prop
  | .retire lease generation =>
      (∃ reply, message = .releaseLease lease reply) ∨
        message = .leaseMaxTimeReached lease generation
  | .assign _ _ => message.Serves
  | .restore _ generation => base < generation
  | .detach lease generation => message = .detach lease generation
  | .close lease => ∃ reply, message = .releaseLease lease reply
  | .settle databaseId => ∃ result, message = .databaseWorker (.creationFinished databaseId result)
  | .clean databaseId => ∃ result, message = .databaseWorker (.cleanupFinished databaseId result)
  | .shutdown => message = .shutdown
  | _ => True

variable {message : EngineMessage C} {base : Nat}

/-- What is known of the consumer of a request. -/
def EngineMessage.Known (Q : LeaseId → C → Prop) : EngineMessage C → Prop
  | .attachOrJoin lease reply _ => Q lease reply
  | _ => True

theorem Act.Growing.handling {a : Act} (h : a.Growing) : a.Handling message base := by
  cases a with
  | note | reserve => exact trivial
  | enroll _ | close _ | enqueue _ | dequeue _ | assign _ _ | attach _ _ | restore _ _ | detach _ _
  | retire _ _ | settle _ | clean _ | shutdown => exact h.elim

theorem Act.Serving.handling {lease : LeaseId} {a : Act} (h : a.Serving lease base)
    (hm : message.Serves) : a.Handling message base := by
  cases a with
  | note | attach _ _ => exact trivial
  | assign _ _ => exact hm
  | restore _ _ => exact h.2
  | enroll _ | close _ | enqueue _ | dequeue _ | detach _ _ | retire _ _ | reserve | settle _
  | clean _ | shutdown => exact h.elim

theorem Act.Dispatching.handling {a : Act} (h : a.Dispatching base) (hm : message.Serves) :
    a.Handling message base := by
  cases a with
  | dequeue _ => exact trivial
  | note | enroll _ | close _ | enqueue _ | assign _ _ | attach _ _ | restore _ _ | detach _ _
  | retire _ _ | reserve | settle _ | clean _ | shutdown =>
    obtain ⟨lease, h⟩ := h
    exact h.handling hm

/-- The changes of an attachment before it grows. -/
def Act.Attaching (base : Nat) : Act → Prop
  | .enqueue _ => True
  | a => a.Dispatching base

theorem Act.Dispatching.attaching {a : Act} (h : a.Dispatching base) : a.Attaching base := by
  cases a with
  | enqueue _ => exact trivial
  | note | enroll _ | close _ | dequeue _ | assign _ _ | attach _ _ | restore _ _ | detach _ _
  | retire _ _ | reserve | settle _ | clean _ | shutdown => exact h

theorem Act.Attaching.handling {a : Act} (h : a.Attaching base) (hm : message.Serves) :
    a.Handling message base := by
  cases a with
  | enqueue _ => exact trivial
  | note | enroll _ | close _ | dequeue _ | assign _ _ | attach _ _ | restore _ _ | detach _ _
  | retire _ _ | reserve | settle _ | clean _ | shutdown =>
    exact Act.Dispatching.handling h hm

/-- A creation that failed is counted. -/
def EngineCounters.afterCreation (counters : EngineCounters) :
    Except PostgresDDLClientError ReadString → EngineCounters
  | .ok _ => counters
  | .error _ => { counters with templateCreateFailures := counters.templateCreateFailures + 1 }

@[simp] theorem EngineCounters.afterCreation_detachOnZero (counters : EngineCounters)
    (result : Except PostgresDDLClientError ReadString) :
    (counters.afterCreation result).detachOnZero = counters.detachOnZero := by
  cases result <;> rfl

@[simp] theorem EngineCounters.afterCreation_waiterTimeouts (counters : EngineCounters)
    (result : Except PostgresDDLClientError ReadString) :
    (counters.afterCreation result).waiterTimeouts = counters.waiterTimeouts := by
  cases result <;> rfl

namespace WorkerEngine

variable {env : Env C} {s t : WorkerEngine C}

/-! ### Retiring -/

/-- The engine after `lease` gave its database up for cleanup. -/
def retired (env : Env C) (lease : LeaseId) (entry : LeaseEntry) (s : WorkerEngine C) :
    WorkerEngine C :=
  { s with
    leases := s.leases.erase lease
    cancelledTokens := insert entry.cancellation s.cancelledTokens
    inventory := { s.inventory with
      retiring := s.inventory.retiring.insert entry.database.databaseId
        entry.database.databaseName }
    history := .requestedCleanup ⟨entry.database.databaseId, entry.database.databaseName⟩
        (env.requestCleanup ⟨entry.database.databaseId, entry.database.databaseName⟩) ::
      .cancelled entry.cancellation :: s.history }

theorem retireLease_none {lease : LeaseId} (hl : s.leases.lookup lease = none) :
    retireLease env lease s = .ok s := by
  rw [retireLease, hl]

theorem retireLease_some {lease : LeaseId} {entry : LeaseEntry}
    (hl : s.leases.lookup lease = some entry) (hok : retireLease env lease s = .ok t) :
    grow env (s.retired env lease entry) = .ok t := by
  rw [retireLease, hl] at hok
  obtain ⟨⟨request, inventory⟩, h1, h2⟩ := bind_ok hok
  rw [DatabaseInventory.retire] at h1
  split at h1
  · cases h1
  · cases h1
    exact h2

theorem retired_move {lease : LeaseId} {entry : LeaseEntry}
    (hl : s.leases.lookup lease = some entry) :
    Move Q s (.retire lease entry.generation) (s.retired env lease entry) := .retire _ hl

theorem retireLease_handles {lease : LeaseId} {entry : LeaseEntry} (h : Inv Q s)
    (hidle : s.NoIdle) (hl : s.leases.lookup lease = some entry)
    (hmsg : Act.Handling message base (.retire lease entry.generation))
    (hok : retireLease env lease s = .ok t) :
    Handles Q (Act.Handling message base) env s t :=
  .grow h (fun _ ha => ha.handling) (.single (retired_move hl) hmsg) hidle
    (retireLease_some hl hok)

/-! ### Admission -/

theorem admitLease_cases {lease : LeaseId} {result : Except ReleaseError LeaseStatus}
    (h : s.admitLease lease = (result, t)) :
    t = s ∧ (∃ status, result = .ok status ∧ s.leaseRecords.lookup lease = some status) ∨
    t = s ∧ lease ∉ s.leaseRecords ∧ s.config.maxLeaseRecords ≤ s.leaseRecords.keys.card ∧
      result = .error .leaseRecordLimitReached ∨
    lease ∉ s.leaseRecords ∧ s.leaseRecords.keys.card < s.config.maxLeaseRecords ∧
      result = .ok .opened ∧
      t = { s with leaseRecords := s.leaseRecords.insert lease .opened } := by
  rw [admitLease] at h
  cases hl : s.leaseRecords.lookup lease with
  | some status =>
    rw [hl] at h
    cases h
    exact Or.inl ⟨rfl, status, rfl, rfl⟩
  | none =>
    rw [hl] at h
    have hnot : lease ∉ s.leaseRecords := Finmap.lookup_eq_none.mp hl
    by_cases hcap : s.config.maxLeaseRecords ≤ s.leaseRecords.keys.card
    · cases (if_pos hcap).symm.trans h
      exact Or.inr (Or.inl ⟨rfl, hnot, hcap, rfl⟩)
    · cases (if_neg hcap).symm.trans h
      exact Or.inr (Or.inr ⟨hnot, Nat.lt_of_not_le hcap, rfl, rfl⟩)

theorem admitLease_path {lease : LeaseId} {result : Except ReleaseError LeaseStatus}
    (h : s.admitLease lease = (result, t)) : Path Q (fun a => a = .enroll lease) s t := by
  rcases admitLease_cases h with ⟨rfl, _⟩ | ⟨rfl, _⟩ | ⟨hnew, hcap, _, rfl⟩
  · exact .refl _
  · exact .refl _
  · exact .single (.enroll hnew hcap) rfl

/-- An admission that succeeds says how the lease is recorded. -/
theorem admitLease_lookup {lease : LeaseId} {status : LeaseStatus}
    (h : s.admitLease lease = (.ok status, t)) : t.leaseRecords.lookup lease = some status := by
  rcases admitLease_cases h with ⟨rfl, _, hr, hl⟩ | ⟨_, _, _, hr⟩ | ⟨_, _, hr, rfl⟩
  · cases hr
    exact hl
  · cases hr
  · cases hr
    exact Finmap.lookup_insert _

/-- An admission changes nothing but the records. -/
theorem admitLease_keeps {lease : LeaseId} {result : Except ReleaseError LeaseStatus}
    (h : s.admitLease lease = (result, t)) : t = { s with leaseRecords := t.leaseRecords } := by
  rcases admitLease_cases h with ⟨rfl, _⟩ | ⟨rfl, _⟩ | ⟨_, _, _, rfl⟩
  · rfl
  · rfl
  · rfl

theorem admitLease_untouched {lease : LeaseId} {result : Except ReleaseError LeaseStatus}
    (h : s.admitLease lease = (result, t)) : Untouched s t := by
  rw [admitLease_keeps h]
  exact ⟨rfl, rfl, fun _ _ h => h, fun _ h => h, Iff.rfl⟩

/-! ### Release -/

/-- The replies of `send`, one for each request, newest first. -/
theorem foldl_send (lease : LeaseId) (reply : ConsumerReply) :
    ∀ (replies : List (C × Nat)) (s : WorkerEngine C),
      replies.foldl (fun s request => s.send env lease reply request.1) s =
        { s with history := (replies.map fun request =>
          Event.reply lease request.1 reply none (env.reply request.1 reply)).reverse ++
            s.history } := by
  intro replies
  induction replies with
  | nil => intro s; rfl
  | cons request replies ih =>
    intro s
    rw [List.foldl_cons, ih, List.map_cons, List.reverse_cons, List.append_assoc]
    rfl

/-- The answers to the requests of a lease that is closed. -/
def rejections (env : Env C) (lease : LeaseId) (s : WorkerEngine C) : List (Event C) :=
  (((s.groupWaiters.lookup lease).getD []).map fun request =>
    Event.reply lease request.1 (.attachRejected .leaseClosed) none
      (env.reply request.1 (.attachRejected .leaseClosed))).reverse

/-- The engine after `lease` was closed. -/
def closedWith (lease : LeaseId) (events : List (Event C)) (s : WorkerEngine C) :
    WorkerEngine C :=
  { s with
    leaseRecords := s.leaseRecords.insert lease .closed
    groupWaiters := s.groupWaiters.erase lease
    waiters := s.waiters.filter (· ≠ lease)
    history := events ++ s.history }

/-- **What `release_lease` does** with an open lease. -/
theorem releaseLease_eq {lease : LeaseId} {s₀ : WorkerEngine C}
    (ha : s.admitLease lease = (.ok .opened, s₀)) :
    releaseLease env lease s = (do
      let s ← retireLease env lease (s₀.closedWith lease (s₀.rejections env lease))
      return (.ok (), s)) := by
  rw [releaseLease, ha]
  simp only [foldl_send]
  rfl

theorem releaseLease_opened {lease : LeaseId} {result : Except ReleaseError Unit}
    {s₀ : WorkerEngine C} (ha : s.admitLease lease = (.ok .opened, s₀))
    (hok : releaseLease env lease s = .ok (result, t)) :
    result = .ok () ∧
      retireLease env lease (s₀.closedWith lease (s₀.rejections env lease)) = .ok t := by
  rw [releaseLease_eq ha] at hok
  obtain ⟨s₁, h1, h2⟩ := bind_ok hok
  cases h2
  exact ⟨rfl, h1⟩

/-- A lease with a database has no queued request. -/
theorem Inv.rejections_nil (h : Inv Q s) {lease : LeaseId} {entry : LeaseEntry}
    (hl : s.leases.lookup lease = some entry) : s.rejections env lease = [] := by
  have hg : lease ∉ s.groupWaiters := fun hg => h.queue.waiting_free lease hg (mem_of_lookup hl)
  rw [rejections, Finmap.lookup_eq_none.mpr hg]
  rfl

/-- Closing a lease takes no supply and adds no demand. -/
theorem closedWith_untouched (lease : LeaseId) (s : WorkerEngine C) :
    Untouched s (s.closedWith lease (s.rejections env lease)) := by
  refine ⟨rfl, rfl, fun _ _ hl => (lookup_erase_eq_some.mp hl).2, fun _ hl => hl, ?_⟩
  show .grew ∈ s.rejections env lease ++ s.history ↔ _
  rw [List.mem_append]
  refine or_iff_right fun he => ?_
  obtain ⟨request, _, hr⟩ := List.mem_map.mp (List.mem_reverse.mp he)
  cases hr

theorem closedWith_noIdle (hidle : s.NoIdle) (lease : LeaseId) (events : List (Event C)) :
    (s.closedWith lease events).NoIdle := by
  rcases hidle with hr | hw
  · exact Or.inl hr
  · refine Or.inr ?_
    show s.waiters.filter _ = []
    rw [hw]
    rfl

theorem retired_close_move (env : Env C) {lease : LeaseId} {entry : LeaseEntry}
    (hopen : s.leaseRecords.lookup lease = some .opened) :
    Move Q (s.retired env lease entry) (.close lease)
      ((s.closedWith lease []).retired env lease entry) :=
  @Move.close C Q _ lease [] hopen Finmap.notMem_erase_self fun _ he =>
    absurd he List.not_mem_nil

/-- A lease with a database gives it up and is closed. -/
theorem retired_close_path (env : Env C) {lease : LeaseId} {entry : LeaseEntry}
    (hopen : s.leaseRecords.lookup lease = some .opened)
    (hl : s.leases.lookup lease = some entry) :
    Path Q (fun a => a = .retire lease entry.generation ∨ a = .close lease) s
      ((s.closedWith lease []).retired env lease entry) :=
  (Path.single (retired_move hl) (Or.inl rfl)).snoc (retired_close_move env hopen) (Or.inr rfl)

theorem releaseLease_handles {lease : LeaseId} {reply : C} {result : Except ReleaseError Unit}
    (h : Inv Q s) (hidle : s.NoIdle) (hok : releaseLease env lease s = .ok (result, t)) :
    Handles Q (Act.Handling (.releaseLease lease reply) base) env s t ∧
      (result = .ok () → t.leaseRecords.lookup lease = some .closed) := by
  cases ha : s.admitLease lease with
  | mk outcome s₀ =>
    have hp : Path Q (Act.Handling (.releaseLease lease reply) base) s s₀ :=
      (admitLease_path ha).mono fun _ he => he ▸ trivial
    have hidle₀ : s₀.NoIdle := by
      rw [admitLease_keeps ha]
      exact hidle
    have hsame : Handles Q (Act.Handling (.releaseLease lease reply) base) env s s₀ :=
      ⟨hp, hidle₀, Or.inl (admitLease_untouched ha)⟩
    cases outcome with
    | error error =>
      rw [releaseLease, ha] at hok
      cases hok
      exact ⟨hsame, nofun⟩
    | ok status =>
      have hl := admitLease_lookup ha
      cases status with
      | closed =>
        rw [releaseLease, ha] at hok
        cases hok
        exact ⟨hsame, fun _ => hl⟩
      | opened =>
        have hinv := hp.inv h
        obtain ⟨rfl, hret⟩ := releaseLease_opened ha hok
        have hclosed : ∀ events, (s₀.closedWith lease events).leaseRecords.lookup lease =
            some .closed := fun _ => Finmap.lookup_insert _
        cases hentry : s₀.leases.lookup lease with
        | none =>
          cases (retireLease_none (s := s₀.closedWith lease _) hentry).symm.trans hret
          refine ⟨⟨hp.snoc (.close hl (Finmap.lookup_eq_none.mp hentry) fun event he => ?_)
            ⟨reply, rfl⟩, closedWith_noIdle hidle₀ lease _, Or.inl ?_⟩, fun _ => hclosed _⟩
          · obtain ⟨request, _, rfl⟩ := List.mem_map.mp (List.mem_reverse.mp he)
            exact ⟨_, _, rfl⟩
          · exact (admitLease_untouched ha).trans (closedWith_untouched lease s₀)
        | some entry =>
          rw [hinv.rejections_nil hentry] at hret
          have hgrow := retireLease_some (s := s₀.closedWith lease []) hentry hret
          have hp₁ : Path Q (Act.Handling (.releaseLease lease reply) base) s
              ((s₀.closedWith lease []).retired env lease entry) := by
            refine hp.trans ((retired_close_path env hl hentry).mono fun a ha => ?_)
            rcases ha with rfl | rfl
            · exact Or.inl ⟨reply, rfl⟩
            · exact ⟨reply, rfl⟩
          refine ⟨.grow h (fun _ ha => ha.handling) hp₁ (closedWith_noIdle hidle₀ lease []) hgrow,
            fun _ => ?_⟩
          rw [(grow_keeps hgrow).2.2.2.1]
          exact hclosed []

/-! ### Attachment -/

theorem replyAttached_untouched {lease : LeaseId} {entry : LeaseEntry} {reply : C}
    (hl : s.leases.lookup lease = some entry)
    (hok : replyAttached env lease entry.database.databaseName reply s = .ok t) :
    Untouched s t ∧ (s.NoIdle → t.NoIdle) := by
  rcases replyAttached_cases hl hok with ⟨event, _, he, rfl⟩ | ⟨_, rfl⟩
  · exact ⟨.log s he, id⟩
  · refine ⟨⟨rfl, rfl, fun _ _ h => h, fun _ h => Finmap.mem_insert.mpr (Or.inr h), ?_⟩, id⟩
    show .grew ∈ _ :: s.history ↔ _
    rw [List.mem_cons]
    exact or_iff_right nofun

/-- The steps of an attachment that takes a ready database. -/
theorem attachOpen_fresh {lease : LeaseId} {reply : C} {messageTime : Nat} {database : Database}
    {rest : List Database} (hl : s.leases.lookup lease = none)
    (hready : s.inventory.ready = database :: rest)
    (hok : attachOpen env lease reply messageTime s = .ok t) :
    ∃ name s₁ s₂ restored s₃ s₄,
      assignDatabase env lease database
        { s with inventory := { s.inventory with ready := rest } } = .ok (name, s₁) ∧
      replyAttached env lease name reply s₁ = .ok s₂ ∧
      restoreUnclaimedDatabase lease s₂ = .ok (restored, s₃) ∧
      (dispatchWaiters env s₃ = .ok s₄ ∨ restored = false ∧ s₄ = s₃) ∧
      grow env s₄ = .ok t := by
  rw [attachOpen, hl, DatabaseInventory.takeReady, hready] at hok
  obtain ⟨⟨name, s₁⟩, h1, hok⟩ := bind_ok hok
  obtain ⟨s₂, h2, hok⟩ := bind_ok hok
  obtain ⟨⟨restored, s₃⟩, h3, hok⟩ := bind_ok hok
  cases restored with
  | true =>
    obtain ⟨s₄, h4, hok⟩ := bind_ok hok
    exact ⟨name, s₁, s₂, true, s₃, s₄, h1, h2, h3, Or.inl h4, hok⟩
  | false =>
    obtain ⟨s₄, h4, hok⟩ := bind_ok hok
    cases h4
    exact ⟨name, s₁, s₂, false, s₃, s₃, h1, h2, h3, Or.inr ⟨rfl, rfl⟩, hok⟩

/-- Taking a database for `lease` and telling its consumer. -/
theorem attachFresh_path {lease : LeaseId} {reply : C} {database : Database}
    {rest : List Database} {name : ReadString} {s₁ s₂ : WorkerEngine C} (h : Inv Q s)
    (hopen : s.leaseRecords.lookup lease = some .opened) (hw : lease ∉ s.groupWaiters)
    (hbase : base ≤ s.nextGeneration) (hQ : Q lease reply)
    (hready : s.inventory.ready = database :: rest)
    (h1 : assignDatabase env lease database
      { s with inventory := { s.inventory with ready := rest } } = .ok (name, s₁))
    (h2 : replyAttached env lease name reply s₁ = .ok s₂) :
    Path Q (Act.Serving lease base) s s₂ ∧ s₂.Fresh lease base := by
  obtain ⟨hnot, hmax, rfl, scheduling, hsched, rfl⟩ := assignDatabase_cases h1
  obtain ⟨hp₁, hf₁⟩ := assign_path h hopen hw hbase hnot hready hmax hsched
  have hl₁ : (s.assignment lease database rest scheduling).leases.lookup lease =
      some ⟨database, 0, s.nextGeneration + 1, s.issuedTokens + 1⟩ := Finmap.lookup_insert _
  have hreply : Path Q (Act.Serving lease base) _ s₂ ∧ _ := replyAttached_path hl₁ hQ h2
  exact ⟨hp₁.trans hreply.1, hreply.2 hf₁⟩

/-- While something is ready nobody waits, so nobody is overtaken. -/
theorem Inv.not_waiting (h : Inv Q s) (hidle : s.NoIdle) (hready : s.inventory.ready ≠ [])
    (lease : LeaseId) : s.waiters = [] ∧ lease ∉ s.groupWaiters := by
  have hempty : s.waiters = [] := hidle.resolve_left hready
  refine ⟨hempty, fun hg => ?_⟩
  have hm := (h.queue.keys lease).mpr hg
  rw [hempty] at hm
  exact List.not_mem_nil hm

/-- **What an attachment does** to a lease without a database: it queues or serves the
request, dispatches, and grows. -/
theorem attachOpen_path {lease : LeaseId} {reply : C} {messageTime : Nat} (h : Inv Q s)
    (hidle : s.NoIdle) (hopen : s.leaseRecords.lookup lease = some .opened) (hQ : Q lease reply)
    (hbase : base ≤ s.nextGeneration) (hl : s.leases.lookup lease = none)
    (hok : attachOpen env lease reply messageTime s = .ok t) :
    ∃ u, Path Q (Act.Attaching base) s u ∧ u.NoIdle ∧ grow env u = .ok t := by
  cases hready : s.inventory.ready with
  | nil =>
    have hnot : lease ∉ s.leases := Finmap.lookup_eq_none.mp hl
    rw [attachOpen, hl, DatabaseInventory.takeReady, hready] at hok
    exact ⟨_, .single (.enqueue messageTime hopen hnot hready hQ) trivial, Or.inl hready, hok⟩
  | cons database rest =>
    have hne : s.inventory.ready ≠ [] := by simp [hready]
    obtain ⟨hempty, hw⟩ := h.not_waiting hidle hne lease
    obtain ⟨name, s₁, s₂, restored, s₃, s₄, h1, h2, h3, h4, h5⟩ := attachOpen_fresh hl hready hok
    obtain ⟨hp₂, hf₂⟩ := attachFresh_path h hopen hw hbase hQ hready h1 h2
    have hp := hp₂.trans (restore_path (Q := Q) hf₂ h3).1
    have hp₃ : Path Q (Act.Attaching base) s s₃ := hp.mono fun _ ha => ha.dispatching.attaching
    rcases h4 with h4 | ⟨_, rfl⟩
    · have hbase₃ := le_trans hbase (hp.nextGeneration h)
      obtain ⟨hp₄, hidle₄⟩ := dispatchLoop_path (hp.inv h) hbase₃ rfl h4
      exact ⟨s₄, hp₃.trans (hp₄.mono fun _ ha => ha.attaching), hidle₄, h5⟩
    · exact ⟨s₄, hp₃, Or.inr ((path_sameQueue hp h).waiters.trans hempty), h5⟩

theorem attachOpen_handles {lease : LeaseId} {reply : C} {messageTime : Nat} (h : Inv Q s)
    (hmsg : message.Serves) (hidle : s.NoIdle)
    (hopen : s.leaseRecords.lookup lease = some .opened)
    (hQ : Q lease reply) (hbase : base ≤ s.nextGeneration)
    (hok : attachOpen env lease reply messageTime s = .ok t) :
    Handles Q (Act.Handling message base) env s t := by
  cases hl : s.leases.lookup lease with
  | some entry =>
    rw [attachOpen, hl] at hok
    have hp : Path Q (Act.Serving lease base) s t := (replyAttached_path hl hQ hok).1
    obtain ⟨hu, hidle'⟩ := replyAttached_untouched hl hok
    exact ⟨hp.mono fun _ ha => ha.handling hmsg, hidle' hidle, Or.inl hu⟩
  | none =>
    obtain ⟨u, hp, hidle', hgrow⟩ := attachOpen_path h hidle hopen hQ hbase hl hok
    exact .grow h (fun _ ha => ha.handling) (hp.mono fun _ ha => ha.handling hmsg) hidle' hgrow

theorem attachOrJoin_handles {lease : LeaseId} {reply : C} {messageTime : Nat} (h : Inv Q s)
    (hmsg : message.Serves) (hidle : s.NoIdle) (hQ : Q lease reply)
    (hbase : base ≤ s.nextGeneration)
    (hok : attachOrJoin env lease reply messageTime s = .ok t) :
    Handles Q (Act.Handling message base) env s t := by
  cases ha : s.admitLease lease with
  | mk outcome s₀ =>
    have hp : Path Q (Act.Handling message base) s s₀ :=
      (admitLease_path ha).mono fun _ he => he ▸ trivial
    have hu := admitLease_untouched ha
    have hidle₀ : s₀.NoIdle := by
      rw [admitLease_keeps ha]
      exact hidle
    have hsend : ∀ error, Handles Q (Act.Handling message base) env s
        (s₀.send env lease (.attachRejected error) reply) := by
      intro error
      have hsame : Handles Q (Act.Handling message base) env s s₀ := ⟨hp, hidle₀, Or.inl hu⟩
      exact hsame.note trivial trivial nofun
    rw [attachOrJoin, ha] at hok
    cases outcome with
    | error error =>
      cases error with
      | invalidLeaseId =>
        cases hok
        exact hsend _
      | leaseRecordLimitReached | engineUnavailable | replyTimedOut | unexpectedReply =>
        cases hok
        exact hsend _
    | ok status =>
      cases status with
      | closed =>
        cases hok
        exact hsend _
      | opened =>
        have hbase₀ := le_trans hbase (hp.nextGeneration h)
        exact .after hp hu (attachOpen_handles (hp.inv h) hmsg hidle₀ (admitLease_lookup ha) hQ
          hbase₀ hok)

/-! ### Detach and expiry -/

theorem detach_handles (lease : LeaseId) (generation : Nat) (hidle : s.NoIdle) :
    Handles Q (Act.Handling (C := C) (.detach lease generation) base) env s
      (s.detach lease generation) := by
  rw [detach]
  cases hl : s.leases.lookup lease with
  | none => exact ⟨.refl s, hidle, Or.inl (.refl s)⟩
  | some entry =>
    by_cases hg : entry.generation = generation
    · subst hg
      by_cases hc : entry.conns = 0
      · simp only [if_true, if_pos hc]
        refine ⟨.single (.detachIdle hl hc) rfl, hidle, Or.inl ?_⟩
        exact ⟨rfl, rfl, fun _ _ h => h, fun _ h => h, Iff.rfl⟩
      · simp only [if_true, if_neg hc]
        refine ⟨.single (.detach hl hc) rfl, hidle, Or.inl ?_⟩
        refine ⟨rfl, rfl, fun _ _ h => h, fun _ h => Finmap.mem_insert.mpr (Or.inr h), ?_⟩
        show .grew ∈ _ :: s.history ↔ _
        rw [List.mem_cons]
        exact or_iff_right nofun
    · simp only [if_neg hg]
      exact ⟨.refl s, hidle, Or.inl (.refl s)⟩

theorem leaseMaxTimeReached_handles {lease : LeaseId} {generation : Nat} (h : Inv Q s)
    (hidle : s.NoIdle) (hok : leaseMaxTimeReached env lease generation s = .ok t) :
    Handles Q (Act.Handling (C := C) (.leaseMaxTimeReached lease generation) base) env s t := by
  rw [leaseMaxTimeReached] at hok
  cases hl : s.leases.lookup lease with
  | none =>
    rw [hl] at hok
    cases hok
    exact ⟨.refl s, hidle, Or.inl (.refl s)⟩
  | some entry =>
    rw [hl] at hok
    by_cases hg : entry.generation = generation
    · subst hg
      replace hok := (if_pos (by exact beq_self_eq_true entry.generation)).symm.trans hok
      have hcount : Path Q
          (Act.Handling (C := C) (.leaseMaxTimeReached lease entry.generation) base) s
          { s with counters := { s.counters with
            rejectedAttachMaxLifetime := s.counters.rejectedAttachMaxLifetime + 1 } } :=
        .single (.count _ rfl) trivial
      refine .after hcount ⟨rfl, rfl, fun _ _ h => h, fun _ h => h, Iff.rfl⟩ ?_
      exact retireLease_handles (hcount.inv h) hidle hl (Or.inr rfl) hok
    · have hne : ¬((some entry).any fun entry => entry.generation == generation) = true := by
        rw [Option.any_some, beq_iff_eq]
        exact hg
      cases (if_neg hne).symm.trans hok
      exact ⟨.refl s, hidle, Or.inl (.refl s)⟩

/-! ### Worker results -/

theorem completeCreation_eq {databaseId : Nat} (result : Except PostgresDDLClientError ReadString)
    (inventory : DatabaseInventory) (h : databaseId ∈ inventory.creating) :
    inventory.completeCreation databaseId result =
      (some (result.map fun _ => ()), (inventory.completeCreation databaseId result).2) := by
  rw [DatabaseInventory.completeCreation, if_pos h]
  cases result with
  | ok name => rfl
  | error error => rfl

/-- The engine after a creation was accepted. -/
def settledWith (databaseId : Nat) (result : Except PostgresDDLClientError ReadString)
    (s : WorkerEngine C) : WorkerEngine C :=
  { s with
    inventory := (s.inventory.completeCreation databaseId result).2
    history := settled databaseId result :: s.history }

/-- **What an accepted creation does**: settle, count a failure, dispatch, grow. -/
theorem creationFinished_eq (env : Env C) {databaseId : Nat}
    (result : Except PostgresDDLClientError ReadString)
    (hc : databaseId ∈ s.inventory.creating) :
    handleDatabaseWorkerMessage env (.creationFinished databaseId result) s =
      (dispatchWaiters env { s.settledWith databaseId result with
        counters := s.counters.afterCreation result } >>= grow env) := by
  rw [handleDatabaseWorkerMessage, completeCreation_eq result s.inventory hc]
  cases result <;> rfl

/-- A result that nobody waits for changes nothing. -/
theorem creationFinished_unknown {databaseId : Nat}
    (result : Except PostgresDDLClientError ReadString)
    (hc : databaseId ∉ s.inventory.creating) :
    handleDatabaseWorkerMessage env (.creationFinished databaseId result) s = .ok s := by
  simp [handleDatabaseWorkerMessage, DatabaseInventory.completeCreation, hc]

theorem creationFinished_cases {databaseId : Nat}
    {result : Except PostgresDDLClientError ReadString}
    (hok : handleDatabaseWorkerMessage env (.creationFinished databaseId result) s = .ok t) :
    databaseId ∉ s.inventory.creating ∧ t = s ∨
    databaseId ∈ s.inventory.creating ∧ ∃ s₂,
      dispatchWaiters env { s.settledWith databaseId result with
        counters := s.counters.afterCreation result } = .ok s₂ ∧ grow env s₂ = .ok t := by
  by_cases hc : databaseId ∈ s.inventory.creating
  · rw [creationFinished_eq env result hc] at hok
    obtain ⟨s₂, h1, h2⟩ := bind_ok hok
    exact Or.inr ⟨hc, s₂, h1, h2⟩
  · rw [creationFinished_unknown result hc] at hok
    exact Or.inl ⟨hc, (Except.ok.inj hok).symm⟩

theorem creationFinished_handles {databaseId : Nat}
    {result : Except PostgresDDLClientError ReadString} (h : Inv Q s) (hidle : s.NoIdle)
    (hbase : base ≤ s.nextGeneration)
    (hok : handleDatabaseWorkerMessage env (.creationFinished databaseId result) s = .ok t) :
    Handles Q
      (Act.Handling (C := C) (.databaseWorker (.creationFinished databaseId result)) base)
      env s t := by
  rcases creationFinished_cases hok with ⟨_, rfl⟩ | ⟨hc, s₂, h1, h2⟩
  · exact ⟨.refl _, hidle, Or.inl (.refl _)⟩
  · have hsettle : Move Q s (.settle databaseId) (s.settledWith databaseId result) :=
      .settle result hc
    have hp : Path Q
        (Act.Handling (C := C) (.databaseWorker (.creationFinished databaseId result)) base) s
        (s.settledWith databaseId result) := .single hsettle ⟨result, rfl⟩
    have hp₁ := hp.snoc (.count _ (s.counters.afterCreation_detachOnZero result)) trivial
    obtain ⟨hp₂, hidle₂⟩ := dispatchLoop_path (hp₁.inv h) hbase rfl h1
    have hp₃ := hp₁.trans (hp₂.mono fun _ ha => ha.handling trivial)
    exact .grow h (fun _ ha => ha.handling) hp₃ hidle₂ h2

theorem cleanupFinished_handles {databaseId : Nat} {result : Except PostgresDDLClientError Unit}
    (hidle : s.NoIdle)
    (hok : handleDatabaseWorkerMessage env (.cleanupFinished databaseId result) s = .ok t) :
    Handles Q
      (Act.Handling (C := C) (.databaseWorker (.cleanupFinished databaseId result)) base)
      env s t := by
  rw [handleDatabaseWorkerMessage] at hok
  by_cases hr : databaseId ∈ s.inventory.retiring
  · cases result with
    | ok u =>
      simp only [DatabaseInventory.completeCleanup, if_pos hr] at hok
      cases hok
      refine ⟨.single (.clean hr) ⟨_, rfl⟩, hidle, Or.inl ?_⟩
      refine ⟨rfl, rfl, fun _ _ h => h, fun _ h => h, ?_⟩
      show .grew ∈ _ :: s.history ↔ _
      rw [List.mem_cons]
      exact or_iff_right nofun
    | error error =>
      simp only [DatabaseInventory.completeCleanup, if_pos hr] at hok
      cases hok
      exact ⟨.refl s, hidle, Or.inl (.refl s)⟩
  · simp only [DatabaseInventory.completeCleanup, if_neg hr] at hok
    cases hok
    exact ⟨.refl s, hidle, Or.inl (.refl s)⟩

/-! ### Every message -/

/-- **A message is handled by a path of changes that it allows.** -/
theorem processMessage_handles (h : Inv Q s) (hidle : s.NoIdle) (hQ : message.Known Q)
    (hok : processMessage env message s = .ok t) :
    Handles Q (Act.Handling message s.nextGeneration) env s t := by
  cases message with
  | attachOrJoin lease reply messageTime =>
    exact attachOrJoin_handles h trivial hidle hQ (le_refl _) hok
  | releaseLease lease reply =>
    obtain ⟨⟨result, s₁⟩, h1, h2⟩ := bind_ok hok
    cases h2
    have hrel : Handles Q (Act.Handling (.releaseLease lease reply) s.nextGeneration) env s s₁ ∧
        (result = .ok () → s₁.leaseRecords.lookup lease = some .closed) :=
      releaseLease_handles h hidle h1
    have hquiet : s₁.Quiet (.reply lease reply (.releaseResult result) none
        (env.reply reply (.releaseResult result))) := by
      cases result with
      | ok u => exact hrel.2 rfl
      | error error => trivial
    exact hrel.1.note trivial hquiet nofun
  | detach lease generation =>
    cases hok
    exact detach_handles lease generation hidle
  | leaseMaxTimeReached lease generation => exact leaseMaxTimeReached_handles h hidle hok
  | databaseWorker message =>
    cases message with
    | creationFinished databaseId result =>
      exact creationFinished_handles h hidle (le_refl _) hok
    | cleanupFinished databaseId result => exact cleanupFinished_handles hidle hok
  | shutdown =>
    cases hok
    refine ⟨.single .shutdown rfl, hidle, Or.inl ?_⟩
    exact ⟨rfl, rfl, fun _ _ h => h, fun _ h => h, Iff.rfl⟩

/-! ### Initialisation -/

/-- The changes of `try_init`. -/
def tryInitActs : Act → Prop
  | .reserve | .settle _ => True
  | _ => False

/-- The new engine with its initial slots reserved. -/
def initialBatch (config : WorkerEngineConfig) : WorkerEngine C :=
  { WorkerEngine.new config with
    inventory := { DatabaseInventory.default with
      creating := (CreateDatabases.mk 1 config.initialSlots).ids
      nextDatabaseId := config.initialSlots } }

/-- `try_init` is the loop of the reports, if there are slots and identifiers for them. -/
theorem tryInit_new (config : WorkerEngineConfig)
    (reports : List (Nat × Except PostgresDDLClientError ReadString)) :
    (WorkerEngine.new config : WorkerEngine C).tryInit reports =
      if config.initialSlots = 0 then .ok (.ok (), .new config)
      else if config.initialSlots ≤ u64Max then do
        let (firstError, s) ← reports.foldlM (reportInitial ⟨1, config.initialSlots⟩)
          (none, initialBatch config)
        match firstError with
        | none => return (.ok (), s)
        | some error => return (.error error, s)
      else .error .databaseIdentityExhausted := by
  have hr : (WorkerEngine.new config : WorkerEngine C).inventory.reserveCreations
      (WorkerEngine.new config : WorkerEngine C).config.initialSlots =
        DatabaseInventory.default.reserveCreations config.initialSlots := rfl
  rw [tryInit, hr]
  by_cases hz : config.initialSlots = 0
  · rw [if_pos hz, hz, DatabaseInventory.reserveCreations_zero]
  · rw [if_neg hz, DatabaseInventory.reserveCreations_eq _ hz]
    simp only [DatabaseInventory.default, Nat.zero_add, Finset.empty_union]
    by_cases hmax : config.initialSlots ≤ u64Max
    · rw [if_pos hmax, if_pos hmax]
      rfl
    · rw [if_neg hmax, if_neg hmax]

theorem tryInit_cases {config : WorkerEngineConfig}
    {reports : List (Nat × Except PostgresDDLClientError ReadString)}
    {result : Except PostgresDDLClientError Unit}
    (hok : (WorkerEngine.new config).tryInit reports = .ok (result, t)) :
    t = .new config ∨ (config.initialSlots ≠ 0 ∧ config.initialSlots ≤ u64Max ∧ ∃ firstError,
      reports.foldlM (reportInitial ⟨1, config.initialSlots⟩) (none, initialBatch config) =
        .ok (firstError, t)) := by
  rw [tryInit_new] at hok
  by_cases hz : config.initialSlots = 0
  · rw [if_pos hz] at hok
    cases hok
    exact Or.inl rfl
  · rw [if_neg hz] at hok
    by_cases hmax : config.initialSlots ≤ u64Max
    · rw [if_pos hmax] at hok
      obtain ⟨⟨firstError, s₁⟩, h1, h2⟩ := bind_ok hok
      refine Or.inr ⟨hz, hmax, firstError, ?_⟩
      cases firstError <;> cases h2 <;> exact h1
    · rw [if_neg hmax] at hok
      cases hok

theorem reportInitial_path {request : CreateDatabases}
    {report : Nat × Except PostgresDDLClientError ReadString}
    {acc acc' : Option PostgresDDLClientError × WorkerEngine C}
    (hok : reportInitial request acc report = .ok acc') :
    Path Q tryInitActs acc.2 acc'.2 ∧ acc'.2.waiters = acc.2.waiters := by
  obtain ⟨databaseId, _, h2⟩ := bind_ok hok
  by_cases hc : databaseId ∈ acc.2.inventory.creating
  · have hp : Path Q tryInitActs acc.2 (acc.2.settledWith databaseId report.2) :=
      .single (.settle report.2 hc) trivial
    rw [completeCreation_eq report.2 acc.2.inventory hc] at h2
    cases hres : report.2 with
    | ok name =>
      rw [hres] at h2 hp
      cases h2
      exact ⟨hp, rfl⟩
    | error error =>
      rw [hres] at h2 hp
      cases h2
      exact ⟨hp, rfl⟩
  · simp only [DatabaseInventory.completeCreation, if_neg hc] at h2
    cases h2

/-- `try_init` is a path from the new engine, and nobody waits after it. -/
theorem tryInit_path {config : WorkerEngineConfig}
    {reports : List (Nat × Except PostgresDDLClientError ReadString)}
    {result : Except PostgresDDLClientError Unit}
    (hok : (WorkerEngine.new config).tryInit reports = .ok (result, t)) :
    Path Q tryInitActs (WorkerEngine.new config) t ∧ t.waiters = [] := by
  rcases tryInit_cases hok with rfl | ⟨hz, hmax, firstError, h1⟩
  · exact ⟨.refl _, rfl⟩
  · have hres := @Move.reserve C Q (WorkerEngine.new config) ⟨1, config.initialSlots⟩ [] rfl hz
      ((Nat.zero_add config.initialSlots).le.trans hmax) (Or.inl rfl)
    have hbatch : Move Q (WorkerEngine.new config) .reserve (initialBatch config) := by
      simpa [initialBatch, WorkerEngine.new, DatabaseInventory.default] using hres
    exact foldlM_ok (I := fun acc => Path Q tryInitActs (WorkerEngine.new config) acc.2 ∧
        acc.2.waiters = []) (fun acc report acc' _ hI hs => by
          obtain ⟨hp, hw⟩ := reportInitial_path (Q := Q) hs
          exact ⟨hI.1.trans hp, hw.trans hI.2⟩)
      ⟨.single hbatch (show tryInitActs .reserve from trivial), rfl⟩ h1

end WorkerEngine

end PgTest.Engine
