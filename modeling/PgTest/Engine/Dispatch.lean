import PgTest.Engine.Serve

/-!
# Dispatch

The loops of `dispatch_waiters` as paths of the ledger.  The inner loop serves
the requests of one lease with `Fresh` as its invariant.  The outer loop stops
with nothing ready or nobody waiting (`NoIdle`).
-/

namespace PgTest.Engine

open PgTest.Lib

variable {C : Type} {Q : LeaseId → C → Prop}

/-- The changes of `dispatch_waiters`. -/
def Act.Dispatching (base : Nat) : Act → Prop
  | .dequeue _ => True
  | a => ∃ lease, a.Serving lease base

theorem Act.Serving.dispatching {lease : LeaseId} {base : Nat} {a : Act}
    (h : a.Serving lease base) : a.Dispatching base := by
  cases a with
  | dequeue other => exact trivial
  | note | enroll _ | close _ | enqueue _ | assign _ _ | attach _ _ | restore _ _ | detach _ _
  | retire _ _ | reserve | settle _ | clean _ | shutdown => exact ⟨lease, h⟩

namespace WorkerEngine

/-- **No idle supply**: nothing is ready, or nobody waits. -/
def NoIdle (s : WorkerEngine C) : Prop := s.inventory.ready = [] ∨ s.waiters = []

theorem NoIdle.congr {s t : WorkerEngine C} (h : s.NoIdle)
    (hr : t.inventory.ready = s.inventory.ready) (hw : t.waiters = s.waiters) : t.NoIdle := by
  rw [NoIdle, hr, hw]
  exact h

theorem grow_keeps {env : Env C} {s t : WorkerEngine C} (hok : grow env s = .ok t) :
    t.leases = s.leases ∧ t.waiters = s.waiters ∧ t.groupWaiters = s.groupWaiters ∧
      t.leaseRecords = s.leaseRecords ∧ t.inventory.ready = s.inventory.ready := by
  rcases grow_cases hok with ⟨rfl, _⟩ | ⟨_, _, _, ⟨_, rfl⟩ | ⟨_, rfl⟩⟩
  · exact ⟨rfl, rfl, rfl, rfl, rfl⟩
  · exact ⟨rfl, rfl, rfl, rfl, rfl⟩
  · exact ⟨rfl, rfl, rfl, rfl, rfl⟩

/-- The queue and the records are not touched. -/
structure SameQueue (s t : WorkerEngine C) : Prop where
  waiters : t.waiters = s.waiters
  groupWaiters : t.groupWaiters = s.groupWaiters
  leaseRecords : t.leaseRecords = s.leaseRecords

theorem sameQueue_of_serving {s t : WorkerEngine C} {lease : LeaseId} {base : Nat} {a : Act}
    (hm : Move Q s a t) (ha : a.Serving lease base) : SameQueue s t := by
  cases hm with
  | count _ _ | note _ | assign _ _ _ _ _ _ | attach _ _ _ | restore _ _ _ => exact ⟨rfl, rfl, rfl⟩
  | enroll _ _ | close _ _ _ | enqueue _ _ _ _ _ | dequeue _ | detach _ _ | detachIdle _ _
  | retire _ _ | reserve _ _ _ _ | burn _ _ _ _ _ | settle _ _ | clean _ | shutdown =>
    exact ha.elim

theorem path_sameQueue {s t : WorkerEngine C} {lease : LeaseId} {base : Nat}
    (h : Path Q (Act.Serving lease base) s t) (hs : Inv Q s) : SameQueue s t := by
  refine h.invariant (I := fun t => SameQueue s t) (fun s₁ a t₁ ha _ hI hm => ?_) hs
    ⟨rfl, rfl, rfl⟩
  obtain ⟨h1, h2, h3⟩ := sameQueue_of_serving hm ha
  exact ⟨h1.trans hI.waiters, h2.trans hI.groupWaiters, h3.trans hI.leaseRecords⟩

/-! ### One request -/

theorem claimDatabase_path {env : Env C} {lease : LeaseId} {base : Nat} {name : ReadString}
    {s t : WorkerEngine C} (h : Inv Q s)
    (hopen : s.leaseRecords.lookup lease = some .opened) (hw : lease ∉ s.groupWaiters)
    (hbase : base ≤ s.nextGeneration) (hf : s.Fresh lease base)
    (hok : claimDatabase env lease s = .ok (name, t)) :
    Path Q (Act.Serving lease base) s t ∧ t.Fresh lease base ∧
      ∃ entry, t.leases.lookup lease = some entry ∧ name = entry.database.databaseName := by
  rw [claimDatabase] at hok
  cases hl : s.leases.lookup lease with
  | some entry =>
    rw [hl] at hok
    cases hok
    exact ⟨.refl _, hf, entry, hl, rfl⟩
  | none =>
    rw [hl, DatabaseInventory.takeReady] at hok
    cases hready : s.inventory.ready with
    | nil =>
      rw [hready] at hok
      cases hok
    | cons database rest =>
      rw [hready] at hok
      obtain ⟨hnot, hmax, rfl, scheduling, hsched, rfl⟩ := assignDatabase_cases hok
      obtain ⟨h1, h2⟩ := assign_path h hopen hw hbase hnot hready hmax hsched
      exact ⟨h1, h2, _, Finmap.lookup_insert _, rfl⟩

theorem serveRequest_path {env : Env C} {lease : LeaseId} {base : Nat} {request : C × Nat}
    {s t : WorkerEngine C} (h : Inv Q s)
    (hopen : s.leaseRecords.lookup lease = some .opened) (hw : lease ∉ s.groupWaiters)
    (hbase : base ≤ s.nextGeneration) (hf : s.Fresh lease base) (hQ : Q lease request.1)
    (hok : serveRequest env lease s request = .ok t) :
    Path Q (Act.Serving lease base) s t ∧ t.Fresh lease base := by
  rw [serveRequest] at hok
  split at hok
  · cases hok
    -- an expired request is counted and dropped
    have hcount : Path Q (Act.Serving lease base) s { s with
        counters := { s.counters with waiterTimeouts := s.counters.waiterTimeouts + 1 } } :=
      .single (.count _ rfl) trivial
    have hnote : Quiet { s with
        counters := { s.counters with waiterTimeouts := s.counters.waiterTimeouts + 1 } }
        (.expired lease request.1) := trivial
    exact ⟨hcount.snoc (.note hnote) trivial, Fresh.log (s := { s with
      counters := { s.counters with waiterTimeouts := s.counters.waiterTimeouts + 1 } }) hf rfl⟩
  · obtain ⟨⟨name, s₁⟩, h1, h2⟩ := bind_ok hok
    obtain ⟨hp, hf₁, entry, hl, rfl⟩ := claimDatabase_path h hopen hw hbase hf h1
    have hreply : Path Q (Act.Serving lease base) s₁ t ∧ _ := replyAttached_path hl hQ h2
    exact ⟨hp.trans hreply.1, hreply.2 hf₁⟩

/-! ### One group -/

/-- The inner loop, over some of the requests of the group. -/
theorem serveRequests_path {env : Env C} {lease : LeaseId} {base : Nat} {replies : List (C × Nat)}
    {s t : WorkerEngine C} (h : Inv Q s)
    (hopen : s.leaseRecords.lookup lease = some .opened) (hw : lease ∉ s.groupWaiters)
    (hl : lease ∉ s.leases) (hbase : base ≤ s.nextGeneration)
    (hQ : ∀ request ∈ replies, Q lease request.1)
    (hok : replies.foldlM (serveRequest env lease) s = .ok t) :
    Path Q (Act.Serving lease base) s t ∧ t.Fresh lease base := by
  refine foldlM_ok (I := fun t => Path Q (Act.Serving lease base) s t ∧ t.Fresh lease base)
    (fun s₁ request s₂ hr hI hs => ?_) ⟨.refl s, .of_not_mem hl base⟩ hok
  obtain ⟨hp, hf⟩ := hI
  have hq := path_sameQueue hp h
  have hopen₁ : s₁.leaseRecords.lookup lease = some .opened := by rw [hq.leaseRecords, hopen]
  have hw₁ : lease ∉ s₁.groupWaiters := by rw [hq.groupWaiters]; exact hw
  have hbase₁ := le_trans hbase (hp.nextGeneration h)
  obtain ⟨hp₁, hf₁⟩ := serveRequest_path (hp.inv h) hopen₁ hw₁ hbase₁ hf (hQ request hr) hs
  exact ⟨hp.trans hp₁, hf₁⟩

/-- **A group that was taken out of the queue is served.** -/
theorem serveGroup_path {env : Env C} {lease : LeaseId} {base : Nat} {replies : List (C × Nat)}
    {s t : WorkerEngine C} (h : Inv Q s)
    (hopen : s.leaseRecords.lookup lease = some .opened) (hw : lease ∉ s.groupWaiters)
    (hl : lease ∉ s.leases) (hbase : base ≤ s.nextGeneration)
    (hQ : ∀ request ∈ replies, Q lease request.1)
    (hok : serveGroup env lease replies s = .ok t) :
    Path Q (Act.Serving lease base) s t := by
  rw [serveGroup, if_neg (by rw [hopen]; exact nofun)] at hok
  obtain ⟨served, h1, h2⟩ := bind_ok hok
  obtain ⟨hp, hf⟩ := serveRequests_path h hopen hw hl hbase hQ h1
  rw [if_neg hl] at h2
  obtain ⟨⟨restored, s₂⟩, h3, h4⟩ := bind_ok h2
  cases h4
  exact hp.trans (restore_path hf h3).1

/-! ### The queue -/

/-- **Dispatch** drains the queue or the supply. -/
theorem dispatchLoop_path {env : Env C} {base : Nat} : ∀ {queue : List LeaseId}
    {s t : WorkerEngine C}, Inv Q s → base ≤ s.nextGeneration → s.waiters = queue →
    dispatchLoop env queue s = .ok t → Path Q (Act.Dispatching base) s t ∧ t.NoIdle := by
  intro queue
  induction queue with
  | nil =>
    intro s t h hbase hq hok
    rw [dispatchLoop] at hok
    cases hok
    exact ⟨.refl s, Or.inr hq⟩
  | cons lease rest ih =>
    intro s t h hbase hq hok
    rw [dispatchLoop] at hok
    by_cases hready : s.inventory.ready.isEmpty = true
    · rw [if_pos hready] at hok
      cases hok
      exact ⟨.refl s, Or.inl (List.isEmpty_iff.mp hready)⟩
    rw [if_neg hready] at hok
    obtain ⟨hg, hl, hopen⟩ := h.queue.head_free hq
    obtain ⟨replies, hg⟩ := Finmap.mem_iff.mp hg
    simp only [hg] at hok
    obtain ⟨s₁, h1, h2⟩ := bind_ok hok
    have hm : Move Q s (.dequeue lease) { s with
        waiters := rest, groupWaiters := s.groupWaiters.erase lease } := .dequeue hq
    have hinv := h.move hm
    have hp := serveGroup_path hinv hopen Finmap.notMem_erase_self hl hbase
      (fun request hr => h.queue.known lease replies hg request hr) h1
    have hkeep := path_sameQueue hp hinv
    have hbase₁ := le_trans hbase (hp.nextGeneration hinv)
    obtain ⟨hp₁, hidle⟩ := ih (hp.inv hinv) hbase₁ hkeep.waiters h2
    have hhead : Path Q (Act.Dispatching base) s _ := .single hm trivial
    exact ⟨(hhead.trans (hp.mono fun _ ha => ha.dispatching)).trans hp₁, hidle⟩

end WorkerEngine

end PgTest.Engine
