import PgTest.Engine.Ledger

/-!
# The queue and the lease records

The waiting leases are kept twice, in order in `waiters` and with their requests
in `groupWaiters`.  `Queue` says the two agree, that every waiting lease is open
and has no database, and that every lease with a database is open.
-/

namespace PgTest.Engine

open PgTest.Lib

variable {C : Type} {Q : LeaseId → C → Prop}

namespace WorkerEngine

/-- **The queue is sound.** -/
structure Queue (Q : LeaseId → C → Prop) (s : WorkerEngine C) : Prop where
  nodup : s.waiters.Nodup
  keys : ∀ lease, lease ∈ s.waiters ↔ lease ∈ s.groupWaiters
  nonempty : ∀ lease replies, s.groupWaiters.lookup lease = some replies → replies ≠ []
  known : ∀ lease replies, s.groupWaiters.lookup lease = some replies →
    ∀ request ∈ replies, Q lease request.1
  waiting_open : ∀ lease, lease ∈ s.groupWaiters → s.leaseRecords.lookup lease = some .opened
  waiting_free : ∀ lease, lease ∈ s.groupWaiters → lease ∉ s.leases
  leased_open : ∀ lease, lease ∈ s.leases → s.leaseRecords.lookup lease = some .opened

theorem Queue.new (config : WorkerEngineConfig) :
    Queue Q (WorkerEngine.new config : WorkerEngine C) where
  nodup := List.nodup_nil
  keys := fun lease => iff_of_false List.not_mem_nil Finmap.notMem_empty
  nonempty := fun lease replies h => by
    rw [show (WorkerEngine.new config : WorkerEngine C).groupWaiters = ∅ from rfl,
      Finmap.lookup_empty] at h
    cases h
  known := fun lease replies h => by
    rw [show (WorkerEngine.new config : WorkerEngine C).groupWaiters = ∅ from rfl,
      Finmap.lookup_empty] at h
    cases h
  waiting_open := fun lease h => absurd h Finmap.notMem_empty
  waiting_free := fun lease h => absurd h Finmap.notMem_empty
  leased_open := fun lease h => absurd h Finmap.notMem_empty

/-- The queue is sound as long as waiters, records and the leases with a database
stay, or some of the last go. -/
theorem Queue.congr {s s' : WorkerEngine C} (h : Queue Q s) (hw : s'.waiters = s.waiters)
    (hg : s'.groupWaiters = s.groupWaiters) (hr : s'.leaseRecords = s.leaseRecords)
    (hl : ∀ lease, lease ∈ s'.leases → lease ∈ s.leases) : Queue Q s' where
  nodup := hw ▸ h.nodup
  keys := fun lease => by rw [hw, hg]; exact h.keys lease
  nonempty := fun lease replies h1 => h.nonempty lease replies (hg ▸ h1)
  known := fun lease replies h1 => h.known lease replies (hg ▸ h1)
  waiting_open := fun lease h1 => by rw [hr]; exact h.waiting_open lease (hg ▸ h1)
  waiting_free := fun lease h1 h2 => h.waiting_free lease (hg ▸ h1) (hl lease h2)
  leased_open := fun lease h1 => by rw [hr]; exact h.leased_open lease (hl lease h1)

theorem mem_leases_insert {s : WorkerEngine C} {lease : LeaseId} {entry entry' : LeaseEntry}
    (hl : s.leases.lookup lease = some entry) (other : LeaseId)
    (h : other ∈ s.leases.insert lease entry') : other ∈ s.leases := by
  rcases Finmap.mem_insert.mp h with rfl | h
  · exact mem_of_lookup hl
  · exact h

/-- A lease leaves the queue, closed or to be served. -/
theorem Queue.leave {s s' : WorkerEngine C} (h : Queue Q s) {lease : LeaseId}
    (hnd : s'.waiters.Nodup)
    (hw : ∀ other, other ∈ s'.waiters ↔ other ≠ lease ∧ other ∈ s.waiters)
    (hg : s'.groupWaiters = s.groupWaiters.erase lease) (hl : s'.leases = s.leases)
    (hr : ∀ other, other ≠ lease ∨ other ∈ s.leases →
      s'.leaseRecords.lookup other = s.leaseRecords.lookup other) : Queue Q s' where
  nodup := hnd
  keys := fun other => by rw [hw, hg, Finmap.mem_erase, h.keys]
  nonempty := fun other replies h1 => by
    rw [hg] at h1
    exact h.nonempty other replies (lookup_erase_eq_some.mp h1).2
  known := fun other replies h1 => by
    rw [hg] at h1
    exact h.known other replies (lookup_erase_eq_some.mp h1).2
  waiting_open := fun other h1 => by
    rw [hg, Finmap.mem_erase] at h1
    rw [hr other (Or.inl h1.1)]
    exact h.waiting_open other h1.2
  waiting_free := fun other h1 => by
    rw [hg, Finmap.mem_erase] at h1
    rw [hl]
    exact h.waiting_free other h1.2
  leased_open := fun other h1 => by
    rw [hl] at h1
    rw [hr other (Or.inr h1)]
    exact h.leased_open other h1

theorem Queue.enqueue {s : WorkerEngine C} (h : Queue Q s) {lease : LeaseId} {consumer : C}
    (messageTime : Nat) (hopen : s.leaseRecords.lookup lease = some .opened)
    (hl : lease ∉ s.leases) (hQ : Q lease consumer) :
    Queue Q (s.enqueue lease consumer messageTime) where
  nodup := by
    show (if lease ∈ s.groupWaiters then s.waiters else s.waiters ++ [lease]).Nodup
    by_cases hg : lease ∈ s.groupWaiters
    · rw [if_pos hg]
      exact h.nodup
    · rw [if_neg hg]
      have hw : lease ∉ s.waiters := fun hm => hg ((h.keys lease).mp hm)
      exact List.nodup_append.mpr ⟨h.nodup, List.nodup_singleton lease, fun a ha b hb => by
        rw [List.mem_singleton] at hb
        rintro rfl
        exact hw (hb ▸ ha)⟩
  keys := fun other => by
    show other ∈ (if lease ∈ s.groupWaiters then s.waiters else s.waiters ++ [lease]) ↔
      other ∈ s.groupWaiters.insert lease _
    rw [Finmap.mem_insert, ← h.keys other]
    by_cases hg : lease ∈ s.groupWaiters
    · rw [if_pos hg]
      have hw := (h.keys lease).mpr hg
      exact ⟨Or.inr, fun ho => ho.elim (fun he => he ▸ hw) id⟩
    · rw [if_neg hg, List.mem_append, List.mem_singleton, or_comm]
  nonempty := fun other replies h1 => by
    rcases lookup_insert_eq_some.mp h1 with ⟨_, rfl⟩ | ⟨_, h1⟩
    · exact List.append_ne_nil_of_right_ne_nil _ (List.cons_ne_nil _ _)
    · exact h.nonempty other replies h1
  known := fun other replies h1 request hr => by
    rcases lookup_insert_eq_some.mp h1 with ⟨rfl, rfl⟩ | ⟨_, h1⟩
    · rcases List.mem_append.mp hr with hr | hr
      · cases hg : s.groupWaiters.lookup other with
        | none => rw [hg] at hr; exact absurd hr List.not_mem_nil
        | some old => rw [hg] at hr; exact h.known other old hg request hr
      · rw [List.mem_singleton.mp hr]
        exact hQ
    · exact h.known other replies h1 request hr
  waiting_open := fun other h1 => by
    rcases Finmap.mem_insert.mp h1 with rfl | h1
    · exact hopen
    · exact h.waiting_open other h1
  waiting_free := fun other h1 => by
    rcases Finmap.mem_insert.mp h1 with rfl | h1
    · exact hl
    · exact h.waiting_free other h1
  leased_open := fun other h1 => h.leased_open other h1

/-- **Every change keeps the queue sound.** -/
theorem Queue.move {s s' : WorkerEngine C} {a : Act} (h : Queue Q s) (hm : Move Q s a s') :
    Queue Q s' := by
  cases hm with
  | count _ _ | note _ | detachIdle _ _ | reserve _ _ _ _ | burn _ _ _ _ _ | settle _ _ | clean _
  | shutdown =>
    exact h.congr rfl rfl rfl fun _ hl => hl
  | attach hl _ _ => exact h.congr rfl rfl rfl (mem_leases_insert hl)
  | detach hl _ => exact h.congr rfl rfl rfl (mem_leases_insert hl)
  | restore _ _ _ => exact h.congr rfl rfl rfl fun _ hl => (Finmap.mem_erase.mp hl).2
  | retire _ _ => exact h.congr rfl rfl rfl fun _ hl => (Finmap.mem_erase.mp hl).2
  | @enroll lease hnew _ =>
    have old : ∀ other, s.leaseRecords.lookup other = some .opened →
        (s.leaseRecords.insert lease .opened).lookup other = some .opened := by
      intro other ho
      exact lookup_insert_eq_some.mpr
        (Or.inr ⟨fun he => hnew (he ▸ mem_of_lookup ho), ho⟩)
    exact { h with
      waiting_open := fun other h1 => old other (h.waiting_open other h1)
      leased_open := fun other h1 => old other (h.leased_open other h1) }
  | @close lease _ _ hl _ =>
    refine h.leave (h.nodup.filter _) ?_ rfl rfl ?_
    · intro other
      rw [List.mem_filter, and_comm, decide_eq_true_eq]
    · intro other ho
      have hne : other ≠ lease := by
        rcases ho with ho | ho
        · exact ho
        · exact fun he => hl (he ▸ ho)
      exact Finmap.lookup_insert_of_ne _ hne
  | enqueue messageTime hopen hl _ hQ => exact h.enqueue messageTime hopen hl hQ
  | @dequeue lease rest hw =>
    have hnd := h.nodup
    rw [hw, List.nodup_cons] at hnd
    refine h.leave hnd.2 ?_ rfl rfl fun _ _ => rfl
    intro other
    rw [hw, List.mem_cons]
    constructor
    · intro ho
      exact ⟨fun he => hnd.1 (he ▸ ho), Or.inr ho⟩
    · rintro ⟨hne, ho | ho⟩
      · exact absurd ho hne
      · exact ho
  | @assign lease database rest scheduling hopen hl hw _ _ _ =>
    exact { h with
      waiting_free := fun other h1 h2 => by
        rcases Finmap.mem_insert.mp h2 with rfl | h2
        · exact hw h1
        · exact h.waiting_free other h1 h2
      leased_open := fun other h1 => by
        rcases Finmap.mem_insert.mp h1 with rfl | h1
        · exact hopen
        · exact h.leased_open other h1 }

/-- What `queue` and `map` say of one lease. -/
theorem Queue.head_free {s : WorkerEngine C} (h : Queue Q s) {lease : LeaseId}
    {rest : List LeaseId} (hw : s.waiters = lease :: rest) :
    lease ∈ s.groupWaiters ∧ lease ∉ s.leases ∧
      s.leaseRecords.lookup lease = some .opened := by
  have hg := (h.keys lease).mp (hw ▸ List.mem_cons_self)
  exact ⟨hg, h.waiting_free lease hg, h.waiting_open lease hg⟩

end WorkerEngine

end PgTest.Engine
