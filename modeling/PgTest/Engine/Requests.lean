import Mathlib.Data.Multiset.Bind
import Mathlib.Tactic.Abel
import PgTest.Engine.Refinement

/-!
# Where an attach request is

A request that was processed is queued under its lease, was answered, or was
discarded because it was too old.  `Accounts` is the conservation law behind this:
what is queued before, with the requests at hand, is what is queued after, with
what was answered and what was discarded on the way.  It is composed along the
code, function by function; the requests at hand are those of the message, or those
that dispatch took out of the queue.
-/

namespace PgTest.Engine

open PgTest.Lib

variable {C : Type}

/-- An `AttachOrJoin` that was processed. -/
structure Request (C : Type) where
  lease : LeaseId
  consumer : C
  messageTime : Nat
  deriving DecidableEq

namespace Request

def key (request : Request C) : LeaseId × C := (request.lease, request.consumer)

/-- A member of the group of `lease`. -/
def ofGroup (lease : LeaseId) (request : C × Nat) : Request C := ⟨lease, request.1, request.2⟩

end Request

/-- The requests that a message brings. -/
def EngineMessage.requests : EngineMessage C → List (Request C)
  | .attachOrJoin lease reply messageTime => [⟨lease, reply, messageTime⟩]
  | _ => []

/-- The request that a reply answers: `Attached`, `FailedToAttach` or `AttachRejected`,
delivered or not. -/
def Event.answers : Event C → Option (LeaseId × C)
  | .reply _ _ (.releaseResult _) _ _ => none
  | .reply lease consumer _ _ _ => some (lease, consumer)
  | _ => none

def Event.discards : Event C → Option (LeaseId × C)
  | .expired lease consumer => some (lease, consumer)
  | _ => none

namespace WorkerEngine

/-- The requests in `group_waiters`, each under its own lease. -/
def queued (s : WorkerEngine C) : Multiset (Request C) :=
  (image (fun lease replies => (replies.map (Request.ofGroup lease) : Multiset (Request C)))
    s.groupWaiters).join

/-- The requests that got a reply, as often as they got one. -/
def answered (s : WorkerEngine C) : Multiset (LeaseId × C) := s.history.filterMap Event.answers

/-- The requests that were dropped without a reply. -/
def discarded (s : WorkerEngine C) : Multiset (LeaseId × C) := s.history.filterMap Event.discards

/-- From `s` to `t` the requests at hand, and some of the queue, were `answered` and
`discarded`; those that were discarded satisfy `P`. -/
structure Settles (P : Request C → Prop) (s t : WorkerEngine C)
    (hand answered discarded : Multiset (Request C)) : Prop where
  balance : s.queued + hand = t.queued + answered + discarded
  answers : t.answered = answered.map Request.key + s.answered
  discards : t.discarded = discarded.map Request.key + s.discarded
  timeouts : t.counters.waiterTimeouts = discarded.card + s.counters.waiterTimeouts
  late : ∀ request ∈ discarded, P request
  config : t.config = s.config

/-- **The requests at hand are accounted for.** -/
def Accounts (P : Request C → Prop) (hand : Multiset (Request C)) (s t : WorkerEngine C) : Prop :=
  ∃ answered discarded, Settles P s t hand answered discarded

namespace Accounts

variable {P P' : Request C → Prop} {hand hand' : Multiset (Request C)} {s t u : WorkerEngine C}

/-- No request comes or goes. -/
theorem same (hq : t.groupWaiters = s.groupWaiters)
    (hh : ∃ new, t.history = new ++ s.history ∧
      ∀ event ∈ new, event.answers = none ∧ event.discards = none)
    (hc : t.counters.waiterTimeouts = s.counters.waiterTimeouts) (hf : t.config = s.config) :
    Accounts P 0 s t := by
  obtain ⟨new, hh, hnew⟩ := hh
  refine ⟨0, 0, ?_, ?_, ?_, by simpa using hc, by simp, hf⟩
  · rw [queued, queued, hq]
    simp
  · rw [answered, answered, hh, filterMap_minor fun event he => (hnew event he).1]
    simp
  · rw [discarded, discarded, hh, filterMap_minor fun event he => (hnew event he).2]
    simp

theorem refl (s : WorkerEngine C) : Accounts P 0 s s :=
  same rfl ⟨[], rfl, by simp⟩ rfl rfl

/-- **Accounts are kept one after the other.** -/
theorem trans (h : Accounts P hand s t) (g : Accounts P hand' t u) :
    Accounts P (hand + hand') s u := by
  obtain ⟨a, d, h⟩ := h
  obtain ⟨a', d', g⟩ := g
  refine ⟨a + a', d + d', ?_, ?_, ?_, ?_, ?_, g.config.trans h.config⟩
  · calc s.queued + (hand + hand') = s.queued + hand + hand' := by abel
      _ = t.queued + hand' + a + d := by rw [h.balance]; abel
      _ = u.queued + (a + a') + (d + d') := by rw [g.balance]; abel
  · rw [g.answers, h.answers, Multiset.map_add]
    abel
  · rw [g.discards, h.discards, Multiset.map_add]
    abel
  · rw [g.timeouts, h.timeouts, Multiset.card_add]
    omega
  · intro request hm
    exact (Multiset.mem_add.mp hm).elim (h.late request) (g.late request)

theorem after (h : Accounts P 0 s t) (g : Accounts P hand t u) : Accounts P hand s u := by
  simpa using h.trans g

theorem before (h : Accounts P hand s t) (g : Accounts P 0 t u) : Accounts P hand s u := by
  simpa using h.trans g

theorem mono (h : Accounts P hand s t) (hP : ∀ request, P request → P' request) :
    Accounts P' hand s t := by
  obtain ⟨a, d, h⟩ := h
  exact ⟨a, d, h.balance, h.answers, h.discards, h.timeouts,
    fun request hm => hP request (h.late request hm), h.config⟩

/-- One event, and changes that touch no request. -/
theorem event (event : Event C) (he : event.answers = none ∧ event.discards = none)
    (hq : t.groupWaiters = s.groupWaiters) (hh : t.history = event :: s.history)
    (hc : t.counters.waiterTimeouts = s.counters.waiterTimeouts) (hf : t.config = s.config) :
    Accounts P 0 s t := same hq ⟨[event], hh, by simpa using he⟩ hc hf

/-- One reply answers one request. -/
theorem reply {lease : LeaseId} {consumer : C} {message : ConsumerReply} {behind : Option Nat}
    {delivered : Bool} (messageTime : Nat) (hq : t.groupWaiters = s.groupWaiters)
    (hh : t.history = .reply lease consumer message behind delivered :: s.history)
    (hc : t.counters.waiterTimeouts = s.counters.waiterTimeouts) (hf : t.config = s.config)
    (hm : ∀ result, message ≠ .releaseResult result) :
    Accounts P {⟨lease, consumer, messageTime⟩} s t := by
  refine ⟨{⟨lease, consumer, messageTime⟩}, 0, ?_, ?_, ?_, by simpa using hc, by simp, hf⟩
  · rw [queued, queued, hq]
    simp
  · rw [answered, answered, hh]
    cases message <;> simp_all [Event.answers, Request.key]
  · rw [discarded, discarded, hh, List.filterMap_cons_none rfl]
    simp

end Accounts

/-! ### The queue -/

theorem queued_erase {s : WorkerEngine C} {lease : LeaseId} {replies : List (C × Nat)}
    (h : s.groupWaiters.lookup lease = some replies) :
    s.queued = (replies.map (Request.ofGroup lease) : Multiset (Request C)) +
      { s with groupWaiters := s.groupWaiters.erase lease }.queued := by
  rw [queued, image_erase _ h, Multiset.join_cons]
  rfl

theorem queued_insert (s : WorkerEngine C) (lease : LeaseId) (replies : List (C × Nat)) :
    { s with groupWaiters := s.groupWaiters.insert lease replies }.queued =
      (replies.map (Request.ofGroup lease) : Multiset (Request C)) +
        { s with groupWaiters := s.groupWaiters.erase lease }.queued := by
  rw [queued, ← insert_erase, image_insert _ _ Finmap.notMem_erase_self, Multiset.join_cons]
  rfl

/-- The queue is the group of one lease and the rest. -/
theorem queued_split (s : WorkerEngine C) (lease : LeaseId) :
    s.queued = (((s.groupWaiters.lookup lease).getD []).map (Request.ofGroup lease) :
        Multiset (Request C)) +
      { s with groupWaiters := s.groupWaiters.erase lease }.queued := by
  cases hg : s.groupWaiters.lookup lease with
  | some replies => exact queued_erase hg
  | none => simp [queued, erase_of_notMem (Finmap.lookup_eq_none.mp hg)]

/-- What is taken out of the queue is at hand. -/
theorem Accounts.dequeue {P : Request C → Prop} {s s' t : WorkerEngine C} (lease : LeaseId)
    (h : Accounts P (((s.groupWaiters.lookup lease).getD []).map (Request.ofGroup lease) :
      Multiset (Request C)) s' t)
    (hg : s'.groupWaiters = s.groupWaiters.erase lease) (hh : s'.history = s.history)
    (hc : s'.counters = s.counters) (hf : s'.config = s.config) : Accounts P 0 s t := by
  obtain ⟨a, d, h⟩ := h
  refine ⟨a, d, ?_, ?_, ?_, ?_, h.late, h.config.trans hf⟩
  · rw [← h.balance, queued_split s lease, add_zero, add_comm, queued, queued, hg]
  · rw [h.answers, answered, answered, hh]
  · rw [h.discards, discarded, discarded, hh]
  · rw [h.timeouts, hc]

/-- A request that waits is accounted for by the queue. -/
theorem Accounts.enqueue {P : Request C → Prop} {s : WorkerEngine C} (lease : LeaseId)
    (consumer : C) (messageTime : Nat) :
    Accounts P {⟨lease, consumer, messageTime⟩} s (s.enqueue lease consumer messageTime) := by
  have hq : (s.enqueue lease consumer messageTime).queued = _ := queued_insert s lease _
  refine ⟨0, 0, ?_, ?_, ?_, ?_, by simp, rfl⟩
  · rw [hq, queued_split s lease, List.map_append, ← Multiset.coe_add]
    simp only [List.map_cons, List.map_nil, Multiset.coe_singleton, add_zero]
    rw [add_right_comm]
    rfl
  · simp [WorkerEngine.enqueue, answered]
  · simp [WorkerEngine.enqueue, discarded]
  · simp [WorkerEngine.enqueue]

/-! ### Function by function -/

section Functions

variable {env : Env C} {s t : WorkerEngine C} {P : Request C → Prop}

theorem grow_accounts (hok : grow env s = .ok t) : Accounts P 0 s t := by
  rcases grow_cases hok with ⟨rfl, _⟩ | ⟨_, _, _, ⟨_, rfl⟩ | ⟨_, rfl⟩⟩
  · exact .event _ ⟨rfl, rfl⟩ rfl rfl rfl rfl
  · exact .same rfl ⟨[_, _], rfl, by simp [Event.answers, Event.discards]⟩ rfl rfl
  · exact .same rfl ⟨[_, _], rfl, by simp [Event.answers, Event.discards]⟩ rfl rfl

theorem reject_accounts (lease : LeaseId) (error : AttachError) (reply : C) (messageTime : Nat) :
    Accounts P {⟨lease, reply, messageTime⟩} s
      (s.send env lease (.attachRejected error) reply) :=
  .reply messageTime rfl rfl rfl rfl fun _ h => by cases h

/-- A group that is rejected as a whole. -/
theorem rejectAll_accounts (lease : LeaseId) (error : AttachError) (replies : List (C × Nat)) :
    Accounts P (replies.map (Request.ofGroup lease) : Multiset (Request C)) s
      (replies.foldl (fun s request => s.send env lease (.attachRejected error) request.1) s) := by
  induction replies generalizing s with
  | nil => exact .refl s
  | cons request replies ih =>
    have hfirst : Accounts P {⟨lease, request.1, request.2⟩} s
        (s.send env lease (.attachRejected error) request.1) :=
      reject_accounts lease error request.1 request.2
    have h := hfirst.trans (ih (s := s.send env lease (.attachRejected error) request.1))
    simpa [Request.ofGroup] using h

theorem replyAttached_accounts {lease : LeaseId} {name : ReadString} {reply : C}
    (messageTime : Nat) (hok : replyAttached env lease name reply s = .ok t) :
    Accounts P {⟨lease, reply, messageTime⟩} s t := by
  rw [replyAttached] at hok
  cases hl : s.leases.lookup lease with
  | none =>
    rw [hl] at hok
    cases hok
  | some entry =>
    rw [hl] at hok
    simp only at hok
    split at hok
    · cases hok
      exact .reply messageTime rfl rfl rfl rfl fun _ h => by cases h
    · split at hok
      · cases hok
        exact .reply messageTime rfl rfl rfl rfl fun _ h => by cases h
      · split at hok
        · cases hok
        · cases hok
          exact .reply messageTime rfl rfl rfl rfl fun _ h => by cases h

theorem assignDatabase_accounts {lease : LeaseId} {database : Database} {rest : List Database}
    {name : ReadString} (hok : assignDatabase env lease database
      { s with inventory := { s.inventory with ready := rest } } = .ok (name, t)) :
    Accounts P 0 s t := by
  obtain ⟨_, _, _, scheduling, hsched, rfl⟩ := assignDatabase_cases hok
  refine .same rfl ⟨scheduling ++ [.assigned lease (s.nextGeneration + 1) database],
    by simp [assignment], ?_⟩ rfl rfl
  rw [Scheduling] at hsched
  split at hsched
  · obtain ⟨_, rfl⟩ := hsched
    simp [Event.answers, Event.discards]
  · subst hsched
    simp [Event.answers, Event.discards]

theorem claimDatabase_accounts {lease : LeaseId} {name : ReadString}
    (hok : claimDatabase env lease s = .ok (name, t)) : Accounts P 0 s t := by
  rw [claimDatabase] at hok
  cases hl : s.leases.lookup lease with
  | some entry =>
    rw [hl] at hok
    cases hok
    exact .refl s
  | none =>
    rw [hl, DatabaseInventory.takeReady] at hok
    cases hready : s.inventory.ready with
    | nil =>
      rw [hready] at hok
      cases hok
    | cons database rest =>
      rw [hready] at hok
      exact assignDatabase_accounts hok

theorem restoreUnclaimedDatabase_accounts {lease : LeaseId} {restored : Bool}
    (hok : restoreUnclaimedDatabase lease s = .ok (restored, t)) : Accounts P 0 s t := by
  rcases restoreUnclaimedDatabase_cases hok with ⟨_, rfl⟩ | ⟨_, _, _, _, rfl⟩
  · exact .refl _
  · exact .same rfl ⟨[_, _], rfl, by simp [Event.answers, Event.discards]⟩ rfl rfl

/-- The request was older than the claim timeout when its age was read. -/
def Overdue (env : Env C) (config : WorkerEngineConfig) (request : Request C) : Prop :=
  0 < config.leaseClaimTimeoutMs ∧
    config.leaseClaimTimeoutMs < elapsedMillis (env.now request.consumer) request.messageTime

/-- **A request that is served is answered once, or discarded as overdue.** -/
theorem serveRequest_accounts {lease : LeaseId} {request : C × Nat}
    (hok : serveRequest env lease s request = .ok t) :
    Accounts (Overdue env s.config) {Request.ofGroup lease request} s t := by
  rw [serveRequest] at hok
  split at hok
  · rename_i hlate
    cases hok
    refine ⟨0, {Request.ofGroup lease request}, ?_, ?_, ?_, ?_, fun r hr => ?_, rfl⟩
    · simp [queued, log]
    · rw [answered, log, List.filterMap_cons_none rfl]
      simp [answered]
    · simp [discarded, log, Event.discards, Request.ofGroup, Request.key]
    · simp [log, Nat.add_comm]
    · rw [Multiset.mem_singleton.mp hr]
      exact hlate
  · obtain ⟨⟨name, s₁⟩, h1, h2⟩ := bind_ok hok
    exact (claimDatabase_accounts h1).after (replyAttached_accounts request.2 h2)

theorem Accounts.config {hand : Multiset (Request C)} (h : Accounts P hand s t) :
    t.config = s.config := by
  obtain ⟨_, _, h⟩ := h
  exact h.config

/-- The inner loop of `dispatch_waiters`. -/
theorem serveRequests_accounts {lease : LeaseId} {replies : List (C × Nat)}
    (hok : replies.foldlM (serveRequest env lease) s = .ok t) :
    Accounts (Overdue env s.config) (replies.map (Request.ofGroup lease) : Multiset (Request C))
      s t := by
  induction replies generalizing s with
  | nil =>
    cases hok
    exact .refl _
  | cons request replies ih =>
    rw [List.foldlM_cons] at hok
    obtain ⟨s₁, h1, h2⟩ := bind_ok hok
    have hfirst := serveRequest_accounts h1
    have hrest := ih h2
    rw [hfirst.config] at hrest
    simpa using hfirst.trans hrest

theorem serveGroup_accounts {lease : LeaseId} {replies : List (C × Nat)}
    (hok : serveGroup env lease replies s = .ok t) :
    Accounts (Overdue env s.config) (replies.map (Request.ofGroup lease) : Multiset (Request C))
      s t := by
  rw [serveGroup] at hok
  split at hok
  · cases hok
    exact rejectAll_accounts lease .leaseClosed replies
  · obtain ⟨served, h1, h2⟩ := bind_ok hok
    have hserved := serveRequests_accounts h1
    split at h2
    · cases h2
      exact hserved
    · obtain ⟨⟨restored, s₂⟩, h3, h4⟩ := bind_ok h2
      cases h4
      exact hserved.before (restoreUnclaimedDatabase_accounts h3)

/-- **Dispatch accounts for every group it takes.** -/
theorem dispatchLoop_accounts {queue : List LeaseId} {s : WorkerEngine C}
    (hok : dispatchLoop env queue s = .ok t) : Accounts (Overdue env s.config) 0 s t := by
  induction queue generalizing s with
  | nil =>
    cases hok
    exact .refl _
  | cons lease rest ih =>
    rw [dispatchLoop] at hok
    split at hok
    · cases hok
      exact .refl _
    · cases hg : s.groupWaiters.lookup lease with
      | none =>
        simp only [hg] at hok
        have hskip : Accounts (Overdue env s.config) 0 s { s with waiters := rest } :=
          .same rfl ⟨[], rfl, by simp⟩ rfl rfl
        exact hskip.after (ih hok)
      | some replies =>
        simp only [hg] at hok
        obtain ⟨s₁, h1, h2⟩ := bind_ok hok
        have hserve := serveGroup_accounts h1
        rw [show replies = (s.groupWaiters.lookup lease).getD [] by rw [hg]; rfl] at hserve
        have hgroup : Accounts (Overdue env s.config) 0 s s₁ :=
          .dequeue lease hserve rfl rfl rfl rfl
        have hrest := ih h2
        rw [hgroup.config] at hrest
        exact hgroup.after hrest

theorem retireLease_accounts {lease : LeaseId} (hok : retireLease env lease s = .ok t) :
    Accounts P 0 s t := by
  cases hl : s.leases.lookup lease with
  | none =>
    rw [retireLease_none hl] at hok
    cases hok
    exact .refl s
  | some entry =>
    have hret : Accounts P 0 s (s.retired env lease entry) :=
      .same rfl ⟨[_, _], rfl, by simp [Event.answers, Event.discards]⟩ rfl rfl
    exact hret.after (grow_accounts (retireLease_some hl hok))

theorem admitLease_accounts {lease : LeaseId} {result : Except ReleaseError LeaseStatus}
    (h : s.admitLease lease = (result, t)) : Accounts P 0 s t := by
  rw [admitLease_keeps h]
  exact .same rfl ⟨[], rfl, by simp⟩ rfl rfl

/-- **A release answers every request that waits for the lease.** -/
theorem releaseLease_accounts {lease : LeaseId} {result : Except ReleaseError Unit}
    (hok : releaseLease env lease s = .ok (result, t)) : Accounts P 0 s t := by
  cases ha : s.admitLease lease with
  | mk outcome s₀ =>
    have hadmission : Accounts P 0 s s₀ := admitLease_accounts ha
    cases outcome with
    | error error =>
      rw [releaseLease, ha] at hok
      cases hok
      exact hadmission
    | ok status =>
      cases status with
      | closed =>
        rw [releaseLease, ha] at hok
        cases hok
        exact hadmission
      | opened =>
        obtain ⟨_, hret⟩ := releaseLease_opened ha hok
        have hreject := @rejectAll_accounts C env { s₀ with
          leaseRecords := s₀.leaseRecords.insert lease .closed
          groupWaiters := s₀.groupWaiters.erase lease
          waiters := s₀.waiters.filter (· ≠ lease) } P lease .leaseClosed
          ((s₀.groupWaiters.lookup lease).getD [])
        rw [foldl_send] at hreject
        have hclose : Accounts P 0 s₀ (s₀.closedWith lease (s₀.rejections env lease)) :=
          .dequeue lease hreject rfl rfl rfl rfl
        exact (hadmission.after hclose).after (retireLease_accounts hret)

/-- **An attachment answers its request, or queues it.** -/
theorem attachOpen_accounts {lease : LeaseId} {reply : C} {messageTime : Nat}
    (hok : attachOpen env lease reply messageTime s = .ok t) :
    Accounts (Overdue env s.config) {⟨lease, reply, messageTime⟩} s t := by
  cases hl : s.leases.lookup lease with
  | some entry =>
    rw [attachOpen, hl] at hok
    exact replyAttached_accounts messageTime hok
  | none =>
    cases hready : s.inventory.ready with
    | nil =>
      rw [attachOpen, hl, DatabaseInventory.takeReady, hready] at hok
      exact (Accounts.enqueue lease reply messageTime).before (grow_accounts hok)
    | cons database rest =>
      obtain ⟨name, s₁, s₂, restored, s₃, s₄, h1, h2, h3, h4, h5⟩ := attachOpen_fresh hl hready hok
      have hp : Accounts (Overdue env s.config) {⟨lease, reply, messageTime⟩} s s₃ :=
        ((assignDatabase_accounts h1).after (replyAttached_accounts messageTime h2)).before
          (restoreUnclaimedDatabase_accounts h3)
      rcases h4 with h4 | ⟨_, rfl⟩
      · have hdisp := dispatchLoop_accounts h4
        rw [hp.config] at hdisp
        exact (hp.before hdisp).before (grow_accounts h5)
      · exact hp.before (grow_accounts h5)

theorem attachOrJoin_accounts {lease : LeaseId} {reply : C} {messageTime : Nat}
    (hok : attachOrJoin env lease reply messageTime s = .ok t) :
    Accounts (Overdue env s.config) {⟨lease, reply, messageTime⟩} s t := by
  cases ha : s.admitLease lease with
  | mk outcome s₀ =>
    have hadmission : Accounts (Overdue env s.config) 0 s s₀ := admitLease_accounts ha
    rw [attachOrJoin, ha] at hok
    cases outcome with
    | error error =>
      cases error <;> cases hok <;> exact hadmission.after (reject_accounts _ _ _ _)
    | ok status =>
      cases status with
      | closed =>
        cases hok
        exact hadmission.after (reject_accounts _ _ _ _)
      | opened =>
        have hopen := attachOpen_accounts hok
        rw [hadmission.config] at hopen
        exact hadmission.after hopen

theorem creationFinished_accounts {databaseId : Nat}
    {result : Except PostgresDDLClientError ReadString}
    (hok : handleDatabaseWorkerMessage env (.creationFinished databaseId result) s = .ok t) :
    Accounts (Overdue env s.config) 0 s t := by
  rcases creationFinished_cases hok with ⟨_, rfl⟩ | ⟨_, s₂, h1, h2⟩
  · exact .refl _
  · have hsettle : Accounts (Overdue env s.config) 0 s { s.settledWith databaseId result with
        counters := s.counters.afterCreation result } := by
      refine .event (settled databaseId result) ?_ rfl rfl (by simp) rfl
      cases result <;> exact ⟨rfl, rfl⟩
    have hdisp := dispatchLoop_accounts h1
    exact (hsettle.after hdisp).before (grow_accounts h2)

theorem cleanupFinished_accounts {databaseId : Nat} {result : Except PostgresDDLClientError Unit}
    (hok : handleDatabaseWorkerMessage env (.cleanupFinished databaseId result) s = .ok t) :
    Accounts P 0 s t := by
  rw [handleDatabaseWorkerMessage] at hok
  split at hok
  · cases hok
    exact .refl _
  · cases hok
    exact .event (.cleaned databaseId) ⟨rfl, rfl⟩ rfl rfl rfl rfl
  · cases hok
    exact .same rfl ⟨[], rfl, by simp⟩ rfl rfl

theorem detach_accounts (lease : LeaseId) (generation : Nat) :
    Accounts P 0 s (s.detach lease generation) := by
  rw [detach]
  split
  · exact .refl _
  · split
    · split
      · exact .same rfl ⟨[], rfl, by simp⟩ rfl rfl
      · exact .event _ ⟨rfl, rfl⟩ rfl rfl rfl rfl
    · exact .refl _

/-- **A message accounts for the requests it brings.** -/
theorem processMessage_accounts {message : EngineMessage C}
    (hok : processMessage env message s = .ok t) :
    Accounts (Overdue env s.config) (message.requests : Multiset (Request C)) s t := by
  cases message with
  | attachOrJoin lease reply messageTime => exact attachOrJoin_accounts hok
  | releaseLease lease reply =>
    obtain ⟨⟨result, s₁⟩, h1, h2⟩ := bind_ok hok
    cases h2
    exact (releaseLease_accounts h1).after (.event _ ⟨rfl, rfl⟩ rfl rfl rfl rfl)
  | detach lease generation =>
    cases hok
    exact detach_accounts lease generation
  | leaseMaxTimeReached lease generation =>
    rw [processMessage, leaseMaxTimeReached] at hok
    split at hok
    · have hcount : Accounts (Overdue env s.config) 0 s { s with counters := { s.counters with
          rejectedAttachMaxLifetime := s.counters.rejectedAttachMaxLifetime + 1 } } :=
        .same rfl ⟨[], rfl, by simp⟩ rfl rfl
      exact hcount.after (retireLease_accounts hok)
    · cases hok
      exact .refl _
  | databaseWorker message =>
    cases message with
    | creationFinished databaseId result => exact creationFinished_accounts hok
    | cleanupFinished databaseId result =>
      rw [processMessage] at hok
      exact cleanupFinished_accounts hok
  | shutdown =>
    cases hok
    exact .same rfl ⟨[], rfl, by simp⟩ rfl rfl

theorem reportInitial_accounts {request : CreateDatabases}
    {report : Nat × Except PostgresDDLClientError ReadString}
    {acc acc' : Option PostgresDDLClientError × WorkerEngine C}
    (hok : reportInitial request acc report = .ok acc') : Accounts P 0 acc.2 acc'.2 := by
  obtain ⟨databaseId, _, h2⟩ := bind_ok hok
  by_cases hc : databaseId ∈ acc.2.inventory.creating
  · rw [completeCreation_eq report.2 acc.2.inventory hc] at h2
    cases hres : report.2 with
    | ok name =>
      rw [hres] at h2
      cases h2
      exact .event _ ⟨rfl, rfl⟩ rfl rfl rfl rfl
    | error error =>
      rw [hres] at h2
      cases h2
      exact .event _ ⟨rfl, rfl⟩ rfl rfl rfl rfl
  · simp [DatabaseInventory.completeCreation, hc] at h2

/-- `try_init` touches no request. -/
theorem tryInit_accounts {reports : List (Nat × Except PostgresDDLClientError ReadString)}
    {result : Except PostgresDDLClientError Unit} (hok : s.tryInit reports = .ok (result, t)) :
    Accounts P 0 s t := by
  rw [tryInit] at hok
  split at hok
  · cases hok
  · cases hok
    exact .refl _
  · rename_i request inventory _
    obtain ⟨⟨firstError, s₁⟩, h1, h2⟩ := bind_ok hok
    have hreserve : Accounts P 0 s { s with inventory := inventory } :=
      .same rfl ⟨[], rfl, by simp⟩ rfl rfl
    have hloop := foldlM_ok (I := fun acc => Accounts P 0 s acc.2)
      (fun _ _ _ _ hI hs => hI.after (reportInitial_accounts hs)) hreserve h1
    cases firstError <;> cases h2 <;> exact hloop

end Functions

end WorkerEngine

/-! ### In the runs of the engine -/

open WorkerEngine

variable {config : WorkerEngineConfig} {s t : WorkerEngine C}

/-- The requests of a list of messages, in order. -/
def arrivals (is : List (Env C × EngineMessage C)) : List (Request C) :=
  is.flatMap fun i => i.2.requests

theorem run_accounts {is : List (Env C × EngineMessage C)} (hr : (engine C config).Run s is t) :
    Accounts (fun request => ∃ i ∈ is, Overdue i.1 s.config request)
      (arrivals is : Multiset (Request C)) s t := by
  induction hr with
  | nil s => exact .refl s
  | @cons s s₁ u i is hst _ ih =>
    have hstep := processMessage_accounts hst.2
    rw [hstep.config] at ih
    have hfirst : Accounts (fun request => ∃ j ∈ i :: is, Overdue j.1 s.config request)
        (i.2.requests : Multiset (Request C)) s s₁ :=
      hstep.mono fun _ hm => ⟨i, List.mem_cons_self, hm⟩
    have hrest : Accounts (fun request => ∃ j ∈ i :: is, Overdue j.1 s.config request)
        (arrivals is : Multiset (Request C)) s₁ u := by
      refine ih.mono fun request hm => ?_
      obtain ⟨j, hj, hm⟩ := hm
      exact ⟨j, List.mem_cons_of_mem _ hj, hm⟩
    have h := hfirst.trans hrest
    rw [Multiset.coe_add] at h
    exact h

end PgTest.Engine
