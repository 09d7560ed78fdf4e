import PgTest.Engine.Requests

/-!
# Deadlines of `attach`

`WorkerEngineManager::attach` reads the clock once: the reading goes into the
message, and with the claim timeout added it is the deadline of the caller's wait.
The engine reads the age of a request in whole milliseconds and compares it
strictly, so it discards a request only after its caller has given up.
-/

namespace PgTest.Manager

open PgTest.Lib PgTest.Engine PgTest.Engine.WorkerEngine

variable {C : Type} {config : WorkerEngineConfig} {s t : WorkerEngine C}

/-- `Duration::from_millis`, in nanoseconds. -/
def fromMillis (millis : Nat) : Nat := millis * 1000000

/-- `attach` up to its wait, at `now`: the message it sends, and until when it waits for
the reply; with the timeout `0` it waits without end. -/
def attachCall (leaseClaimTimeout : Nat) (lease : LeaseId) (reply : C) (now : Nat) :
    EngineMessage C × Option Nat :=
  (.attachOrJoin lease reply now,
    if leaseClaimTimeout = 0 then none else some (now + fromMillis leaseClaimTimeout))

/-- The wait of the `attach` that sent `request` is over at `now`. -/
def GivenUp (leaseClaimTimeout now : Nat) (request : Request C) : Prop :=
  ∃ deadline, attachCall leaseClaimTimeout request.lease request.consumer request.messageTime =
    (.attachOrJoin request.lease request.consumer request.messageTime, some deadline) ∧
    deadline < now

/-- An age of more milliseconds than the timeout is past the deadline. -/
theorem givenUp_of_overdue {env : Env C} {request : Request C}
    (h : Overdue env config request) :
    GivenUp config.leaseClaimTimeoutMs (env.now request.consumer) request := by
  obtain ⟨hpos, hage⟩ := h
  refine ⟨request.messageTime + fromMillis config.leaseClaimTimeoutMs, ?_, ?_⟩
  · rw [attachCall, if_neg (by omega)]
  · rw [elapsedMillis, Nat.lt_div_iff_mul_lt (by omega)] at hage
    rw [fromMillis]
    omega

/-- **No attach request is lost or answered twice.**  In every run the requests that were
processed are those in the queue, those that got one reply each, and those that were
discarded, each counted once by `waiter_timeouts`.  A request is discarded only while
leases expire, when its age exceeds the timeout and its caller has given up.  A consumer
that asked once for a lease is thus found in one place. -/
theorem requests_accounted [DecidableEq C] {s₀ : WorkerEngine C}
    {is : List (Env C × EngineMessage C)} (hinit : (engine C config).init s₀)
    (hr : (engine C config).Run s₀ is t) :
    ∃ answered discarded : Multiset (Request C),
      (arrivals is : Multiset (Request C)) = t.queued + answered + discarded ∧
      t.answered = answered.map Request.key ∧ t.discarded = discarded.map Request.key ∧
      t.counters.waiterTimeouts = discarded.card ∧
      (∀ request ∈ discarded, ∃ i ∈ is, Overdue i.1 config request ∧
        GivenUp config.leaseClaimTimeoutMs (i.1.now request.consumer) request) ∧
      (arrivals is).length =
        t.answered.card + t.counters.waiterTimeouts + t.queued.card ∧
      ∀ key, ((arrivals is : Multiset (Request C)).map Request.key).count key =
        (t.queued.map Request.key).count key + t.answered.count key + t.discarded.count key := by
  obtain ⟨reports, hok⟩ := hinit
  have hstart : Accounts (fun request => ∃ i ∈ is, Overdue i.1 config request) 0
      (WorkerEngine.new config) s₀ := tryInit_accounts hok
  have hrun := run_accounts hr
  rw [hstart.config] at hrun
  obtain ⟨answered, discarded, h⟩ := hstart.after hrun
  have hbalance : (arrivals is : Multiset (Request C)) = t.queued + answered + discarded := by
    have hb := h.balance
    rw [show (WorkerEngine.new config : WorkerEngine C).queued = 0 from rfl, zero_add] at hb
    exact hb
  have hanswers : t.answered = answered.map Request.key := by
    rw [h.answers]
    simp [WorkerEngine.answered, WorkerEngine.new]
  have hdiscards : t.discarded = discarded.map Request.key := by
    rw [h.discards]
    simp [WorkerEngine.discarded, WorkerEngine.new]
  have htimeouts : t.counters.waiterTimeouts = discarded.card := h.timeouts
  refine ⟨answered, discarded, hbalance, hanswers, hdiscards, htimeouts, ?_, ?_, ?_⟩
  · intro request hm
    obtain ⟨i, hi, hover⟩ := h.late request hm
    exact ⟨i, hi, hover, givenUp_of_overdue hover⟩
  · have hcard := congrArg Multiset.card hbalance
    rw [Multiset.coe_card, Multiset.card_add, Multiset.card_add] at hcard
    rw [hanswers, Multiset.card_map, htimeouts]
    omega
  · intro key
    rw [hbalance, Multiset.map_add, Multiset.map_add, Multiset.count_add, Multiset.count_add,
      hanswers, hdiscards]

/-- Three requests of the small engine with two databases: two are answered and one waits. -/
theorem requests_accounted_waiting : ∃ (s : WorkerEngine Nat)
    (is : List (Env Nat × EngineMessage Nat)) (answered discarded : Multiset (Request Nat)),
    (arrivals is : Multiset (Request Nat)) = s.queued + answered + discarded ∧
      s.queued ≠ 0 ∧ s.answered.card = 2 := by
  obtain ⟨s₀, is, s, hinit, _, hr, hg, ha⟩ := Sample.run
    [.attachOrJoin Sample.leaseA 0 0, .attachOrJoin Sample.leaseB 1 0,
      .attachOrJoin Sample.leaseC 2 0]
    (fun s => s.queued ≠ 0 ∧ s.answered.card = 2) (by decide)
  obtain ⟨answered, discarded, h, _⟩ := requests_accounted hinit hr
  exact ⟨s, is, answered, discarded, h, hg, ha⟩

end PgTest.Manager
