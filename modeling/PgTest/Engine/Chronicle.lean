import PgTest.Engine.Ledger

/-!
# What the history tells

Four readings of the history, each a `filterMap` over its events: what was
handed out (`Event.handsOut`), the life of the databases (`Event.life`), which
connections were let go (`Event.letsGo`), and which databases became ready
(`Event.readies`).  An event that none of them sees is `Minor`.

`Move.news` says once what every atomic change writes into the history, and that
no reply it writes is a lie (`Honest`).  All that is proved of the history goes
through it.
-/

namespace PgTest.Engine

open PgTest.Lib

variable {C : Type} {Q : LeaseId → C → Prop}

/-- What happens to a database outside the engine. -/
inductive Life
  | created (database : Database)
  | cleanup (request : CleanupDatabase)
  | dropped (databaseId : Nat)
  deriving DecidableEq

def Event.life : Event C → Option Life
  | .created database => some (.created database)
  | .requestedCleanup request _ => some (.cleanup request)
  | .cleaned databaseId => some (.dropped databaseId)
  | _ => none

def Event.letsGo : Event C → Option (LeaseId × Nat)
  | .detached lease generation => some (lease, generation)
  | _ => none

def Event.readies : Event C → Option Nat
  | .created database => some database.databaseId
  | .returned _ _ database => some database.databaseId
  | _ => none

/-- No reading sees the event. -/
structure Event.Minor (event : Event C) : Prop where
  handsOut : event.handsOut = none
  life : event.life = none
  letsGo : event.letsGo = none
  readies : event.readies = none

namespace WorkerEngine

/-- The life of the databases, newest first. -/
def life (s : WorkerEngine C) : List Life := s.history.filterMap Event.life

/-- The connections that were let go, newest first. -/
def letGo (s : WorkerEngine C) : List (LeaseId × Nat) := s.history.filterMap Event.letsGo

/-- What a change in state `s` writes into the history. -/
inductive News (s : WorkerEngine C) : Act → List (Event C) → Prop
  | minor {a : Act} {new : List (Event C)} (h : ∀ event ∈ new, event.Minor) : News s a new
  | attach {lease : LeaseId} {entry : LeaseEntry} (consumer : C)
      (hl : s.leases.lookup lease = some entry) :
      News s (.attach lease entry.generation) [.reply lease consumer
        (.attached entry.database.databaseName entry.generation entry.cancellation)
        (some entry.database.databaseId) true]
  | restore {lease : LeaseId} {entry : LeaseEntry} (hl : s.leases.lookup lease = some entry)
      (hu : s.Undelivered lease entry.generation) :
      News s (.restore lease entry.generation)
        [.returned lease entry.generation entry.database, .cancelled entry.cancellation]
  | detach {lease : LeaseId} {entry : LeaseEntry} (hl : s.leases.lookup lease = some entry) :
      News s (.detach lease entry.generation) [.detached lease entry.generation]
  | retire {lease : LeaseId} {entry : LeaseEntry} (accepted : Bool)
      (hl : s.leases.lookup lease = some entry) :
      News s (.retire lease entry.generation)
        [.requestedCleanup ⟨entry.database.databaseId, entry.database.databaseName⟩ accepted,
          .cancelled entry.cancellation]
  | created {databaseId : Nat} (name : ReadString) (hc : databaseId ∈ s.inventory.creating) :
      News s (.settle databaseId) [.created ⟨databaseId, name⟩]
  | cleaned {databaseId : Nat} (hr : databaseId ∈ s.inventory.retiring) :
      News s (.clean databaseId) [.cleaned databaseId]

/-- What a reply says is so: an `Attached` names the assignment of its lease, and
a successful release belongs to a closed lease. -/
def Honest (s : WorkerEngine C) : Event C → Prop
  | .reply lease _ (.attached databaseName generation cancellation) behind _ =>
      ∃ entry, s.leases.lookup lease = some entry ∧
        databaseName = entry.database.databaseName ∧ generation = entry.generation ∧
        cancellation = entry.cancellation ∧ behind = some entry.database.databaseId
  | .reply lease _ (.releaseResult (.ok ())) _ _ => s.leaseRecords.lookup lease = some .closed
  | _ => True

theorem Quiet.honest {s : WorkerEngine C} {event : Event C} (h : s.Quiet event) :
    s.Honest event := by
  cases event with
  | reply lease consumer message behind delivered =>
    cases message with
    | attached name generation cancellation => exact h.2
    | failedToAttach | attachRejected _ => trivial
    | releaseResult result =>
      cases result with
      | ok u => exact h
      | error e => trivial
  | expired _ _ | grew | assigned _ _ _ | scheduled _ _ _ _ _ | cancelled _ | returned _ _ _
  | requestedCreation _ _ | requestedCleanup _ _ | created _ | creationFailed _ | cleaned _
  | detached _ _ => trivial

theorem Quiet.minor {s : WorkerEngine C} {event : Event C} (h : s.Quiet event) :
    event.Minor := by
  cases event with
  | reply lease consumer message behind delivered =>
    cases message with
    | attached name generation cancellation =>
      obtain ⟨rfl, _⟩ := h
      refine ⟨?_, rfl, rfl, rfl⟩
      cases behind <;> rfl
    | failedToAttach | attachRejected _ | releaseResult _ => exact ⟨rfl, rfl, rfl, rfl⟩
  | expired _ _ | grew => exact ⟨rfl, rfl, rfl, rfl⟩
  | assigned _ _ _ | scheduled _ _ _ _ _ | cancelled _ | returned _ _ _ | requestedCreation _ _
  | requestedCleanup _ _ | created _ | creationFailed _ | cleaned _ | detached _ _ => exact h.elim

theorem Scheduling.plain {s : WorkerEngine C} {lease : LeaseId} {scheduling : List (Event C)}
    (h : s.Scheduling lease scheduling) :
    ∀ event ∈ scheduling, event.Minor ∧ ∀ t : WorkerEngine C, t.Honest event := by
  unfold Scheduling at h
  split at h
  · obtain ⟨accepted, rfl⟩ := h
    intro event he
    rw [List.mem_singleton.mp he]
    exact ⟨⟨rfl, rfl, rfl, rfl⟩, fun _ => trivial⟩
  · rw [h]
    intro event he
    exact absurd he List.not_mem_nil

end WorkerEngine

open WorkerEngine

/-- **What a change writes into the history.** -/
theorem Move.news {s s' : WorkerEngine C} {a : Act} (h : Move Q s a s') :
    ∃ new, s.News a new ∧ (∀ event ∈ new, s.Honest event) ∧ s'.history = new ++ s.history := by
  have none_minor : ∀ event ∈ ([] : List (Event C)), event.Minor ∧ s.Honest event := by
    intro event he
    exact absurd he List.not_mem_nil
  have minor : ∀ {new : List (Event C)}, (∀ event ∈ new, event.Minor ∧ s.Honest event) →
      s'.history = new ++ s.history → ∃ new, s.News a new ∧ (∀ event ∈ new, s.Honest event) ∧
        s'.history = new ++ s.history := by
    intro new hm hh
    exact ⟨new, .minor fun e he => (hm e he).1, fun e he => (hm e he).2, hh⟩
  have one : ∀ {event : Event C}, event.Minor → s.Honest event →
      ∀ e ∈ [event], e.Minor ∧ s.Honest e := by
    intro event hm hh e he
    rw [List.mem_singleton.mp he]
    exact ⟨hm, hh⟩
  have each : ∀ {x y : Event C}, s.Honest x → s.Honest y → ∀ e ∈ [x, y], s.Honest e := by
    intro x y hx hy e he
    rcases List.mem_pair.mp he with rfl | rfl
    · exact hx
    · exact hy
  cases h with
  | count _ _ | enroll _ _ | enqueue _ _ _ _ _ | dequeue _ | detachIdle _ _ | shutdown =>
    exact minor none_minor rfl
  | note hq => exact minor (one hq.minor hq.honest) rfl
  | @close _ events _ _ hev =>
    refine minor (fun event he => ?_) rfl
    obtain ⟨consumer, delivered, rfl⟩ := hev event he
    exact ⟨⟨rfl, rfl, rfl, rfl⟩, trivial⟩
  | @assign lease database rest scheduling _ _ _ _ _ hsched =>
    refine @minor (scheduling ++ [.assigned lease (s.nextGeneration + 1) database])
      (fun event he => ?_) ?_
    · rcases List.mem_append.mp he with he | he
      · exact ⟨(hsched.plain event he).1, (hsched.plain event he).2 s⟩
      · rw [List.mem_singleton.mp he]
        exact ⟨⟨rfl, rfl, rfl, rfl⟩, trivial⟩
    · show scheduling ++ _ :: s.history = _
      rw [List.append_assoc]
      rfl
  | @attach _ entry consumer hl _ _ =>
    refine ⟨_, .attach consumer hl, fun e he => ?_, rfl⟩
    rw [List.mem_singleton.mp he]
    exact ⟨entry, hl, rfl, rfl, rfl, rfl⟩
  | restore hl _ hu => exact ⟨_, .restore hl hu, each trivial trivial, rfl⟩
  | detach hl _ =>
    refine ⟨_, .detach hl, fun e he => ?_, rfl⟩
    rw [List.mem_singleton.mp he]
    trivial
  | retire accepted hl => exact ⟨_, .retire accepted hl, each trivial trivial, rfl⟩
  | @reserve _ events _ _ _ hev =>
    rcases hev with rfl | rfl
    · exact minor none_minor rfl
    · exact minor (@one (.requestedCreation _ true) ⟨rfl, rfl, rfl, rfl⟩ trivial) rfl
  | burn _ _ _ _ _ =>
    exact minor (@one (.requestedCreation _ false) ⟨rfl, rfl, rfl, rfl⟩ trivial) rfl
  | settle result hc =>
    cases result with
    | ok name =>
      refine ⟨_, .created name hc, fun e he => ?_, rfl⟩
      rw [List.mem_singleton.mp he]
      trivial
    | error error => exact minor (@one (.creationFailed _) ⟨rfl, rfl, rfl, rfl⟩ trivial) rfl
  | clean hr =>
    refine ⟨_, .cleaned hr, fun e he => ?_, rfl⟩
    rw [List.mem_singleton.mp he]
    trivial

/-- The history only grows. -/
theorem Move.history {s s' : WorkerEngine C} {a : Act} (h : Move Q s a s') :
    ∃ new, s'.history = new ++ s.history := by
  obtain ⟨new, _, _, hn⟩ := h.news
  exact ⟨new, hn⟩

/-! ### The readings, change by change -/

theorem filterMap_minor {α : Type} {f : Event C → Option α} {new old : List (Event C)}
    (h : ∀ event ∈ new, f event = none) : (new ++ old).filterMap f = old.filterMap f := by
  rw [List.filterMap_append, List.filterMap_eq_nil_iff.mpr h, List.nil_append]

/-- **Only `attach` hands out a database.** -/
theorem Move.handed {s s' : WorkerEngine C} {a : Act} (h : Move Q s a s')
    (ha : ∀ lease generation, a ≠ .attach lease generation) : s'.handed = s.handed := by
  obtain ⟨new, hn, _, hh⟩ := h.news
  rw [WorkerEngine.handed, WorkerEngine.handed, hh]
  cases hn with
  | minor hm => exact filterMap_minor fun event he => (hm event he).handsOut
  | attach _ _ => exact absurd rfl (ha _ _)
  | restore _ _ | detach _ | retire _ _ | created _ _ | cleaned _ => rfl

/-- **Only `detach` lets a connection go.** -/
theorem Move.letGo {s s' : WorkerEngine C} {a : Act} (h : Move Q s a s')
    (ha : ∀ lease generation, a ≠ .detach lease generation) : s'.letGo = s.letGo := by
  obtain ⟨new, hn, _, hh⟩ := h.news
  rw [WorkerEngine.letGo, WorkerEngine.letGo, hh]
  cases hn with
  | minor hm => exact filterMap_minor fun event he => (hm event he).letsGo
  | detach _ => exact absurd rfl (ha _ _)
  | attach _ _ | restore _ _ | retire _ _ | created _ _ | cleaned _ => rfl

/-- Changes after which every database is where it was outside the engine. -/
def Act.Lifeless : Act → Prop
  | .settle _ | .retire _ _ | .clean _ => False
  | _ => True

theorem Move.life {s s' : WorkerEngine C} {a : Act} (h : Move Q s a s') (ha : a.Lifeless) :
    s'.life = s.life := by
  obtain ⟨new, hn, _, hh⟩ := h.news
  rw [WorkerEngine.life, WorkerEngine.life, hh]
  cases hn with
  | minor hm => exact filterMap_minor fun event he => (hm event he).life
  | attach _ _ | restore _ _ | detach _ => rfl
  | retire _ _ | created _ _ | cleaned _ => exact ha.elim

end PgTest.Engine
