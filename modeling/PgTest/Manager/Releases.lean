import PgTest.Engine.Acknowledgement
import PgTest.Manager.Routing

/-!
# Releases come back to those who asked

A call of `release` waits on a channel of its own, and the `Ok` that it reads there is
for the lease that it named: the handle of a release is on its way to the engine or was
answered (`System.Releases`), and a channel belongs to one call only.  So the lease is
closed when its caller reads the `Ok`, and nobody has a session for it with a live token.
-/

namespace PgTest.Manager

open PgTest.Lib PgTest.Engine PgTest.Engine.WorkerEngine

variable {config : WorkerEngineConfig}

namespace System

variable {s t : System} {lease : LeaseId} {worker : ConsumerWorker} {channel : Nat}

/-- The `Ok` of a release waits to be read from the channel. -/
def Acknowledged (s : System) (channel : Nat) : Prop :=
  s.channels[channel]? = some (.holding (.engine (.releaseResult (.ok ()))))

instance (s : System) (channel : Nat) : Decidable (s.Acknowledged channel) :=
  inferInstanceAs (Decidable (_ = _))

/-- The release of `lease` waits in the inbox with its handle, or was answered `Ok`. -/
def Releases (s : System) (lease : LeaseId) (worker : ConsumerWorker) : Prop :=
  .releaseLease lease worker ∈ s.inbox ∨ (lease, worker) ∈ s.engine.acknowledged

/-- Handles answer on channels there are, and an `Ok` that is unread was given. -/
structure Answerable (s : System) : Prop where
  fits : ∀ lease worker, s.Releases lease worker → worker.oneshotChannel < s.channels.length
  given : ∀ channel, s.Acknowledged channel → ∃ lease worker,
    (lease, worker) ∈ s.engine.acknowledged ∧ worker.oneshotChannel = channel

/-- Who answers on the channel answers the release of `lease`. -/
def Serves (channel : Nat) (lease : LeaseId) (s : System) : Prop :=
  ∀ other worker, s.Releases other worker → worker.oneshotChannel = channel → other = lease

/-! ### One action -/

theorem act_length {a : Action} (ha : ∀ env, a ≠ .handle env) (h : s.act a = some t) :
    s.channels.length ≤ t.channels.length := by
  cases a with
  | handle env => exact absurd rfl (ha env)
  | attach _ _ | release _ =>
    cases h
    simp [post]
  | leaseTimer _ _ | databaseWorker _ | shutdown =>
    cases h
    simp [post]
  | attachEnds _ | dropReceiver _ =>
    rw [act] at h
    split at h <;> cases h <;> simp [post]
  | dropSession _ =>
    rw [act] at h
    split at h <;> cases h
    simp [post]

theorem answers_length : ∀ {events : List (Event ConsumerWorker)} {t : System},
    answers events s = some t → t.channels.length = s.channels.length := by
  intro events
  induction events with
  | nil =>
    intro t h
    cases h
    rfl
  | cons event earlier ih =>
    intro t h
    obtain ⟨u, h1, h2⟩ := Option.bind_eq_some_iff.mp h
    refine Eq.trans ?_ (ih h1)
    unfold answer at h2
    split at h2
    · split at h2
      · split at h2 <;> cases h2
        simp
      · cases h2
    · cases h2
      simp
    · cases h2
      rfl

/-- **What a message does to releases**: the one that is handled may be answered `Ok`. -/
theorem handle_releases (hb : s.Balanced) {env : Env ConsumerWorker} (h : s.handle env = some t) :
    t.channels.length = s.channels.length ∧
    (∀ lease worker, t.Releases lease worker → s.Releases lease worker) ∧
    (∀ lease worker, (lease, worker) ∈ s.engine.acknowledged →
      (lease, worker) ∈ t.engine.acknowledged) ∧
    ∀ channel, t.Acknowledged channel → s.Acknowledged channel ∨ ∃ lease worker,
      (lease, worker) ∈ t.engine.acknowledged ∧ worker.oneshotChannel = channel := by
  obtain ⟨message, rest, new, hi, hok, hnew, hknown, hanswers⟩ := handle_events hb h
  have hinbox : t.inbox = rest := (answers_gives hknown hanswers).inbox
  have hposted : ∀ lease worker, .releaseLease lease worker ∈ t.inbox →
      s.Releases lease worker := by
    intro lease worker hm
    rw [hinbox] at hm
    exact Or.inl (hi ▸ List.mem_cons_of_mem _ hm)
  have hlength := answers_length hanswers
  refine ⟨hlength, ?_, ?_, fun channel hc => ?_⟩
  · rintro lease worker (hm | hm)
    · exact hposted lease worker hm
    · rcases processMessage_acknowledged hok with hsame | ⟨other, reply, rfl, hadd⟩
      · exact Or.inr (hsame ▸ hm)
      · rw [hadd] at hm
        rcases List.mem_cons.mp hm with heq | hm
        · cases heq
          exact Or.inl (hi ▸ List.mem_cons_self)
        · exact Or.inr hm
  · intro lease worker hm
    rcases processMessage_acknowledged hok with hsame | ⟨_, _, _, hadd⟩
    · exact hsame ▸ hm
    · rw [hadd]
      exact List.mem_cons_of_mem _ hm
  · refine (answers_holding hanswers hc).imp_right ?_
    rintro ⟨lease, worker, message, behind, hm, hw, hreply⟩
    refine ⟨lease, worker, mem_acknowledged.mpr ⟨behind, true, ?_⟩, hw⟩
    have hmessage : message = .releaseResult (.ok ()) := by
      unfold ConsumerWorker.managerReply at hreply
      split at hreply <;> cases hreply
      rfl
    rw [hnew, ← hmessage]
    exact List.mem_append_left _ hm

/-- **Only `release` brings a new handle of a release**, for a channel of its own. -/
theorem act_releases {a : Action} (ha : ∀ env, a ≠ .handle env) (h : s.act a = some t)
    (hr : t.Releases lease worker) :
    s.Releases lease worker ∨ a = .release lease ∧ worker = ⟨s.channels.length, none⟩ := by
  rcases hr with hm | hm
  · obtain ⟨messages, hinbox, hposts⟩ := act_posts ha h
    rw [hinbox] at hm
    rcases List.mem_append.mp hm with hm | hm
    · exact Or.inl (Or.inl hm)
    · have hpost := hposts _ hm
      cases a with
      | release other =>
        cases hpost
        exact Or.inr ⟨rfl, rfl⟩
      | handle env => exact absurd rfl (ha env)
      | attach _ _ | leaseTimer _ _ | databaseWorker _ | shutdown => cases hpost
      | attachEnds _ | dropReceiver _ | dropSession _ =>
        obtain ⟨_, _, heq⟩ := hpost
        cases heq
  · rw [(act_keeps ha h).engine] at hm
    exact Or.inl (Or.inr hm)

theorem Answerable.act (h : s.Answerable) (hb : s.Balanced) {a : Action}
    (ha : s.act a = some t) : t.Answerable := by
  by_cases hh : ∃ env, a = .handle env
  · obtain ⟨env, rfl⟩ := hh
    obtain ⟨hlength, hreleases, hmore, hgiven⟩ := handle_releases hb ha
    refine ⟨fun lease worker hr => ?_, fun channel hc => ?_⟩
    · rw [hlength]
      exact h.fits lease worker (hreleases lease worker hr)
    · rcases hgiven channel hc with hc | hnew
      · obtain ⟨lease, worker, hm, hw⟩ := h.given channel hc
        exact ⟨lease, worker, hmore lease worker hm, hw⟩
      · exact hnew
  · have hne : ∀ env, a ≠ .handle env := fun env he => hh ⟨env, he⟩
    refine ⟨fun lease worker hr => ?_, fun channel hc => ?_⟩
    · rcases act_releases hne ha hr with hr | ⟨rfl, rfl⟩
      · exact lt_of_lt_of_le (h.fits lease worker hr) (act_length hne ha)
      · cases ha
        simp [post]
    · rw [(act_keeps hne ha).engine]
      exact h.given channel (act_holding hne ha hc)

/-- **A channel serves one release**: those that come later have channels of their own. -/
theorem Serves.act (h : s.Serves channel lease) (hb : s.Balanced)
    (hl : channel < s.channels.length) {a : Action} (ha : s.act a = some t) :
    t.Serves channel lease ∧ channel < t.channels.length := by
  by_cases hh : ∃ env, a = .handle env
  · obtain ⟨env, rfl⟩ := hh
    obtain ⟨hlength, hreleases, _⟩ := handle_releases hb ha
    exact ⟨fun other worker hr => h other worker (hreleases other worker hr), hlength ▸ hl⟩
  · have hne : ∀ env, a ≠ .handle env := fun env he => hh ⟨env, he⟩
    refine ⟨fun other worker hr hw => ?_, lt_of_lt_of_le hl (act_length hne ha)⟩
    rcases act_releases hne ha hr with hr | ⟨_, rfl⟩
    · exact h other worker hr hw
    · exact absurd hw (Nat.ne_of_gt hl)

/-- The channel of a new release serves it. -/
theorem Answerable.serves (h : s.Answerable) (ha : s.act (.release lease) = some t) :
    t.Serves s.channels.length lease ∧ s.channels.length < t.channels.length := by
  have hne : ∀ env, Action.release lease ≠ .handle env := by
    intro env heq
    cases heq
  refine ⟨fun other worker hr hw => ?_, ?_⟩
  · rcases act_releases hne ha hr with hr | ⟨heq, _⟩
    · exact absurd hw (Nat.ne_of_lt (h.fits other worker hr))
    · cases heq
      rfl
  · cases ha
    simp [post]

end System

variable {s s₁ t : System} {lease : LeaseId}

/-! ### Runs -/

theorem system_answerable (h : (system config).Reachable s) : s.Answerable := by
  refine h.invariant (fun s hs => ?_) fun s a t hr hI hstep => hI.act (system_balanced hr) hstep.2
  obtain ⟨hinit, hi, hc, _⟩ := hs
  refine ⟨fun lease worker hr => ?_, fun channel ha => ?_⟩
  · simp [System.Releases, hi, init_acknowledged hinit] at hr
  · simp [System.Acknowledged, hc] at ha

/-- **The `Ok` of a release closes the lease that its caller named.** -/
theorem release_closes {actions : List Action} (h : (system config).Reachable s)
    (hrun : s.engine.rootCancelled = false) (hcall : s.act (.release lease) = some s₁)
    (hwait : (system config).Run s₁ actions t) (hok : t.Acknowledged s.channels.length) :
    t.engine.leaseRecords.lookup lease = some .closed := by
  have h₁ : (system config).Reachable s₁ := h.step ⟨hrun, hcall⟩
  have key : (system config).Reachable t ∧ t.Serves s.channels.length lease ∧
      s.channels.length < t.channels.length := by
    refine hwait.invariant (I := fun t => (system config).Reachable t ∧
      t.Serves s.channels.length lease ∧ s.channels.length < t.channels.length) ?_
      ⟨h₁, (system_answerable h).serves hcall⟩
    rintro u a v _ ⟨hu, hserves, hl⟩ hstep
    exact ⟨hu.step hstep, hserves.act (system_balanced hu) hl hstep.2⟩
  obtain ⟨ht, hserves, _⟩ := key
  obtain ⟨other, worker, hm, hw⟩ := (system_answerable ht).given _ hok
  obtain rfl := hserves other worker (Or.inr hm) hw
  exact engine_acknowledged (system_engine ht) hm

/-- A lease that is closed stays closed, and is nowhere in the engine. -/
theorem system_closed {actions : List Action} (h : (system config).Reachable s)
    (hc : s.engine.leaseRecords.lookup lease = some .closed)
    (hrun : (system config).Run s actions t) :
    t.engine.leaseRecords.lookup lease = some .closed ∧
      lease ∉ t.engine.leases ∧ lease ∉ t.engine.waiters := by
  have key : (system config).Reachable t ∧
      t.engine.leaseRecords.lookup lease = some .closed := by
    refine hrun.invariant (I := fun t => (system config).Reachable t ∧
      t.engine.leaseRecords.lookup lease = some .closed) ?_ ⟨h, hc⟩
    rintro u a v _ ⟨hu, hcu⟩ hstep
    refine ⟨hu.step hstep, ?_⟩
    by_cases hh : ∃ env, a = .handle env
    · obtain ⟨env, rfl⟩ := hh
      obtain ⟨message, _, _, _, hok, _⟩ := System.handle_events (system_balanced hu) hstep.2
      exact (engine_closed (system_engine hu) hcu (.single (i := (env, message))
        ⟨hstep.1, hok⟩)).1
    · rw [(System.act_keeps (fun env he => hh ⟨env, he⟩) hstep.2).engine]
      exact hcu
  obtain ⟨ht, hct⟩ := key
  exact engine_closed (system_engine ht) hct (.nil _)

/-- **No session of a closed lease has a live token.** -/
theorem closed_cancelled (h : (system config).Reachable s)
    (hc : s.engine.leaseRecords.lookup lease = some .closed) {session : LeaseSession}
    (hs : s.Holds session) (hl : session.leaseId = lease) :
    s.engine.isCancelled session.cancellation = true := by
  obtain ⟨_, hout, _⟩ := system_closed h hc (.nil s)
  cases hroot : s.engine.rootCancelled with
  | true => simp [WorkerEngine.isCancelled, hroot]
  | false =>
    rw [← Bool.not_eq_false, session_live_iff h hroot hs, System.owned, hl,
      Finmap.lookup_eq_none.mpr hout]
    simp

end PgTest.Manager
