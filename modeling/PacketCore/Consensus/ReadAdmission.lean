import PacketCore.Consensus.ReadBarrier

/-!
# What an admitted read rests on

The history of a barrier only grows.  Every fact about a call, a request or a
lease proof is stated over the history, and survives the steps of all others.
-/

namespace PacketCore.Consensus

open List

variable {ν : Type} {capacity : ℕ} {shared later : Shared ν}
  {barrier : Barrier ν} {call : Call ν} {entry : Entry}

variable {channel check term : ℕ} {metrics : RaftMetrics ν} {readLogId : Option (LogId ν)}

namespace Shared

/-- The metrics show the local node as the leader of the term. -/
def Leads (shared : Shared ν) (metrics : RaftMetrics ν) (term : ℕ) : Prop :=
  metrics.running = true ∧ metrics.state = .leader ∧
    metrics.currentLeader = some shared.localNodeId ∧ metrics.currentTerm = term

/-- The check started no earlier than the round was requested. -/
def Requested (shared : Shared ν) (check requestedAt : ℕ) : Prop :=
  ∃ startedAt, shared.started[check]? = some startedAt ∧ requestedAt ≤ startedAt

/-- The metrics were shown no later than `time`, and were still shown when those at `place` were
the newest. -/
def Seen (shared : Shared ν) (place time : ℕ) (metrics : RaftMetrics ν) : Prop :=
  ∃ shownAt ≤ time, (shownAt, metrics) ∈ shared.shown.drop place

/-- The check has finished; `place` are the metrics that were shown then. -/
def Finishes (shared : Shared ν) (check : ℕ) (outcome : EnsureLinearizableOutcome ν) (place : ℕ) :
    Prop :=
  shared.finished[check]? = some (outcome, place) ∧ place < shared.shown.length

/-- A check that started after the call began was ready. -/
def Answers (shared : Shared ν) (entry : Entry) (reply : Reply ν) : Prop :=
  entry.begun ≤ reply.check ∧
    (∃ place, shared.Finishes reply.check (.ready reply.readLogId) place) ∧
    shared.Requested reply.check reply.requestedAt

/-- The metrics reach the index, unless some metrics took an applied index back. -/
def Shows (shared : Shared ν) (metrics : RaftMetrics ν) (readLogId : Option (LogId ν)) : Prop :=
  shared.regressed = false → metrics.reached readLogId = true

/-- The check serves the request behind the channel. -/
def Serves (shared : Shared ν) (check channel : ℕ) : Prop :=
  ∃ begun requestedAt, shared.asked[channel]? = some (begun, requestedAt) ∧
    begun ≤ check ∧ shared.Requested check requestedAt

/-- The round behind a lease proof. -/
structure Backs (shared : Shared ν) (proof : LeaderLeaseProof ν) : Prop where
  expires : proof.expiresAt = proof.requestedAt + leaderLease
  ready : ∃ place, shared.Finishes proof.check (.ready proof.readLogId) place
  requested : shared.Requested proof.check proof.requestedAt
  observed : shared.Seen 0 shared.now proof.observed ∧ shared.Leads proof.observed proof.term

/-- What a successful call rests on.  The last metrics it read were shown after it began and after
the check that answered it, or before the clock was read to decide on the lease. -/
structure Admits (shared : Shared ν) (entry : Entry) (admission : Admission ν) : Prop where
  seen : shared.Seen entry.since shared.now admission.final
  leads : shared.Leads admission.final admission.term
  applied : shared.Shows admission.final admission.readLogId
  round : ∀ check, admission.route = .round check → entry.begun ≤ check ∧
    ∃ place, shared.Finishes check (.ready admission.readLogId) place ∧
      shared.Seen place shared.now admission.final
  lease : ∀ proof decidedAt, admission.route = .lease proof decidedAt →
    shared.Backs proof ∧ proof.term = admission.term ∧ entry.beganAt ≤ decidedAt ∧
      shared.Seen entry.since decidedAt admission.final ∧ decidedAt ≤ shared.now ∧
      decidedAt < proof.requestedAt + leaderLease ∧ entry.retired = false

/-- What a call knows from a look at a lease. -/
structure Leased (shared : Shared ν) (entry : Entry) (look : LeaseLook ν) (time : ℕ) : Prop where
  backs : shared.Backs look.proof
  seen : shared.Seen entry.since time look.metrics
  shows : ∀ readLogId, look.waited = some readLogId → shared.Shows look.metrics readLogId

/-- What a call knows in each phase. -/
def Reaches (shared : Shared ν) (entry : Entry) : Phase ν → Prop
  | .leaseMetrics proof waited => shared.Backs proof ∧
    ∀ readLogId, waited = some readLogId → shared.Shows shared.metrics readLogId
  | .leaseFlag look => shared.Leased entry look shared.now
  | .leaseClock look => shared.Leased entry look shared.now ∧ entry.retired = false
  | .leaseSignals look decidedAt => shared.Leased entry look decidedAt ∧ entry.retired = false ∧
    entry.beganAt ≤ decidedAt ∧ decidedAt ≤ shared.now ∧ decidedAt < look.proof.expiresAt
  | .leaseWait proof _ => shared.Backs proof
  | .acquiring requestedAt | .sending requestedAt => requestedAt ≤ shared.now
  | .awaiting requestedAt channel => shared.asked[channel]? = some (entry.begun, requestedAt)
  | .readyMetrics reply | .roundWait reply _ => shared.Answers entry reply
  | .readySignals reply metrics => shared.Answers entry reply ∧ shared.Seen 0 shared.now metrics
  | .remembering reply metrics term =>
    shared.Answers entry reply ∧ shared.Seen 0 shared.now metrics ∧ shared.Leads metrics term
  | .roundMetrics reply _ =>
    shared.Answers entry reply ∧ shared.Shows shared.metrics reply.readLogId
  | .roundSignals reply _ metrics => entry.begun ≤ reply.check ∧
    shared.Shows metrics reply.readLogId ∧ shared.Seen entry.since shared.now metrics ∧
    ∃ place, shared.Finishes reply.check (.ready reply.readLogId) place ∧
      shared.Seen place shared.now metrics
  | .deciding admission | .admitted admission => shared.Admits entry admission
  | .started | .loadLease | .stamping | .forgetting _ | .failed _ => True

/-- The history of `later` extends that of `shared`. -/
structure Grows (shared later : Shared ν) : Prop where
  node : later.localNodeId = shared.localNodeId
  started : shared.started <+: later.started
  finished : shared.finished <+: later.finished
  asked : shared.asked <+: later.asked
  shown : shared.shown <+: later.shown
  now : shared.now ≤ later.now
  disabled : shared.leaseReuseDisabled = true → later.leaseReuseDisabled = true
  applied : later.regressed = false → shared.regressed = false ∧
    ∀ readLogId, shared.metrics.reached readLogId = true → later.metrics.reached readLogId = true

theorem Grows.refl : Grows shared shared :=
  ⟨rfl, prefix_rfl, prefix_rfl, prefix_rfl, prefix_rfl, le_rfl, id,
    fun hregressed => ⟨hregressed, fun _ => id⟩⟩

theorem getElem?_of_grows {α : Type} {before after : List α} (hgrows : before <+: after) {place : ℕ}
    {item : α} (hitem : before[place]? = some item) : after[place]? = some item := by
  obtain ⟨_, rfl⟩ := hgrows
  rw [List.getElem?_append_left (List.getElem?_eq_some_iff.mp hitem).1, hitem]

section Stable

variable (hgrows : Grows shared later)

include hgrows

theorem Leads.mono (h : shared.Leads metrics term) : later.Leads metrics term := by
  unfold Leads
  rwa [hgrows.node]

theorem Requested.mono {requestedAt : ℕ} (h : shared.Requested check requestedAt) :
    later.Requested check requestedAt :=
  h.imp fun _ hstarted => ⟨getElem?_of_grows hgrows.started hstarted.1, hstarted.2⟩

theorem Seen.mono {place time bound : ℕ} (htime : time ≤ bound)
    (h : shared.Seen place time metrics) : later.Seen place bound metrics :=
  h.imp fun _ hseen => ⟨hseen.1.trans htime, (hgrows.shown.drop _).subset hseen.2⟩

theorem Finishes.mono {outcome : EnsureLinearizableOutcome ν} {place : ℕ}
    (h : shared.Finishes check outcome place) : later.Finishes check outcome place :=
  ⟨getElem?_of_grows hgrows.finished h.1, h.2.trans_le hgrows.shown.length_le⟩

theorem Answers.mono {reply : Reply ν} (h : shared.Answers entry reply) :
    later.Answers entry reply :=
  ⟨h.1, h.2.1.imp fun _ => Finishes.mono hgrows, h.2.2.mono hgrows⟩

theorem Shows.mono (h : shared.Shows metrics readLogId) : later.Shows metrics readLogId :=
  fun hregressed => h (hgrows.applied hregressed).1

theorem Shows.mono_current (h : shared.Shows shared.metrics readLogId) :
    later.Shows later.metrics readLogId :=
  fun hregressed => (hgrows.applied hregressed).2 _ (h (hgrows.applied hregressed).1)

theorem Serves.mono (h : shared.Serves check channel) : later.Serves check channel := by
  obtain ⟨begun, requestedAt, hasked, hbegun, hrequested⟩ := h
  exact ⟨begun, requestedAt, getElem?_of_grows hgrows.asked hasked, hbegun, hrequested.mono hgrows⟩

theorem Backs.mono {proof : LeaderLeaseProof ν} (h : shared.Backs proof) : later.Backs proof :=
  ⟨h.expires, h.ready.imp fun _ => Finishes.mono hgrows, h.requested.mono hgrows,
    h.observed.1.mono hgrows hgrows.now, h.observed.2.mono hgrows⟩

theorem Admits.mono {admission : Admission ν}
    (h : shared.Admits entry admission) : later.Admits entry admission where
  seen := h.seen.mono hgrows hgrows.now
  leads := h.leads.mono hgrows
  applied := h.applied.mono hgrows
  round _ hround := by
    obtain ⟨hbegun, place, hfinishes, hseen⟩ := h.round _ hround
    exact ⟨hbegun, place, hfinishes.mono hgrows, hseen.mono hgrows hgrows.now⟩
  lease _ _ hlease := by
    obtain ⟨hbacks, hterm, hbegan, hseen, hnow, hrest⟩ := h.lease _ _ hlease
    exact ⟨hbacks.mono hgrows, hterm, hbegan, hseen.mono hgrows le_rfl,
      hnow.trans hgrows.now, hrest⟩

theorem Leased.mono {look : LeaseLook ν} {time bound : ℕ} (htime : time ≤ bound)
    (h : shared.Leased entry look time) : later.Leased entry look bound :=
  ⟨h.backs.mono hgrows, h.seen.mono hgrows htime, fun _ hwaited => (h.shows _ hwaited).mono hgrows⟩

theorem Reaches.mono {phase : Phase ν} (h : shared.Reaches entry phase) :
    later.Reaches entry phase := by
  cases phase with
  | leaseMetrics =>
    exact ⟨h.1.mono hgrows, fun readLogId hwaited => (h.2 _ hwaited).mono_current hgrows⟩
  | leaseFlag => exact Leased.mono hgrows hgrows.now h
  | leaseClock => exact ⟨h.1.mono hgrows hgrows.now, h.2⟩
  | leaseSignals =>
    obtain ⟨hleased, hretired, hbegan, hnow, hdecided⟩ := h
    exact ⟨hleased.mono hgrows le_rfl, hretired, hbegan, hnow.trans hgrows.now, hdecided⟩
  | leaseWait => exact Backs.mono hgrows h
  | acquiring | sending => exact Nat.le_trans h hgrows.now
  | awaiting => exact getElem?_of_grows hgrows.asked h
  | readyMetrics | roundWait => exact Answers.mono hgrows h
  | readySignals => exact ⟨h.1.mono hgrows, h.2.mono hgrows hgrows.now⟩
  | remembering =>
    exact ⟨h.1.mono hgrows, h.2.1.mono hgrows hgrows.now, h.2.2.mono hgrows⟩
  | roundMetrics => exact ⟨h.1.mono hgrows, h.2.mono_current hgrows⟩
  | roundSignals =>
    obtain ⟨hbegun, hshows, hseen, place, hfinishes, hafter⟩ := h
    exact ⟨hbegun, hshows.mono hgrows, hseen.mono hgrows hgrows.now, place,
      hfinishes.mono hgrows, hafter.mono hgrows hgrows.now⟩
  | deciding | admitted => exact Admits.mono hgrows h
  | started | loadLease | stamping | forgetting | failed => trivial

end Stable

/-- The facts of a call, whatever its phase. -/
structure Holds (shared : Shared ν) (call : Call ν) : Prop where
  begun : call.entry.begun ≤ shared.started.length
  since : call.entry.since < shared.shown.length
  began : call.entry.beganAt ≤ shared.now
  retired : call.entry.retired = true → shared.leaseReuseDisabled = true
  reaches : shared.Reaches call.entry call.phase

theorem Holds.mono (hgrows : Grows shared later) (h : shared.Holds call) : later.Holds call :=
  ⟨h.begun.trans hgrows.started.length_le,
    h.since.trans_le hgrows.shown.length_le, h.began.trans hgrows.now,
    fun hretired => hgrows.disabled (h.retired hretired), h.reaches.mono hgrows⟩

/-- A request waits for a check that is yet to start. -/
def Queued (shared : Shared ν) (channel : ℕ) : Prop :=
  ∃ begun requestedAt, shared.asked[channel]? = some (begun, requestedAt) ∧
    begun ≤ shared.started.length ∧ requestedAt ≤ shared.now

theorem Queued.mono (hgrows : Grows shared later) (h : shared.Queued channel) :
    later.Queued channel := by
  obtain ⟨begun, requestedAt, hasked, hbegun, hnow⟩ := h
  exact ⟨begun, requestedAt, getElem?_of_grows hgrows.asked hasked,
    hbegun.trans hgrows.started.length_le, hnow.trans hgrows.now⟩

/-- At most one check is running, and it serves its cohort. -/
def Works (shared : Shared ν) (worker : Worker ν) : Prop :=
  (∀ channel ∈ worker.cohort, shared.Serves (shared.started.length - 1) channel) ∧
  match worker with
  | .idle => shared.started.length = shared.finished.length
  | .checking check _ => check = shared.finished.length ∧ shared.started.length = check + 1
  | .answering check outcome _ => shared.started.length = check + 1 ∧
    shared.finished.length = check + 1 ∧ ∃ place, shared.Finishes check outcome place

end Shared

open Shared

structure Barrier.Sound (capacity : ℕ) (barrier : Barrier ν) : Prop where
  permits : barrier.calls.total Call.holding + barrier.queue.length +
    barrier.worker.cohort.length + barrier.permits = capacity
  works : barrier.Works barrier.worker
  queue : ∀ channel ∈ barrier.queue, barrier.Queued channel
  replies : ∀ channel check outcome, barrier.replies.find channel = some (check, outcome) →
    (∃ place, barrier.Finishes check outcome place) ∧ barrier.Serves check channel
  current : ∃ shownAt ≤ barrier.now, barrier.shown.getLast? = some (shownAt, barrier.metrics)
  leaseProof : ∀ proof, barrier.leaseProof = some proof → barrier.Backs proof
  calls : ∀ id call, barrier.calls.find id = some call → barrier.Holds call

namespace Barrier.Sound

variable (hsound : barrier.Sound capacity)

include hsound

theorem seen_current {place : ℕ} (hplace : place < barrier.shown.length) :
    barrier.Seen place barrier.now barrier.metrics := by
  obtain ⟨shownAt, hnow, hlast⟩ := hsound.current
  obtain ⟨_, hshown⟩ := getLast?_eq_some_iff.mp hlast
  refine ⟨shownAt, hnow, ?_⟩
  rw [hshown, length_append, length_singleton, Nat.lt_succ_iff] at hplace
  rw [hshown, drop_append_of_le_length hplace]
  exact mem_append_right _ (mem_singleton_self _)

/-- A step that extends the history. -/
theorem observe {queue : List ℕ} {worker : Worker ν} {total : ℕ}
    (hgrows : Grows barrier.toShared shared)
    (hpermits : barrier.calls.total Call.holding + queue.length + worker.cohort.length +
      barrier.permits = total) (hworks : shared.Works worker)
    (hqueue : ∀ channel ∈ queue, channel ∈ barrier.queue ∨ shared.Queued channel)
    (hcurrent : ∃ shownAt ≤ shared.now, shared.shown.getLast? = some (shownAt, shared.metrics)) :
    Barrier.Sound total { barrier with toShared := shared, queue := queue, worker := worker } where
  permits := hpermits
  works := hworks
  queue _ hchannel :=
    (hqueue _ hchannel).elim (fun hold => (hsound.queue _ hold).mono hgrows) id
  replies _ _ _ hreply := (hsound.replies _ _ _ hreply).imp
    (Exists.imp fun _ => Finishes.mono hgrows) (Serves.mono hgrows)
  current := hcurrent
  leaseProof _ hproof := (hsound.leaseProof _ hproof).mono hgrows
  calls id _ hfind := (hsound.calls id _ hfind).mono hgrows

theorem setCall {id total : ℕ} (hholds : barrier.Holds call)
    (htotal : call.holding + capacity = barrier.calls.weightAt Call.holding id + total) :
    (barrier.setCall id call).Sound total :=
  { hsound with
    permits := by
      have hpermits := hsound.permits
      have hinsert := barrier.calls.total_insert Call.holding id call
      dsimp only [Barrier.setCall]
      omega
    calls := fun caller other hother => by
      simp only [Barrier.setCall, Table.find_insert] at hother
      split_ifs at hother
      · exact Option.some.inj hother ▸ hholds
      · exact hsound.calls _ _ hother }

end Barrier.Sound

theorem reached_of_not_regresses {before after : RaftMetrics ν}
    (hkept : before.regresses after = false)
    (hreached : before.reached readLogId = true) : after.reached readLogId = true := by
  cases readLogId with
  | none => rfl
  | some =>
    simp only [RaftMetrics.regresses, Bool.not_eq_false', RaftMetrics.reached,
      Option.any_eq_true, decide_eq_true_eq] at hkept hreached ⊢
    obtain ⟨_, hbefore, hindex⟩ := hreached
    rw [hbefore] at hkept
    simp only [Option.any_eq_true, decide_eq_true_eq] at hkept
    exact hkept.imp fun _ hafter => ⟨hafter.1, hindex.trans hafter.2⟩

theorem waitForAppliedIndex_reaches {next : Phase ν} (hstay : barrier.Reaches call.entry call.phase)
    (hnext : barrier.Shows barrier.metrics readLogId → barrier.Reaches call.entry next) :
    barrier.Reaches call.entry (waitForAppliedIndex barrier call readLogId next) := by
  unfold waitForAppliedIndex
  split_ifs with hreached
  · exact hnext fun _ => hreached
  · trivial
  · exact hstay

theorem effect_grows : Grows barrier.toShared (effect barrier call).toShared := by
  unfold effect
  split
  on_goal 2 => split_ifs
  on_goal 4 => split_ifs
  on_goal 2 => exact { Grows.refl with asked := prefix_append _ _ }
  all_goals exact .refl

theorem effect_sound (hsound : barrier.Sound capacity) (hholds : barrier.Holds call) {total : ℕ}
    (htotal : (effect barrier call).queue.length + (effect barrier call).permits + capacity =
      barrier.queue.length + barrier.permits + total) : (effect barrier call).Sound total := by
  have hpermits := hsound.permits
  have hreaches := hholds.reaches
  cases hphase : call.phase with
  | acquiring =>
    simp only [effect, hphase] at htotal ⊢
    exact { hsound with permits := by dsimp only; omega }
  | sending requestedAt =>
    rw [hphase] at hreaches
    simp only [effect, hphase] at htotal ⊢
    split_ifs at htotal ⊢
    · simp only [length_append, length_singleton] at htotal
      have hgrows : Grows barrier.toShared { barrier.toShared with
          asked := barrier.asked ++ [(call.entry.begun, requestedAt)] } :=
        { Grows.refl with asked := prefix_append _ _ }
      refine hsound.observe hgrows ?_
        ⟨fun channel hchannel => (hsound.works.1 _ hchannel).mono hgrows, hsound.works.2⟩
        (fun channel hchannel => (mem_append.mp hchannel).imp_right fun hnew => ?_)
        hsound.current
      · rw [length_append, length_singleton]
        omega
      · obtain rfl := mem_singleton.mp hnew
        exact ⟨call.entry.begun, requestedAt, getElem?_concat_length, hholds.begun, hreaches⟩
    · exact { hsound with permits := by omega }
  | remembering =>
    rw [hphase] at hreaches
    obtain ⟨hanswers, hshown, hleads⟩ := hreaches
    simp only [effect, hphase] at htotal ⊢
    split_ifs at htotal ⊢
    · refine { hsound with permits := by dsimp only at htotal ⊢; omega, leaseProof := ?_ }
      rintro _ ⟨⟩
      exact ⟨rfl, hanswers.2.1, hanswers.2.2, hshown, hleads⟩
    · exact { hsound with permits := by omega }
  | forgetting =>
    simp only [effect, hphase] at htotal ⊢
    exact { hsound with permits := by dsimp only; omega, leaseProof := by simp }
  | _ =>
    simp only [effect, hphase] at htotal ⊢
    exact { hsound with permits := by omega }

variable [DecidableEq ν]

theorem localLeaderTerm_eq_ok (h : localLeaderTerm barrier metrics = .ok term) :
    barrier.Leads metrics term := by
  unfold localLeaderTerm at h
  split_ifs at h with hrunning hleader
  cases h
  simp only [not_or, Bool.not_eq_false, not_not] at hrunning hleader
  exact ⟨hrunning.2, hleader.1, hleader.2, rfl⟩

theorem requireSameLocalLeader_eq_ok (h : requireSameLocalLeader barrier metrics term = .ok ()) :
    barrier.Leads metrics term := by
  obtain ⟨_, hcurrent, hsame⟩ := bind_eq_ok h
  split_ifs at hsame with hterm
  exact not_not.mp hterm ▸ localLeaderTerm_eq_ok hcurrent

theorem admitStep_reaches (hsound : barrier.Sound capacity) (hholds : barrier.Holds call) :
    (effect barrier call).Reaches call.entry (admitStep barrier call) := by
  have hcurrent := hsound.seen_current hholds.since
  have hgrows := @effect_grows ν barrier call
  obtain ⟨_, phase, entry⟩ := call
  have hstay := hholds.reaches
  cases phase with
  | sending =>
    simp only [admitStep, effect]
    split_ifs
    · exact getElem?_concat_length
    · exact hstay
  | started =>
    simp only [admitStep]
    split_ifs <;> trivial
  | loadLease =>
    simp only [admitStep]
    split
    · trivial
    · next proof hproof => exact ⟨hsound.leaseProof proof hproof, by simp⟩
  | leaseMetrics => exact ⟨hstay.1, hcurrent, hstay.2⟩
  | leaseFlag =>
    simp only [admitStep]
    split_ifs with hdisabled
    · trivial
    · exact ⟨hstay, Bool.eq_false_iff.mpr fun hretired => hdisabled (hholds.retired hretired)⟩
  | leaseClock =>
    simp only [admitStep]
    split_ifs with hexpired
    · trivial
    · exact ⟨hstay.1, hstay.2, hholds.began, le_rfl, Nat.lt_of_not_le hexpired⟩
  | leaseSignals =>
    obtain ⟨hleased, hretired, hbegan, hnow, hdecided⟩ := hstay
    simp only [admitStep]
    split
    · trivial
    · next hleads =>
      split_ifs
      · split
        · exact hleased.backs
        · next readLogId hwaited =>
          refine ⟨hleased.seen.mono .refl hnow, requireSameLocalLeader_eq_ok hleads,
            hleased.shows _ hwaited, by simp, ?_⟩
          rintro _ _ ⟨⟩
          exact ⟨hleased.backs, rfl, hbegan, hleased.seen, hnow,
            hleased.backs.expires ▸ hdecided, hretired⟩
      · trivial
  | leaseWait =>
    exact waitForAppliedIndex_reaches hstay fun hshows =>
      ⟨hstay, fun _ hwaited => Option.some.inj hwaited ▸ hshows⟩
  | stamping =>
    simp only [admitStep]
    split_ifs
    · trivial
    · exact Nat.le_refl barrier.now
  | deciding =>
    simp only [admitStep]
    split_ifs
    · trivial
    · exact hstay
  | acquiring =>
    simp only [admitStep]
    split_ifs <;> exact hstay
  | awaiting =>
    simp only [admitStep]
    split
    · exact hstay
    · next _ readLogId hreply =>
      obtain ⟨hready, _, _, hasked, hbegun, hrequested⟩ := hsound.replies _ _ _ hreply
      cases Option.some.inj (hstay.symm.trans hasked)
      exact ⟨hbegun, hready, hrequested⟩
    · trivial
    · trivial
  | readyMetrics =>
    exact ⟨hstay, hsound.seen_current (Nat.zero_lt_of_lt hholds.since)⟩
  | readySignals =>
    simp only [admitStep]
    split
    · trivial
    · next term hterm => exact ⟨hstay.1, hstay.2, localLeaderTerm_eq_ok hterm⟩
  | remembering => exact hstay.1.mono hgrows
  | roundWait =>
    exact waitForAppliedIndex_reaches hstay fun hshows => ⟨hstay, hshows⟩
  | roundMetrics =>
    obtain ⟨⟨hbegun, ⟨place, hfinishes⟩, -⟩, hshows⟩ := hstay
    exact ⟨hbegun, hshows, hcurrent, place, hfinishes, hsound.seen_current hfinishes.2⟩
  | roundSignals =>
    obtain ⟨hbegun, hshows, hseen, hafter⟩ := hstay
    simp only [admitStep]
    split
    · trivial
    · next hleads =>
      refine ⟨hseen, requireSameLocalLeader_eq_ok hleads, hshows, ?_, by simp⟩
      rintro _ ⟨⟩
      exact ⟨hbegun, hafter⟩
  | forgetting | failed => trivial
  | admitted => exact hstay

theorem effect_permits :
    Call.holding { call with phase := admitStep barrier call } +
        (effect barrier call).queue.length + (effect barrier call).permits =
      call.holding + barrier.queue.length + barrier.permits := by
  obtain ⟨_, phase, _⟩ := call
  all_goals simp only [admitStep, effect, waitForAppliedIndex, Call.holding]
  all_goals repeat' split
  all_goals grind

section

variable (hsound : barrier.Sound capacity)
include hsound

theorem advance_sound {id : ℕ} (hfind : barrier.calls.find id = some call) :
    ((effect barrier call).setCall id { call with phase := admitStep barrier call }).Sound
      capacity := by
  have hholds := hsound.calls id _ hfind
  have hpermits := hsound.permits
  have hmoved := @effect_permits ν barrier call _
  obtain ⟨hbegun, hsince, hbegan, hretired, -⟩ := hholds.mono (@effect_grows ν barrier call)
  have hcalls : (effect barrier call).calls = barrier.calls := by
    unfold effect
    split
    on_goal 2 => split_ifs
    on_goal 4 => split_ifs
    all_goals rfl
  obtain ⟨total, htotal⟩ : ∃ total,
      total + Call.holding { call with phase := admitStep barrier call } =
        capacity + call.holding := ⟨_, Nat.sub_add_cancel (by omega)⟩
  refine (@effect_sound ν capacity barrier call hsound hholds total (by omega)).setCall
    ⟨hbegun, hsince, hbegan, hretired, admitStep_reaches hsound hholds⟩ ?_
  rw [hcalls, Table.weightAt_of_find hfind]
  omega

theorem receive_sound : (step barrier .receive).Sound capacity := by
  have hpermits := hsound.permits
  obtain ⟨-, hworks⟩ := hsound.works
  simp only [step]
  split
  · next _ _ hworker _ =>
    simp only [hworker, Worker.cohort, length_nil] at hworks hpermits
    have hgrows : Grows barrier.toShared { barrier.toShared with
        started := barrier.started ++ [barrier.now] } :=
      { Grows.refl with started := prefix_append _ _ }
    refine hsound.observe hgrows ?_ ⟨fun channel hchannel => ?_, by simpa using hworks⟩
      (fun _ hchannel => .inl (mem_of_mem_drop hchannel)) hsound.current
    · simp only [Worker.cohort, length_drop, length_take]
      omega
    · obtain ⟨begun, requestedAt, hasked, hbegun, hnow⟩ :=
        hsound.queue _ (mem_of_mem_take hchannel)
      exact ⟨begun, requestedAt, hasked, by simpa using hbegun, barrier.now, by simp, hnow⟩
  · exact hsound

theorem finish_sound (outcome : EnsureLinearizableOutcome ν) :
    (step barrier (.finish outcome)).Sound capacity := by
  have hpermits := hsound.permits
  obtain ⟨hserves, hworks⟩ := hsound.works
  simp only [step]
  split
  · next _ _ hworker =>
    simp only [hworker] at hworks hserves hpermits
    obtain ⟨rfl, hstarted⟩ := hworks
    have hgrows : Grows barrier.toShared { barrier.toShared with
        finished := barrier.finished ++ [(outcome, barrier.shown.length - 1)] } :=
      { Grows.refl with finished := prefix_append _ _ }
    have hplace : barrier.shown.length - 1 < barrier.shown.length := by
      obtain ⟨_, -, hlast⟩ := hsound.current
      obtain ⟨_, hshown⟩ := getLast?_eq_some_iff.mp hlast
      simp [hshown]
    exact hsound.observe hgrows hpermits
      ⟨fun channel hchannel => (hserves _ hchannel).mono hgrows, hstarted,
        by simp, barrier.shown.length - 1, by simp, hplace⟩
      (fun _ => .inl) hsound.current
  · exact hsound

theorem answer_sound : (step barrier .answer).Sound capacity := by
  have hpermits := hsound.permits
  obtain ⟨hserves, hworks⟩ := hsound.works
  simp only [step]
  split
  · next check outcome hworker =>
    simp only [hworker] at hworks hpermits
    exact { hsound with
      permits := hpermits
      works := ⟨by simp [Worker.cohort], hworks.1.trans hworks.2.1.symm⟩ }
  · next check outcome _ cohort hworker =>
    simp only [hworker, Worker.cohort, length_cons] at hworks hserves hpermits
    refine { hsound with
      permits := by simp only [Worker.cohort]; omega
      works := ⟨fun other hother => hserves _ (mem_cons_of_mem _ hother), hworks⟩
      replies := fun other number answer hreply => ?_ }
    simp only [Table.find_insert] at hreply
    split_ifs at hreply with hother
    · subst hother
      cases hreply
      have hserved := hserves _ mem_cons_self
      rw [hworks.1] at hserved
      exact ⟨hworks.2.2, hserved⟩
    · exact hsound.replies _ _ _ hreply
  · exact hsound

theorem step_sound (action : Action ν) : (step barrier action).Sound capacity := by
  have hpermits := hsound.permits
  cases action with
  | begin =>
    simp only [step]
    split_ifs with habsent
    · obtain ⟨_, -, hlast⟩ := hsound.current
      obtain ⟨_, hshown⟩ := getLast?_eq_some_iff.mp hlast
      refine hsound.setCall
        ⟨le_rfl, by simp [hshown], le_rfl, fun hretired => hretired, trivial⟩ ?_
      rw [Table.weightAt_of_absent habsent]
      rfl
    · exact hsound
  | advance id =>
    simp only [step]
    cases hfind : barrier.calls.find id with
    | none => exact hsound
    | some => exact advance_sound hsound hfind
  | lapse id =>
    simp only [step]
    cases hfind : barrier.calls.find id with
    | none => exact hsound
    | some call =>
      dsimp only
      split
      · exact hsound
      · next phase _ =>
        split_ifs
        · obtain rfl : phase = .forgetting .unavailable := by
            cases hphase : call.phase <;> simp_all [Phase.lapsed]
          obtain ⟨hbegun, hsince, hbegan, hretired, -⟩ := hsound.calls id _ hfind
          have hreleased : Barrier.Sound (capacity + call.holding)
              { barrier with permits := barrier.permits + call.holding } :=
            { hsound with permits := by dsimp only; omega }
          refine hreleased.setCall ⟨hbegun, hsince, hbegan, hretired, trivial⟩ ?_
          rw [Table.weightAt_of_find hfind, Nat.add_comm capacity]
          exact Nat.zero_add _
        · exact hsound
  | cancel id =>
    simp only [step]
    cases hfind : barrier.calls.find id with
    | none => exact hsound
    | some =>
      have htotal := barrier.calls.total_erase Call.holding id
      rw [Table.weightAt_of_find hfind] at htotal
      refine { hsound with
        permits := by dsimp only; omega
        calls := fun caller other hother => ?_ }
      simp only [Table.find_erase] at hother
      split_ifs at hother
      exact hsound.calls _ _ hother
  | tick elapsed =>
    have hgrows : Grows barrier.toShared { barrier.toShared with now := barrier.now + elapsed } :=
      { Grows.refl with now := Nat.le_add_right _ _ }
    obtain ⟨shownAt, hnow, hlast⟩ := hsound.current
    exact hsound.observe hgrows hpermits hsound.works (fun _ => .inl)
      ⟨shownAt, hnow.trans hgrows.now, hlast⟩
  | publish metrics =>
    have hgrows : Grows barrier.toShared (step barrier (.publish metrics)).toShared := by
      refine { Grows.refl with shown := prefix_append _ _, applied := fun hregressed => ?_ }
      obtain ⟨hbefore, hkept⟩ := Bool.or_eq_false_iff.mp hregressed
      exact ⟨hbefore, fun _ => reached_of_not_regresses hkept⟩
    have hworks : (step barrier (.publish metrics)).Works barrier.worker := by
      obtain ⟨hserves, hworker⟩ := hsound.works
      refine ⟨fun channel hchannel => (hserves _ hchannel).mono hgrows, ?_⟩
      cases hphase : barrier.worker with
      | idle | checking =>
        rw [hphase] at hworker
        exact hworker
      | answering =>
        rw [hphase] at hworker
        exact ⟨hworker.1, hworker.2.1, hworker.2.2.imp fun _ => Finishes.mono hgrows⟩
    exact hsound.observe hgrows hpermits hworks (fun _ => .inl)
      ⟨barrier.now, le_rfl, getLast?_concat⟩
  | close => exact { hsound with }
  | disableLeaseReuse =>
    have hgrows : Grows barrier.toShared { barrier.toShared with leaseReuseDisabled := true } :=
      { Grows.refl with disabled := fun _ => rfl }
    exact hsound.observe hgrows hpermits hsound.works (fun _ => .inl) hsound.current
  | forgetLease => exact { hsound with leaseProof := by simp [step] }
  | receive => exact receive_sound hsound
  | finish => exact finish_sound hsound _
  | answer => exact answer_sound hsound

end

end PacketCore.Consensus
