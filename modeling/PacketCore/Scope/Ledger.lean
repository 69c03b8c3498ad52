import PacketCore.Scope.Store

/-!
# Authority and ledger over whole runs

Every step of a scope store leaves it alone, changes its authority, or commits
one terminal outcome.  From that single inversion follow the two invariants of
this file: stored receipts stay compatible with whatever authority comes next,
and the trace holds at most one terminal outcome for a lane and a sequence.
-/

namespace PacketCore.Scope

open ScopeBatchCheckpoint ScopeState List

def ScopeEvent.terminal : ScopeEvent → ScopeBatchTerminal
  | applied _ _ outcome => .applied outcome
  | cancelled _ => .cancelled

variable {codec : Codec}

/-! ## What the ledger functions accept -/

variable {attempt : ScopeBatchAttempt} {lane : ScopeBatchLaneCheckpoint}
  {receipt : ScopeBatchReceipt} {plan : ScopeBatchPlan} {stamp : ScopeAuthorityStamp}
  {scope : ScopeId} {terminal : ScopeBatchTerminal} {authority : ScopeState}

theorem ScopeBatchAttempt.laneKey_eq_ok {key : LaneAttemptKey}
    (hok : attempt.laneKey codec = .ok key) :
    attempt.validate = .ok () ∧
      key = ⟨attempt.sequence, attempt.requestId, codec.attemptDigest attempt⟩ := by
  obtain ⟨_, hvalid, hok⟩ := bind_eq_ok hok
  exact ⟨hvalid, (Except.ok.inj hok).symm⟩

theorem ScopeBatchLaneCheckpoint.frontier_eq_ok {frontier : LaneFrontier}
    (hok : lane.frontier codec = .ok frontier) :
    frontier.sequence = lane.sequence ∧ frontier.discardedThrough = lane.floor ∧
      (∀ receipt, lane.receipt = some receipt → frontier.retained = some
        ⟨receipt.attempt.sequence, receipt.attempt.requestId,
          codec.attemptDigest receipt.attempt⟩) ∧
      (lane.receipt = none → frontier.retained = none) := by
  unfold ScopeBatchLaneCheckpoint.frontier at hok
  split at hok
  · next receipt hreceipt =>
    obtain ⟨_, hkey, hok⟩ := bind_eq_ok hok
    cases hok
    obtain ⟨-, rfl⟩ := ScopeBatchAttempt.laneKey_eq_ok hkey
    refine ⟨rfl, rfl, fun other hother => ?_, fun hnone => ?_⟩
    · rw [Option.some.inj (hother.symm.trans hreceipt)]
    · cases hnone.symm.trans hreceipt
  · next hnone =>
    cases hok
    refine ⟨rfl, rfl, fun other hother => ?_, fun _ => rfl⟩
    cases hnone.symm.trans hother

variable {fenced : Bool}
  {answer : ScopeBatchLookup} {after before : ScopeBatchCheckpoint} {event : ScopeEvent}
  {request : ScopeAuthorityRequest} {current : ScopeAuthorityStamp} {state : ScopeState}

namespace LaneFrontier

variable {frontier next : LaneFrontier} {attempt : LaneAttemptKey}

theorem nextSequence_eq_ok {sequence : ℕ} (hok : frontier.nextSequence = .ok sequence) :
    sequence = frontier.sequence + 1 := by
  obtain ⟨_, -, hok⟩ := bind_eq_ok hok
  exact (nextCounter_eq_some (okOr_eq_ok.mp hok)).1

theorem advance_eq_ok (hok : frontier.advance attempt = .ok next) :
    attempt.sequence = frontier.sequence + 1 ∧
      next = ⟨attempt.sequence, attempt.sequence - 1, some attempt⟩ := by
  obtain ⟨_, -, hok⟩ := bind_eq_ok hok
  obtain ⟨sequence, hsequence, hok⟩ := bind_eq_ok hok
  obtain ⟨hequal, hok⟩ := refuseIf_bind hok
  refine ⟨?_, (Except.ok.inj hok).symm⟩
  rw [not_not.mp hequal]
  exact nextSequence_eq_ok hsequence

end LaneFrontier

namespace ScopeBatchCheckpoint

variable {checkpoint successor : ScopeBatchCheckpoint}

theorem mem_receipts :
    receipt ∈ checkpoint.receipts ↔ ∃ lane, (checkpoint.lanes lane).receipt = some receipt := by
  simp [receipts]

/-- What an answer says about the lane of the attempt. -/
def Answers (checkpoint : ScopeBatchCheckpoint) (attempt : ScopeBatchAttempt) (fenced : Bool) :
    ScopeBatchLookup → Prop
  | .applied outcome => ∃ revision, (checkpoint.lane attempt.lane).receipt =
      some ⟨attempt, revision, .applied outcome⟩
  | .cancelled => ∃ revision, (checkpoint.lane attempt.lane).receipt =
      some ⟨attempt, revision, .cancelled⟩
  | .notApplied =>
    (∀ receipt, (checkpoint.lane attempt.lane).receipt = some receipt → receipt.attempt ≠ attempt) ∧
    (checkpoint.lane attempt.lane).floor < attempt.sequence ∧
    (attempt.sequence = (checkpoint.lane attempt.lane).sequence ∨ fenced = true)
  | .notRecorded | .pruned => True

/-- The successor that a terminal receipt makes of a checkpoint. -/
structure Records (before after : ScopeBatchCheckpoint)
    (attempt : ScopeBatchAttempt) (terminal : ScopeBatchTerminal) : Prop where
  valid : attempt.validate = .ok ()
  sequence : attempt.sequence = (before.lane attempt.lane).sequence + 1
  scope : after.scope = before.scope
  revision : after.revision = before.revision + 1
  lanes : after.lanes = Function.update before.lanes (Fin.ofNat 8 attempt.lane)
    ⟨attempt.sequence - 1, attempt.sequence, some ⟨attempt, after.revision, terminal⟩⟩

theorem recordTerminal_eq_ok {revision : ℕ}
    (hok : checkpoint.recordTerminal codec attempt revision terminal = .ok successor) :
    checkpoint.Records successor attempt terminal ∧ successor.validateStored codec = .ok () ∧
      successor.birthFloor = checkpoint.birthFloor ∧
      successor.counters = checkpoint.counters := by
  obtain ⟨expected, hexpected, hok⟩ := okOr_bind hok
  obtain ⟨hrevision, hok⟩ := refuseIf_bind hok
  obtain ⟨_, hcurrent, hok⟩ := bind_eq_ok hok
  obtain ⟨_, hkey, hok⟩ := bind_eq_ok hok
  obtain ⟨_, hfrontier, hok⟩ := bind_eq_ok hok
  obtain ⟨_, hstored, hok⟩ := bind_eq_ok hok
  cases hok
  obtain rfl : revision = expected := not_not.mp hrevision
  obtain ⟨hvalid, rfl⟩ := ScopeBatchAttempt.laneKey_eq_ok hkey
  obtain ⟨hsequence, rfl⟩ := LaneFrontier.advance_eq_ok (mapError_eq_ok.mp hfrontier)
  rw [(ScopeBatchLaneCheckpoint.frontier_eq_ok hcurrent).1] at hsequence
  exact ⟨⟨hvalid, hsequence, rfl, (nextCounter_eq_some hexpected).1, rfl⟩, hstored, rfl, rfl⟩

end ScopeBatchCheckpoint

/-! ## What a plan does -/

/-- A batch that is not a replay: its comparisons held, its rows were staged
and its receipt was recorded. -/
structure ScopeBatchRequest.Applies (codec : Codec) (request : ScopeBatchRequest)
    (authority : ScopeState) (checkpoint : ScopeBatchCheckpoint)
    (read : SessionKey → Except ScopeBatchError (Option ScopeRow)) (plan : ScopeBatchPlan)
    (attempt : ScopeBatchAttempt) (predecessors : List (Option ScopeChildRecord))
    (staging : Staging) (outcome : ScopeBatchOutcome) : Prop where
  attempt_eq : request.attempt codec = .ok attempt
  stamp : authority.checkStamp request.stamp = .ok ()
  compared : compareRows codec request.stamp.ns read request checkpoint = .ok predecessors
  staged : stageRows codec request.stamp.ns read request checkpoint (checkpoint.revision + 1)
    predecessors = .ok staging
  versions : outcome.rows = staging.versions
  records : checkpoint.Records plan.checkpoint attempt (.applied outcome)
  stored : plan.checkpoint.validateStored codec = .ok ()
  birthFloor : plan.checkpoint.birthFloor = staging.birthFloor
  rows : plan.rows = staging.rows.insert (batchKey request.stamp.scope) (.batch plan.checkpoint)

theorem ScopeBatchRequest.plan_eq_ok {request : ScopeBatchRequest}
    {checkpoint : ScopeBatchCheckpoint}
    {read : SessionKey → Except ScopeBatchError (Option ScopeRow)}
    (hok : request.plan codec authority checkpoint read = .ok plan) :
    plan = ⟨checkpoint, .empty⟩ ∨ ∃ attempt predecessors staging outcome,
      request.Applies codec authority checkpoint read plan attempt predecessors staging
        outcome := by
  iterate 2 obtain ⟨_, -, hok⟩ := bind_eq_ok hok
  obtain ⟨replayed, -, hok⟩ := bind_eq_ok hok
  cases replayed with
  | true => exact .inl (Except.ok.inj hok).symm
  | false =>
    obtain ⟨_, -, hok⟩ := bind_eq_ok hok
    obtain ⟨_, hstamp, hok⟩ := bind_eq_ok hok
    obtain ⟨revision, hrevision, hok⟩ := okOr_bind hok
    obtain ⟨predecessors, hcompared, hok⟩ := bind_eq_ok hok
    obtain ⟨staging, hstaged, hok⟩ := bind_eq_ok hok
    obtain ⟨_, -, hok⟩ := bind_eq_ok hok
    obtain ⟨attempt, hattempt, hok⟩ := bind_eq_ok hok
    obtain ⟨_, hsuccessor, hok⟩ := bind_eq_ok hok
    cases hok
    obtain ⟨rfl, -⟩ := nextCounter_eq_some hrevision
    obtain ⟨hrecords, hstored, hfloor, -⟩ := recordTerminal_eq_ok hsuccessor
    exact .inr ⟨attempt, predecessors, staging, _, hattempt, mapError_eq_ok.mp hstamp,
      hcompared, hstaged, rfl, { hrecords with }, hstored, hfloor, rfl⟩

theorem ScopeBatchAttempt.planCancel_eq_ok {checkpoint : ScopeBatchCheckpoint}
    (hok : attempt.planCancel codec authority checkpoint = .ok plan) :
    plan = ⟨checkpoint, .empty⟩ ∨ authority.checkStamp attempt.stamp = .ok () ∧
      checkpoint.Records plan.checkpoint attempt .cancelled ∧
      plan.checkpoint.validateStored codec = .ok () ∧
      plan.checkpoint.birthFloor = checkpoint.birthFloor ∧
      plan.rows = Table.empty.insert (batchKey checkpoint.scope) (.batch plan.checkpoint) := by
  iterate 3 obtain ⟨_, -, hok⟩ := bind_eq_ok hok
  split at hok
  · exact .inl (Except.ok.inj hok).symm
  · exact .inl (Except.ok.inj hok).symm
  · obtain ⟨_, hstamp, hok⟩ := bind_eq_ok hok
    obtain ⟨_, -, hok⟩ := bind_eq_ok hok
    obtain ⟨_, hsuccessor, hok⟩ := bind_eq_ok hok
    cases hok
    obtain ⟨hrecords, hstored, hfloor, -⟩ := recordTerminal_eq_ok hsuccessor
    exact .inr ⟨mapError_eq_ok.mp hstamp, hrecords, hstored, hfloor, by rw [hrecords.scope]⟩

/-! ## What a step does -/

variable {store next later : ScopeStore} {input : ScopeInput}

namespace ScopeStore

/-- One terminal outcome is committed. -/
structure Commit (codec : Codec) (store next : ScopeStore) (authority : ScopeState)
    (before after : ScopeBatchCheckpoint) (event : ScopeEvent) : Prop where
  authority_eq : store.authority = some authority
  before_eq : store.checkpoint = some before
  scope_eq : before.scope = store.scope
  stamp : authority.checkStamp event.attempt.stamp = .ok ()
  records : before.Records after event.attempt event.terminal
  stored : after.validateStored codec = .ok ()
  bound : ∀ request attempt outcome, event = .applied request attempt outcome →
    request.attempt codec = .ok attempt
  after_eq : next.checkpoint = some after
  rest : next = { store with rows := next.rows, trace := store.trace ++ [event] }

theorem prepare_eq_ok {current : ScopeState × ScopeBatchCheckpoint}
    (hok : store.prepare = .ok current) :
    store.authority = some current.1 ∧ store.checkpoint = some current.2 ∧
      current.2.scope = store.scope := by
  obtain ⟨authority, hauthority, hok⟩ := okOr_bind hok
  obtain ⟨checkpoint, hcheckpoint, hok⟩ := okOr_bind hok
  obtain ⟨hscope, hok⟩ := refuseIf_bind hok
  cases hok
  exact ⟨hauthority, hcheckpoint, not_not.mp hscope⟩

theorem publish_replay {checkpoint : ScopeBatchCheckpoint}
    (hok : store.publish codec checkpoint ⟨checkpoint, .empty⟩ event = .ok next) :
    next = store := by
  cases hok
  simp

/-- Publishing a recorded receipt adds one event. -/
theorem publish_eq_ok {checkpoint : ScopeBatchCheckpoint}
    (hadvances : plan.checkpoint.revision = checkpoint.revision + 1)
    (hok : store.publish codec checkpoint plan event = .ok next) :
    next = { store with
      rows := store.rows.overlay plan.rows ∅, trace := store.trace ++ [event] } := by
  obtain ⟨_, -, hok⟩ := bind_eq_ok hok
  cases hok
  rw [if_neg (by omega)]

/-- The ledger row a plan publishes is the ledger of the next store. -/
theorem checkpoint_overlay {plan : Table SessionKey ScopeRow}
    (hfind : plan.find (batchKey store.scope) = some (.batch after)) (trace : List ScopeEvent) :
    checkpoint { store with rows := store.rows.overlay plan ∅, trace := trace } = some after := by
  simp [checkpoint, hfind]

theorem receipt_records (hrecords : before.Records after attempt terminal) :
    after.receipt attempt.lane = some ⟨attempt, after.revision, terminal⟩ := by
  rw [receipt, lane, hrecords.lanes]
  simp

/-- An accepted batch that is not a replay, with its plan. -/
structure ApplyStep (codec : Codec) (store next : ScopeStore) (request : ScopeBatchRequest)
    (authority : ScopeState) (before after : ScopeBatchCheckpoint) (attempt : ScopeBatchAttempt)
    (predecessors : List (Option ScopeChildRecord)) (staging : Staging)
    (outcome : ScopeBatchOutcome) : Prop where
  commit : Commit codec store next authority before after (.applied request attempt outcome)
  scope_eq : request.stamp.scope = store.scope
  applies : ∃ plan : ScopeBatchPlan, plan.checkpoint = after ∧
    request.Applies codec authority before (fun key => .ok (store.rows.find key)) plan attempt
      predecessors staging outcome
  rows : next.rows = store.rows.overlay
    (staging.rows.insert (batchKey store.scope) (.batch after)) ∅

theorem apply_cases {request : ScopeBatchRequest}
    (hok : store.step codec (.apply request) = .ok next) :
    next = store ∨ ∃ authority before after attempt predecessors staging outcome,
      ApplyStep codec store next request authority before after attempt predecessors staging
        outcome := by
  obtain ⟨_, hscope, hok⟩ := bind_eq_ok hok
  have hscope := not_not.mp (refuseIf_eq_ok.mp hscope)
  split at hok
  · next _ hplanned =>
    obtain ⟨current, hcurrent, hplanned⟩ := bind_eq_ok hplanned
    obtain ⟨plan, hplan, hplanned⟩ := bind_eq_ok hplanned
    cases hplanned
    obtain ⟨_, hevent, hok⟩ := bind_eq_ok hok
    obtain ⟨hauthority, hbefore, hbeforeScope⟩ := prepare_eq_ok hcurrent
    rcases ScopeBatchRequest.plan_eq_ok hplan with
      rfl | ⟨attempt, predecessors, staging, outcome, happlies⟩
    · exact .inl (publish_replay hok)
    · obtain ⟨_, hattempt⟩ := ScopeBatchRequest.attempt_eq_ok happlies.attempt_eq
      have hlane : attempt.lane = request.lane := by rw [hattempt]
      have hreceipt := receipt_records happlies.records
      rw [hlane] at hreceipt
      unfold appliedEvent at hevent
      rw [hreceipt] at hevent
      obtain ⟨_, -, hevent⟩ := bind_eq_ok hevent
      cases hevent
      obtain rfl := publish_eq_ok happlies.records.revision hok
      have hrows := happlies.rows
      rw [hscope] at hrows
      refine .inr ⟨current.1, current.2, plan.checkpoint, attempt, predecessors, staging,
        outcome, ⟨hauthority, hbefore, hbeforeScope, ?_, happlies.records, happlies.stored, ?_,
          checkpoint_overlay (by simp [hrows]) _, rfl⟩, hscope, ⟨plan, rfl, happlies⟩,
        by rw [← hrows]⟩
      · rw [ScopeEvent.attempt, hattempt]
        exact happlies.stamp
      · rintro _ _ _ ⟨rfl, rfl, rfl⟩
        exact happlies.attempt_eq
  · exact .inl (Except.ok.inj hok).symm

theorem cancel_cases (hok : store.step codec (.cancel attempt) = .ok next) :
    next = store ∨ ∃ authority before after,
      Commit codec store next authority before after (.cancelled attempt) ∧
      after.birthFloor = before.birthFloor ∧
      next.rows = store.rows.overlay
        (Table.empty.insert (batchKey store.scope) (.batch after)) ∅ := by
  obtain ⟨_, _, hok⟩ := bind_eq_ok hok
  split at hok
  · next _ hplanned =>
    obtain ⟨current, hcurrent, hplanned⟩ := bind_eq_ok hplanned
    obtain ⟨plan, hplan, hplanned⟩ := bind_eq_ok hplanned
    cases hplanned
    obtain ⟨_, hevent, hok⟩ := bind_eq_ok hok
    obtain ⟨hauthority, hbefore, hbeforeScope⟩ := prepare_eq_ok hcurrent
    rcases ScopeBatchAttempt.planCancel_eq_ok hplan with
      rfl | ⟨hstamp, hrecords, hstored, hfloor, hrows⟩
    · exact .inl (publish_replay hok)
    · obtain ⟨_, -, hevent⟩ := bind_eq_ok hevent
      obtain ⟨_, -, hevent⟩ := bind_eq_ok hevent
      cases hevent
      obtain rfl := publish_eq_ok hrecords.revision hok
      rw [hbeforeScope] at hrows
      exact .inr ⟨current.1, current.2, plan.checkpoint,
        ⟨hauthority, hbefore, hbeforeScope, hstamp, hrecords, hstored, nofun,
        checkpoint_overlay (by simp [hrows]) _, rfl⟩, hfloor, by rw [← hrows]⟩
  · exact .inl (Except.ok.inj hok).symm

theorem authority_cases (hok : store.step codec (.authority request) = .ok next) :
    next = store ∨ ∃ state, request.scope = store.scope ∧
      request.apply codec.toAuthorityCodec store.authority = .ok state ∧
      (store.authority = none → store.rows = .empty) ∧
      next = { store with authority := some state, rows := store.admitRows } := by
  obtain ⟨hscope, hok⟩ := refuseIf_bind hok
  split at hok
  · exact .inl (Except.ok.inj hok).symm
  · next horphans =>
    split at hok
    · next state hstate =>
      refine .inr ⟨state, not_not.mp hscope, hstate, fun hnone => ?_, (Except.ok.inj hok).symm⟩
      by_contra hrows
      exact horphans ⟨hnone, hrows⟩
    · exact .inl (Except.ok.inj hok).symm

end ScopeStore

/-! ## Invariants -/

namespace ScopeBatchCheckpoint

/-- The lane and sequence an event consumed. -/
def slotOf (event : ScopeEvent) : ℕ × ℕ := (event.attempt.lane, event.attempt.sequence)

/-- The checkpoint summarises the trace: every sequence up to a lane's frontier
is consumed at most once, and the retained receipt is the event there. -/
structure Settles (codec : Codec) (checkpoint : ScopeBatchCheckpoint)
    (trace : List ScopeEvent) : Prop where
  consumed : ∀ event ∈ trace, event.attempt.lane < 8 ∧
    event.attempt.sequence ≤ (checkpoint.lane event.attempt.lane).sequence
  once : (trace.map slotOf).Nodup
  retained : ∀ lane receipt, (checkpoint.lanes lane).receipt = some receipt →
    receipt.attempt.lane = lane.val ∧
    receipt.attempt.sequence = (checkpoint.lanes lane).sequence ∧
    ∃ event ∈ trace, event.attempt = receipt.attempt ∧ event.terminal = receipt.terminal
  unused : ∀ lane, (checkpoint.lanes lane).receipt = none → (checkpoint.lanes lane).sequence = 0
  floor : ∀ lane, (checkpoint.lanes lane).floor = (checkpoint.lanes lane).sequence - 1
  bound : ∀ request attempt outcome, .applied request attempt outcome ∈ trace →
    request.attempt codec = .ok attempt

variable {trace : List ScopeEvent}

theorem settles_empty (scope : ScopeId) : (empty scope).Settles codec [] :=
  ⟨by simp, by simp, by rintro _ _ ⟨⟩, fun _ _ => rfl, fun _ => rfl, by simp⟩

/-- The event a lane retains is the only one at its sequence. -/
theorem Settles.unique (hsettles : before.Settles codec trace)
    {left right : ScopeEvent} (hleft : left ∈ trace) (hright : right ∈ trace)
    (hslot : slotOf left = slotOf right) : left = right :=
  inj_on_of_nodup_map hsettles.once hleft hright hslot

theorem lane_records (hrecords : before.Records after attempt terminal)
    (lane : ℕ) (hlane : lane < 8) :
    after.lane lane = if lane = attempt.lane then
      ⟨attempt.sequence - 1, attempt.sequence, some ⟨attempt, after.revision, terminal⟩⟩
      else before.lane lane := by
  have hbound := (ScopeBatchAttempt.validate_eq_ok hrecords.valid).1
  have hindex : Fin.ofNat 8 lane = Fin.ofNat 8 attempt.lane ↔ lane = attempt.lane := by
    simp [Fin.ofNat, Nat.mod_eq_of_lt hlane, Nat.mod_eq_of_lt hbound]
  simp only [ScopeBatchCheckpoint.lane, hrecords.lanes, Function.update_apply, hindex]

theorem Settles.records (hsettles : before.Settles codec trace)
    (hrecords : before.Records after event.attempt event.terminal)
    (hbound : ∀ request attempt outcome, event = .applied request attempt outcome →
      request.attempt codec = .ok attempt) : after.Settles codec (trace ++ [event]) := by
  have hlane := (ScopeBatchAttempt.validate_eq_ok hrecords.valid).1
  have hindex : (Fin.ofNat 8 event.attempt.lane).val = event.attempt.lane := Nat.mod_eq_of_lt hlane
  refine ⟨?_, ?_, ?_, ?_, ?_, ?_⟩
  · rw [forall_mem_append, forall_mem_singleton, lane_records hrecords _ hlane, if_pos rfl]
    refine ⟨fun other hmem => ?_, hlane, le_rfl⟩
    obtain ⟨hother, hsequence⟩ := hsettles.consumed _ hmem
    refine ⟨hother, ?_⟩
    rw [lane_records hrecords _ hother]
    split
    · next hsame =>
      rw [hsame] at hsequence
      have := hrecords.sequence
      dsimp only
      omega
    · exact hsequence
  · rw [map_append, nodup_append]
    refine ⟨hsettles.once, by simp, ?_⟩
    intro _ hslot _ hlast heq
    obtain ⟨other, hother, rfl⟩ := mem_map.mp hslot
    rw [map_singleton, mem_singleton] at hlast
    obtain ⟨hsameLane, _⟩ := Prod.mk.inj (heq.trans hlast)
    have hle := (hsettles.consumed _ hother).2
    rw [hsameLane] at hle
    have := hrecords.sequence
    omega
  · intro lane _ hreceipt
    rw [hrecords.lanes, Function.update_apply] at hreceipt ⊢
    split at hreceipt
    · next hsame =>
      cases hreceipt
      rw [if_pos hsame, hsame, hindex]
      exact ⟨rfl, rfl, event, mem_append_right _ (mem_singleton_self _), rfl, rfl⟩
    · next hother =>
      obtain ⟨hownLane, hsequence, found, hfound, hmatches⟩ :=
        hsettles.retained _ _ hreceipt
      rw [if_neg hother]
      exact ⟨hownLane, hsequence, found, mem_append_left _ hfound, hmatches⟩
  · intro lane hnone
    rw [hrecords.lanes, Function.update_apply] at hnone ⊢
    split at hnone
    · cases hnone
    · next hother =>
      rw [if_neg hother]
      exact hsettles.unused _ hnone
  · intro lane
    rw [hrecords.lanes, Function.update_apply]
    split
    · rfl
    · exact hsettles.floor _
  · intro request attempt outcome hmem
    rcases mem_append.mp hmem with hold | hnew
    · exact hsettles.bound _ _ _ hold
    · exact hbound _ _ _ (mem_singleton.mp hnew).symm

/-- A receipt under the stamp that passes now fits. -/
theorem receiptFits_current (hvalid : authority.Valid current)
    (hstamp : authority.checkStamp stamp = .ok ()) : receiptFits authority.view current stamp := by
  obtain ⟨hcurrent, hactive⟩ := checkStamp_eq_ok hstamp
  obtain ⟨-, -, hsome, hfloor⟩ := currentStamp_eq_ok hcurrent
  cases hvalid.stamp_eq.symm.trans hsome
  exact ⟨le_rfl, hvalid.revision.le, hfloor.le, fun _ => ⟨hactive, rfl⟩, fun _ => ⟨rfl, rfl⟩⟩

/-- Receipts that fit an authority fit its successor: closing raises the
revision and keeps the execution, succession raises both. -/
theorem receiptFits_installed (hvalid : authority.Valid current)
    (hfits : receiptFits authority.view current stamp) {operation : ScopeAuthorityOperation}
    {change : Installed} (hinstall : authority.install operation = .ok change)
    (request : ScopeAuthorityRequest) (digest : List Byte) :
    receiptFits (authority.installed (authority.view.revision + 1) request digest change).view
      ⟨change.ns, authority.view.revision + 1, change.execution⟩ stamp := by
  obtain ⟨hincarnation, _, hfloor, -, hgeneration⟩ := hfits
  have hnotNew : stamp.revision ≠ authority.view.revision + 1 := by omega
  rcases install_eq_ok hinstall with ⟨_, -, _, -⟩ | ⟨_, _, -, hcurrent, hns, hkind⟩
  · have := hvalid.revisionPos
    omega
  · cases hvalid.stamp_eq.symm.trans (currentStamp_eq_ok hcurrent).2.2.1
    obtain ⟨_, _, _⟩ := change
    obtain rfl := hns
    have hrevision : stamp.revision ≤ authority.view.revision + 1 := by omega
    rcases hkind with hnewer | ⟨-, rfl⟩
    · refine ⟨hincarnation, hrevision, hfloor.trans hnewer.le,
        fun hequal => absurd hequal hnotNew, fun hequal => ?_⟩
      simp only [installed] at hequal hnewer
      omega
    · rw [hvalid.floor] at hfloor hgeneration
      exact ⟨hincarnation, hrevision, hfloor, fun hequal => absurd hequal hnotNew, hgeneration⟩

end ScopeBatchCheckpoint

namespace ScopeStore

/-- The state of an admitted scope. -/
structure Admitted (codec : Codec) (store : ScopeStore) (authority : ScopeState)
    (stamp : ScopeAuthorityStamp) (checkpoint : ScopeBatchCheckpoint) : Prop where
  authority_eq : store.authority = some authority
  validates : authority.validate = .ok ()
  valid : authority.Valid stamp
  scope_eq : authority.view.scope = store.scope
  cohort : stamp.ns = ⟨store.scope, .one⟩
  checkpoint_eq : store.checkpoint = some checkpoint
  ledgerScope : checkpoint.scope = store.scope
  stored : checkpoint.validateStored codec = .ok ()
  fits : ∀ receipt ∈ checkpoint.receipts, receiptFits authority.view stamp receipt.attempt.stamp
  settles : checkpoint.Settles codec store.trace

/-- An unused scope, or an admitted one. -/
def LedgerOk (codec : Codec) (store : ScopeStore) : Prop :=
  (store.authority = none ∧ store.rows = .empty ∧ store.trace = []) ∨
    ∃ authority stamp checkpoint, store.Admitted codec authority stamp checkpoint

theorem ledgerOk_start (scope : ScopeId) : LedgerOk codec (start scope) := .inl ⟨rfl, rfl, rfl⟩

theorem checkpoint_admitRows_none (hnone : store.authority = none) (state : Option ScopeState) :
    checkpoint { store with authority := state, rows := store.admitRows } =
      some (.empty store.scope) := by
  simp [checkpoint, admitRows, hnone]

/-- The first admission of an unused scope. -/
theorem ledgerOk_admission (hscope : request.scope = store.scope)
    (hnone : store.authority = none) (htrace : store.trace = [])
    (hok : request.apply codec.toAuthorityCodec store.authority = .ok state) :
    LedgerOk codec { store with authority := some state, rows := store.admitRows } := by
  obtain ⟨htransition, hvalidates⟩ := ScopeAuthorityRequest.apply_eq_ok hok
  obtain ⟨stamp, hvalid⟩ := valid_of_validate hvalidates
  rw [hnone] at htransition
  have hfollows := transition_follows htransition
  refine .inr ⟨state, stamp, .empty store.scope, rfl, hvalidates, hvalid,
    hfollows.scope.trans hscope, ?_, checkpoint_admitRows_none hnone _, rfl, ?_, ?_, ?_⟩
  · rcases transition_eq_ok htransition with ⟨-, rfl⟩ | ⟨_, _, hinstall, rfl, -⟩
    · cases hvalid.stamp_eq
    · cases hvalid.stamp_eq
      rcases install_eq_ok hinstall with ⟨_, -, -, -, -, rfl⟩ | ⟨_, _, -, hcurrent, -⟩
      · rw [← hscope]
        rfl
      · cases (currentStamp_eq_ok hcurrent).2.2.1
  · simp [validateStored, ScopeBatchCheckpoint.empty, refuseIf]
  · intro _ hreceipt
    obtain ⟨_, hlane⟩ := mem_receipts.mp hreceipt
    cases hlane
  · rw [htrace]
    exact settles_empty _

section

variable (hledger : store.LedgerOk codec)
include hledger

theorem LedgerOk.admitted (hauthority : store.authority = some authority) :
    ∃ stamp checkpoint, store.Admitted codec authority stamp checkpoint := by
  rcases hledger with ⟨hnone, -, -⟩ | ⟨_, stamp, checkpoint, hadmitted⟩
  · cases hnone.symm.trans hauthority
  · cases hadmitted.authority_eq.symm.trans hauthority
    exact ⟨stamp, checkpoint, hadmitted⟩

theorem LedgerOk.commit (hcommit : Commit codec store next authority before after event) :
    next.LedgerOk codec := by
  obtain ⟨stamp, _, hadmitted⟩ := hledger.admitted hcommit.authority_eq
  cases hadmitted.checkpoint_eq.symm.trans hcommit.before_eq
  have hauthority : next.authority = some authority := by
    rw [hcommit.rest]
    exact hcommit.authority_eq
  have hscope : next.scope = store.scope := by rw [hcommit.rest]
  have htrace : next.trace = store.trace ++ [event] := by rw [hcommit.rest]
  refine .inr ⟨authority, stamp, after, hauthority, hadmitted.validates, hadmitted.valid,
    hscope ▸ hadmitted.scope_eq, hscope ▸ hadmitted.cohort, hcommit.after_eq,
    hscope ▸ hcommit.records.scope.trans hadmitted.ledgerScope, hcommit.stored, ?_,
    htrace ▸ hadmitted.settles.records hcommit.records hcommit.bound⟩
  intro _ hreceipt
  obtain ⟨lane, hlane⟩ := mem_receipts.mp hreceipt
  rw [hcommit.records.lanes, Function.update_apply] at hlane
  split at hlane
  · cases hlane
    exact receiptFits_current hadmitted.valid hcommit.stamp
  · exact hadmitted.fits _ (mem_receipts.mpr ⟨lane, hlane⟩)

theorem LedgerOk.transition (hscope : request.scope = store.scope)
    (hok : request.apply codec.toAuthorityCodec store.authority = .ok state) :
    LedgerOk codec { store with authority := some state, rows := store.admitRows } := by
  rcases hledger with ⟨hnone, -, htrace⟩ | ⟨authority, _, checkpoint, hadmitted⟩
  · exact ledgerOk_admission hscope hnone htrace hok
  · have hrows : store.admitRows = store.rows := by
      simp [admitRows, hadmitted.authority_eq]
    obtain ⟨htransition, hvalidates⟩ := ScopeAuthorityRequest.apply_eq_ok hok
    rw [hadmitted.authority_eq] at htransition
    have hfollows := transition_follows htransition
    obtain ⟨current, hvalid⟩ := valid_of_validate hvalidates
    obtain ⟨_, hfollower, hcohort⟩ := hfollows.cohort _ hadmitted.valid.stamp_eq
    cases hvalid.stamp_eq.symm.trans hfollower
    rw [hrows]
    refine .inr ⟨state, current, checkpoint, rfl, hvalidates, hvalid,
      hfollows.scope.trans hadmitted.scope_eq, hcohort.trans hadmitted.cohort,
      hadmitted.checkpoint_eq, hadmitted.ledgerScope, hadmitted.stored, ?_, hadmitted.settles⟩
    intro _ hreceipt
    have hfits := hadmitted.fits _ hreceipt
    rcases transition_eq_ok htransition with ⟨-, rfl⟩ | ⟨_, _, hinstall, rfl, -⟩
    · rwa [Option.some.inj (hvalid.stamp_eq.symm.trans hadmitted.valid.stamp_eq)]
    · obtain rfl := Option.some.inj hvalid.stamp_eq
      exact receiptFits_installed hadmitted.valid hfits hinstall _ _

theorem LedgerOk.step (hok : store.step codec input = .ok next) : next.LedgerOk codec := by
  cases input with
  | authority =>
    rcases authority_cases hok with rfl | ⟨_, hscope, hstate, -, rfl⟩
    · exact hledger
    · exact hledger.transition hscope hstate
  | apply =>
    rcases apply_cases hok with rfl | ⟨_, _, _, _, _, _, _, happly⟩
    · exact hledger
    · exact hledger.commit happly.commit
  | cancel =>
    rcases cancel_cases hok with rfl | ⟨_, _, _, hcommit, -, -⟩
    · exact hledger
    · exact hledger.commit hcommit

end

theorem ledgerOk_run (hrun : Leads (step codec) (start scope) store) : store.LedgerOk codec :=
  hrun.invariant (fun _ _ _ hledger hstep => hledger.step hstep) (ledgerOk_start _)

/-! ## Later states -/

/-- What a run adds: the trace grows, authority moves forward, and every new
event was admitted by an authority of the run. -/
structure Extends (store later : ScopeStore) (added : List ScopeEvent) : Prop where
  trace_eq : later.trace = store.trace ++ added
  authority : ∀ first, store.authority = some first →
    ∃ last, later.authority = some last ∧ first.Follows last
  admitted : ∀ first, store.authority = some first → ∀ event ∈ added,
    ∃ passing current, first.Follows passing ∧ passing.Valid current ∧
      passing.checkStamp event.attempt.stamp = .ok ()

theorem Extends.refl (store : ScopeStore) : store.Extends store [] :=
  ⟨by simp, fun first hfirst => ⟨first, hfirst, .refl first⟩, by simp⟩

theorem Extends.trans {left right : List ScopeEvent} (hleft : store.Extends next left)
    (hright : next.Extends later right) : store.Extends later (left ++ right) := by
  refine ⟨?_, fun first hfirst => ?_, fun first hfirst event hmem => ?_⟩
  · rw [hright.trace_eq, hleft.trace_eq, append_assoc]
  · obtain ⟨middle, hmiddle, hfollows⟩ := hleft.authority _ hfirst
    obtain ⟨last, hlast, hfollows'⟩ := hright.authority _ hmiddle
    exact ⟨last, hlast, hfollows.trans hfollows'⟩
  · rcases mem_append.mp hmem with hold | hnew
    · exact hleft.admitted _ hfirst _ hold
    · obtain ⟨middle, hmiddle, hfollows⟩ := hleft.authority _ hfirst
      obtain ⟨passing, current, hpassing, hvalid, hpasses⟩ :=
        hright.admitted _ hmiddle _ hnew
      exact ⟨passing, current, hfollows.trans hpassing, hvalid, hpasses⟩

theorem Commit.extends (hledger : store.LedgerOk codec)
    (hcommit : Commit codec store next authority before after event) :
    store.Extends next [event] := by
  obtain ⟨stamp, _, hadmitted⟩ := hledger.admitted hcommit.authority_eq
  refine ⟨by rw [hcommit.rest], fun first hfirst => ⟨first, ?_, .refl first⟩,
    fun first hfirst other hmem => ?_⟩
  · rw [hcommit.rest]
    exact hfirst
  · cases hfirst.symm.trans hcommit.authority_eq
    obtain rfl := mem_singleton.mp hmem
    exact ⟨authority, stamp, .refl _, hadmitted.valid, hcommit.stamp⟩

theorem extends_step (hledger : store.LedgerOk codec)
    (hok : store.step codec input = .ok next) : ∃ added, store.Extends next added := by
  cases input with
  | authority =>
    rcases authority_cases hok with rfl | ⟨state, -, hstate, -, rfl⟩
    · exact ⟨[], .refl _⟩
    · refine ⟨[], by simp, fun first hfirst => ⟨state, rfl, ?_⟩, by simp⟩
      rw [hfirst] at hstate
      exact transition_follows (ScopeAuthorityRequest.apply_eq_ok hstate).1
  | apply =>
    rcases apply_cases hok with rfl | ⟨_, _, _, _, _, _, _, happly⟩
    · exact ⟨[], .refl _⟩
    · exact ⟨_, happly.commit.extends hledger⟩
  | cancel =>
    rcases cancel_cases hok with rfl | ⟨_, _, _, hcommit, -, -⟩
    · exact ⟨[], .refl _⟩
    · exact ⟨_, hcommit.extends hledger⟩

/-- Some run of events leads from one store to the other. -/
def Precedes (store later : ScopeStore) : Prop := ∃ added, store.Extends later added

theorem precedes_run (hledger : store.LedgerOk codec)
    (hrun : Leads (step codec) store later) : store.Precedes later := by
  have hrelated : later.LedgerOk codec ∧ store.Precedes later := by
    apply hrun.invariant
    · rintro _ _ _ ⟨hstate, added, hextends⟩ hstep
      obtain ⟨more, hmore⟩ := extends_step hstate hstep
      exact ⟨hstate.step hstep, added ++ more, hextends.trans hmore⟩
    · exact ⟨hledger, [], .refl _⟩
  exact hrelated.2

/-! ## Authority is single and does not return -/

/-- Stored receipts and authority pass the compatibility check together. -/
theorem Admitted.validateAuthority {checkpoint : ScopeBatchCheckpoint}
    (hadmitted : store.Admitted codec authority stamp checkpoint) :
    checkpoint.validateAuthority codec authority = .ok () := by
  have hvalid := hadmitted.valid
  have hclosed : authority.view.active ≠ authority.view.closedEvidence.isSome ∧
      ∀ evidence ∈ authority.view.closedEvidence, evidence.digest ≠ zeros 32 := by
    cases hactive : authority.view.active with
    | true => simp [ScopeAuthorityView.closedEvidence, hvalid.open_ hactive]
    | false => simp [ScopeAuthorityView.closedEvidence, hvalid.closed hactive, hvalid.lastDigest]
  have hscope : authority.view.scope = checkpoint.scope :=
    hadmitted.scope_eq.trans hadmitted.ledgerScope.symm
  have hfields : ¬ (authority.view.scope ≠ checkpoint.scope ∨
      authority.view.scope.slot = zeros 32 ∨
      ¬ (1 ≤ authority.view.revision ∧ authority.view.revision ≤ counterMax) ∨
      stamp.incarnation.value ≤ authority.view.retiredThrough ∨
      authority.view.admissionGenerationFloor ≠ stamp.execution.admissionGeneration ∨
      stamp.scope ≠ authority.view.scope ∨ stamp.revision ≠ authority.view.revision ∨
      authority.view.active = authority.view.closedEvidence.isSome ∨
      ∃ evidence ∈ authority.view.closedEvidence, evidence.digest = zeros 32) := by
    push Not
    exact ⟨hscope, hvalid.slot, ⟨hvalid.revisionPos, hvalid.revisionLe⟩, hvalid.notRetired,
      hvalid.floor, hvalid.scope, hvalid.revision, hclosed.1, hclosed.2⟩
  have hreceipts : ¬ ∃ receipt ∈ checkpoint.receipts,
      ¬ receiptFits authority.view stamp receipt.attempt.stamp := by
    push Not
    exact hadmitted.fits
  simp only [ScopeBatchCheckpoint.validateAuthority, hadmitted.validates,
    validateAuthorityView, hadmitted.stored, hvalid.stamp_eq,
    hvalid.stampValid, Except.mapError, okOr, ok_bind, refuseIf, if_neg hfields, if_neg hreceipts]

/-- Nothing replays on an empty scope. -/
theorem replay_empty {replayed : Bool}
    (hok : (ScopeState.empty scope).replay codec.toAuthorityCodec request = .ok replayed) :
    replayed = false := by
  obtain ⟨_, -, hok⟩ := bind_eq_ok hok
  obtain ⟨_, hdigest, hok⟩ := bind_eq_ok hok
  obtain ⟨_, hvalid, -⟩ := bind_eq_ok hdigest
  obtain ⟨hfields, -⟩ := refuseIf_bind hvalid
  have hid := (not_or.mp hfields).1
  split at hok
  · next hsame => exact absurd hsame hid
  · obtain ⟨_, -, hok⟩ := bind_eq_ok hok
    exact (Except.ok.inj hok).symm

/-- Every accepted successor of a reachable state is well formed. -/
theorem LedgerOk.validate_transition (hledger : store.LedgerOk codec)
    (hok : (store.authority.getD (.empty scope)).transition codec.toAuthorityCodec request =
      .ok state) : state.validate = .ok () := by
  rcases transition_eq_ok hok with ⟨hreplayed, hsame⟩ | ⟨_, _, -, -, hvalid⟩
  · rcases hledger with ⟨hnone, -, -⟩ | ⟨_, _, _, hadmitted⟩
    · rw [hnone] at hreplayed
      cases replay_empty hreplayed
    · rw [hsame, hadmitted.authority_eq]
      exact hadmitted.validates
  · exact hvalid

end ScopeStore

end PacketCore.Scope
