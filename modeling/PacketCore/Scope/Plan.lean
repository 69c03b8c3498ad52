import PacketCore.Scope.Batch

/-!
# Planning a scope batch

The pure decisions of replicated apply.  A lane keeps the last terminal attempt
only; `lookup` answers from that frontier and from the authority of the same
cut.  `plan` compares every child, claim and counter first and then builds the
changed rows in an overlay, so a refusal has no effect.
-/

namespace PacketCore.Scope

/-! ## Lanes -/

/-- The identity a lane compares, with the digest of the complete attempt. -/
structure LaneAttemptKey where
  sequence : ℕ
  requestId : List Byte
  bindingDigest : List Byte
deriving DecidableEq

structure LaneFrontier where
  sequence : ℕ
  discardedThrough : ℕ
  retained : Option LaneAttemptKey

inductive LaneLookup where
  | retained
  | notApplied
  | notRecorded
  | pruned

inductive LaneProtocolError where
  | invalidAttempt
  | corrupt
  | idempotencyConflict
  | sequenceConflict
  | sequenceExhausted

def LaneProtocolError.toBatch : LaneProtocolError → ScopeBatchError
  | invalidAttempt | sequenceExhausted => .invalidRequest
  | corrupt => .formatMismatch
  | idempotencyConflict => .idempotencyConflict
  | sequenceConflict => .sequenceConflict

def LaneAttemptKey.Valid (key : LaneAttemptKey) : Prop :=
  (1 ≤ key.sequence ∧ key.sequence ≤ counterMax) ∧ key.requestId ≠ zeros 16

instance (key : LaneAttemptKey) : Decidable key.Valid := inferInstanceAs (Decidable (_ ∧ _))

namespace LaneFrontier

def validate (frontier : LaneFrontier) : Except LaneProtocolError Unit :=
  if frontier.sequence = 0 then
    refuseIf (¬ (frontier.discardedThrough = 0 ∧ frontier.retained = none)) .corrupt
  else do
    let retained ← okOr frontier.retained .corrupt
    refuseIf (counterMax < frontier.sequence ∨
      frontier.discardedThrough ≠ frontier.sequence - 1 ∨
      retained.sequence ≠ frontier.sequence ∨ ¬ retained.Valid) .corrupt

/-- The decision for an attempt whose identity is not retained. -/
def unretained (frontier : LaneFrontier) (attempt : LaneAttemptKey) (permanentlyFenced : Bool) :
    LaneLookup :=
  if attempt.sequence ≤ frontier.discardedThrough then .pruned
  else if attempt.sequence = frontier.sequence ∨ permanentlyFenced = true then .notApplied
  else .notRecorded

def lookup (frontier : LaneFrontier) (attempt : LaneAttemptKey)
    (permanentlyFenced : Bool) : Except LaneProtocolError LaneLookup := do
  frontier.validate
  refuseIf (¬ attempt.Valid) .invalidAttempt
  match frontier.retained with
  | some retained =>
    if retained.requestId = attempt.requestId then
      if retained = attempt then return .retained else .error .idempotencyConflict
    else return frontier.unretained attempt permanentlyFenced
  | none => return frontier.unretained attempt permanentlyFenced

def nextSequence (frontier : LaneFrontier) : Except LaneProtocolError ℕ := do
  frontier.validate
  okOr (nextCounter frontier.sequence) .sequenceExhausted

/-- The detached successor of a terminal attempt. -/
def advance (frontier : LaneFrontier) (attempt : LaneAttemptKey) :
    Except LaneProtocolError LaneFrontier := do
  let _ ← frontier.lookup attempt false
  let sequence ← frontier.nextSequence
  refuseIf (attempt.sequence ≠ sequence) .sequenceConflict
  return ⟨attempt.sequence, attempt.sequence - 1, some attempt⟩

end LaneFrontier

def ScopeBatchAttempt.laneKey (codec : Codec) (attempt : ScopeBatchAttempt) :
    Except ScopeBatchError LaneAttemptKey := do
  attempt.validate
  return ⟨attempt.sequence, attempt.requestId, codec.attemptDigest attempt⟩

def ScopeBatchLaneCheckpoint.frontier (codec : Codec)
    (lane : ScopeBatchLaneCheckpoint) : Except ScopeBatchError LaneFrontier :=
  match lane.receipt with
  | some receipt => do
    let key ← receipt.attempt.laneKey codec
    return ⟨lane.sequence, lane.floor, some key⟩
  | none => return ⟨lane.sequence, lane.floor, none⟩

/-! ## The checkpoint -/

namespace ScopeBatchCheckpoint

variable (codec : Codec)

def empty (scope : ScopeId) : ScopeBatchCheckpoint :=
  ⟨scope, 0, 0, fun _ => 0, fun _ => {}⟩

/-- Lane numbers of requests are checked before a lane is read. -/
def lane (checkpoint : ScopeBatchCheckpoint) (lane : ℕ) : ScopeBatchLaneCheckpoint :=
  checkpoint.lanes (Fin.ofNat 8 lane)

variable (checkpoint : ScopeBatchCheckpoint)

def receipt (lane : ℕ) : Option ScopeBatchReceipt :=
  (checkpoint.lane lane).receipt

/-- The receipts retained by the lanes. -/
def receipts : List ScopeBatchReceipt :=
  (List.finRange 8).filterMap fun lane => (checkpoint.lanes lane).receipt

/-- What the scan over the lanes has collected. -/
structure Scan where
  transitions : ℕ := 0
  revisions : List ℕ := []
  ids : List (List Byte) := []

/-- An applied receipt agrees with the stable counters and the birth floor. -/
def outcomeFits : ScopeBatchTerminal → Prop
  | .applied outcome =>
    (∀ counter, outcome.counters counter ≤ checkpoint.counters counter) ∧
      (outcome.revision = checkpoint.revision → outcome.counters = checkpoint.counters) ∧
      ∀ row ∈ outcome.rows, row.birth ≤ checkpoint.birthFloor
  | .cancelled => True

instance (checkpoint : ScopeBatchCheckpoint) (terminal : ScopeBatchTerminal) :
    Decidable (checkpoint.outcomeFits terminal) :=
  match terminal with
  | .applied _ => inferInstanceAs (Decidable (_ ∧ _ ∧ _))
  | .cancelled => inferInstanceAs (Decidable True)

/-- One lane of the scan. -/
def scanLane (scan : Scan) (index : Fin 8) : Except ScopeBatchError Scan :=
  let lane := checkpoint.lanes index
  if lane.sequence = 0 then do
    refuseIf (lane ≠ {}) .formatMismatch
    return scan
  else do
    let frontier ← lane.frontier codec
    frontier.validate.mapError LaneProtocolError.toBatch
    let receipt ← okOr lane.receipt .formatMismatch
    receipt.validate.mapError fun _ => .formatMismatch
    let transitions ← okOr (checkedAdd scan.transitions lane.sequence) .formatMismatch
    refuseIf (receipt.attempt.stamp.scope ≠ checkpoint.scope ∨
      receipt.attempt.requestId ∈ scan.ids ∨ receipt.revision ∈ scan.revisions ∨
      checkpoint.revision < lane.sequence ∨ receipt.attempt.lane ≠ index.val ∨
      ¬ (lane.sequence ≤ receipt.revision ∧ receipt.revision ≤ checkpoint.revision))
      .formatMismatch
    refuseIf (¬ checkpoint.outcomeFits receipt.terminal) .formatMismatch
    return ⟨transitions, receipt.revision :: scan.revisions, receipt.attempt.requestId :: scan.ids⟩

def validateStored : Except ScopeBatchError Unit :=
  if checkpoint.revision = 0 then
    refuseIf (checkpoint ≠ empty checkpoint.scope) .formatMismatch
  else do
    refuseIf (counterMax < checkpoint.revision ∨ counterMax < checkpoint.birthFloor ∨
      ∃ counter, counterMax < checkpoint.counters counter) .formatMismatch
    let scan ← (List.finRange 8).foldlM (checkpoint.scanLane codec) {}
    refuseIf (scan.transitions ≠ checkpoint.revision ∨ checkpoint.revision ∉ scan.revisions)
      .formatMismatch

/-- The answer for an attempt whose lane retains it. -/
def retainedAnswer (lane : ScopeBatchLaneCheckpoint) : Except ScopeBatchError ScopeBatchLookup := do
  let receipt ← okOr lane.receipt .formatMismatch
  match receipt.terminal with
  | .applied outcome => return .applied outcome
  | .cancelled => return .cancelled

def lookup (attempt : ScopeBatchAttempt) (permanentlyFenced : Bool) :
    Except ScopeBatchError ScopeBatchLookup := do
  checkpoint.validateStored codec
  attempt.validate
  refuseIf (attempt.stamp.scope ≠ checkpoint.scope) (.scope .unauthorized)
  -- A retained id is not rebound, even to another lane or stamp.
  refuseIf (∃ receipt ∈ checkpoint.receipts,
    receipt.attempt.requestId = attempt.requestId ∧ receipt.attempt ≠ attempt) .idempotencyConflict
  let lane := checkpoint.lane attempt.lane
  let frontier ← lane.frontier codec
  let key ← attempt.laneKey codec
  let found ← (frontier.lookup key permanentlyFenced).mapError LaneProtocolError.toBatch
  match found with
  | .retained => retainedAnswer lane
  | .notApplied => return .notApplied
  | .notRecorded => return .notRecorded
  | .pruned => return .pruned

/-- Whether the request was applied already; otherwise its guards hold. -/
def replay (request : ScopeBatchRequest) : Except ScopeBatchError Bool := do
  let attempt ← request.attempt codec
  let found ← checkpoint.lookup codec attempt false
  match found with
  | .applied _ => return true
  | .cancelled => .error .cancelled
  | _ => do
    refuseIf (∃ revision ∈ request.expectedRevision, revision ≠ checkpoint.revision)
      .revisionConflict
    let frontier ← (checkpoint.lane request.lane).frontier codec
    let sequence ← frontier.nextSequence.mapError LaneProtocolError.toBatch
    refuseIf (sequence ≠ request.sequence) .sequenceConflict
    return false

/-- The checkpoint with a new terminal receipt in its lane. -/
def withTerminal (attempt : ScopeBatchAttempt) (revision : ℕ)
    (terminal : ScopeBatchTerminal) (frontier : LaneFrontier) : ScopeBatchCheckpoint :=
  { checkpoint with
    revision := revision
    lanes := Function.update checkpoint.lanes (Fin.ofNat 8 attempt.lane)
      ⟨frontier.discardedThrough, frontier.sequence, some ⟨attempt, revision, terminal⟩⟩ }

def recordTerminal (attempt : ScopeBatchAttempt) (revision : ℕ)
    (terminal : ScopeBatchTerminal) : Except ScopeBatchError ScopeBatchCheckpoint := do
  let expected ← okOr (nextCounter checkpoint.revision) .invalidRequest
  refuseIf (revision ≠ expected) .revisionConflict
  let current ← (checkpoint.lane attempt.lane).frontier codec
  let key ← attempt.laneKey codec
  let frontier ← (current.advance key).mapError LaneProtocolError.toBatch
  let successor := checkpoint.withTerminal attempt revision terminal frontier
  successor.validateStored codec
  return successor

end ScopeBatchCheckpoint

/-! ## Authority of the same cut -/

/-- Future or malformed stamps are not fenced merely because they are not
current. -/
def permanentlyFenced (authority : ScopeAuthorityView) (stamp : ScopeAuthorityStamp) : Bool :=
  if stamp.incarnation.value ≤ authority.retiredThrough then true
  else
    match authority.stamp with
    | none => false
    | some current =>
      decide (stamp.incarnation.value < current.incarnation.value) ||
        decide (stamp.incarnation = current.incarnation ∧ stamp.revision ≤ authority.revision ∧
          stamp.execution.admissionGeneration ≤ authority.admissionGenerationFloor ∧
          (authority.active = false ∨ stamp ≠ current))

namespace ScopeBatchCheckpoint

variable (codec : Codec)

/-- A receipt does not contradict the current authority. -/
def receiptFits (authority : ScopeAuthorityView) (current stamp : ScopeAuthorityStamp) : Prop :=
  stamp.incarnation.value ≤ current.incarnation.value ∧ stamp.revision ≤ authority.revision ∧
    stamp.execution.admissionGeneration ≤ authority.admissionGenerationFloor ∧
    (stamp.revision = authority.revision → authority.active = true ∧ stamp = current) ∧
    (stamp.execution.admissionGeneration = authority.admissionGenerationFloor →
      stamp.execution = current.execution ∧ stamp.incarnation = current.incarnation)

instance (authority : ScopeAuthorityView) (current stamp : ScopeAuthorityStamp) :
    Decidable (receiptFits authority current stamp) :=
  inferInstanceAs (Decidable (_ ∧ _ ∧ _ ∧ _ ∧ _))

def validateAuthorityView (checkpoint : ScopeBatchCheckpoint)
    (authority : ScopeAuthorityView) : Except ScopeBatchError Unit := do
  checkpoint.validateStored codec
  let current ← okOr authority.stamp .formatMismatch
  current.validate.mapError fun _ => .formatMismatch
  refuseIf (authority.scope ≠ checkpoint.scope ∨ authority.scope.slot = zeros 32 ∨
    ¬ (1 ≤ authority.revision ∧ authority.revision ≤ counterMax) ∨
    current.incarnation.value ≤ authority.retiredThrough ∨
    authority.admissionGenerationFloor ≠ current.execution.admissionGeneration ∨
    current.scope ≠ authority.scope ∨ current.revision ≠ authority.revision ∨
    authority.active = authority.closedEvidence.isSome ∨
    ∃ evidence ∈ authority.closedEvidence, evidence.digest = zeros 32) .formatMismatch
  refuseIf (∃ receipt ∈ checkpoint.receipts,
    ¬ receiptFits authority current receipt.attempt.stamp) .formatMismatch

def validateAuthority (checkpoint : ScopeBatchCheckpoint)
    (authority : ScopeState) : Except ScopeBatchError Unit := do
  authority.validate.mapError fun _ => .formatMismatch
  checkpoint.validateAuthorityView codec authority.view

end ScopeBatchCheckpoint

/-- One backend observation of authority and ledger. -/
inductive ScopeBatchReadCut where
  | uninitialized
  | initialized (authority : ScopeState) (checkpoint : ScopeBatchCheckpoint)

namespace ScopeBatchReadCut

def new (codec : Codec) (scope : ScopeId) :
    Option ScopeState → Option ScopeBatchCheckpoint → Except ScopeBatchError ScopeBatchReadCut
  | none, none => .ok .uninitialized
  | some authority, some checkpoint => do
    refuseIf (checkpoint.scope ≠ scope) .formatMismatch
    checkpoint.validateAuthority codec authority
    return .initialized authority checkpoint
  | _, _ => .error .formatMismatch

def lookup (codec : Codec) (cut : ScopeBatchReadCut) (attempt : ScopeBatchAttempt) :
    Except ScopeBatchError ScopeBatchLookup := do
  attempt.validate
  match cut with
  | .uninitialized => return .notRecorded
  | .initialized authority checkpoint =>
    checkpoint.lookup codec attempt (permanentlyFenced authority.view attempt.stamp)

end ScopeBatchReadCut

/-! ## Plans -/

/-- The successor checkpoint with every changed row. -/
structure ScopeBatchPlan where
  checkpoint : ScopeBatchCheckpoint
  rows : Table SessionKey ScopeRow

/-- Cancel one exact attempt: consume its sequence without any other effect. -/
def ScopeBatchAttempt.planCancel (codec : Codec) (attempt : ScopeBatchAttempt)
    (authority : ScopeState) (checkpoint : ScopeBatchCheckpoint) :
    Except ScopeBatchError ScopeBatchPlan := do
  attempt.encodeCanonical codec
  checkpoint.validateAuthority codec authority
  let found ← checkpoint.lookup codec attempt false
  match found with
  | .applied _ | .cancelled => return ⟨checkpoint, .empty⟩
  | _ => do
    liftScope (authority.checkStamp attempt.stamp)
    let revision ← okOr (nextCounter checkpoint.revision) .invalidRequest
    let successor ← checkpoint.recordTerminal codec attempt revision .cancelled
    return ⟨successor, Table.empty.insert (batchKey successor.scope) (.batch successor)⟩

section Apply

variable (codec : Codec) (ns : ScopeNamespace)
  (read : SessionKey → Except ScopeBatchError (Option ScopeRow))

/-- The stored row of a child, live or not. -/
def readChild (key : ScopeChildKey) : Except ScopeBatchError (Option ScopeChildRecord) := do
  let found ← read (childKey codec ns key)
  match found with
  | some (.child row) =>
    if row.ns = ns ∧ row.key = key then return some row else .error .formatMismatch
  | none => return none
  | some _ => .error .formatMismatch

/-- The version of a live child. -/
def liveRevision (row : Option ScopeChildRecord) : Option ScopeChildRevision :=
  (row.filter (·.value.isSome)).map (·.revision)

/-- The revision and owner of a claim row; a missing row has neither. -/
def readClaim (key : ScopeClaimKey) : Except ScopeBatchError (Option ℕ × Option ClaimOwner) := do
  let found ← read (claimKey codec ns key)
  match found with
  | some (.claim row) =>
    if row.ns = ns ∧ row.key = key then do
      refuseIf (∃ owner ∈ row.owner, ¬ owner.Valid) .formatMismatch
      return (some row.revision, row.owner)
    else .error .formatMismatch
  | none => return (none, none)
  | some _ => .error .formatMismatch

/-- Whether a claim condition is in conflict; a matching owner must be linked
back. -/
def claimConflicts (condition : ScopeClaimCondition) : Except ScopeBatchError Bool := do
  let current ← readClaim codec ns read condition.key
  if ¬ condition.Matches current.1 current.2 then return true
  else
    match current.2 with
    | none => return false
    | some owner => do
      let found ← read (childKey codec ns owner.child)
      match found with
      | some (.child row) =>
        refuseIf (¬ (row.ns = ns ∧ row.key = owner.child ∧ row.value.isSome = true ∧
          row.revision.birth = owner.birth ∧ condition.key ∈ row.claims)) .formatMismatch
        return false
      | _ => .error .formatMismatch

/-- Release one claim of a live predecessor. -/
def releaseClaim (revision : ℕ) (rows : Table SessionKey ScopeRow)
    (held : ScopeChildRecord × ScopeClaimKey) :
    Except ScopeBatchError (Table SessionKey ScopeRow) := do
  let found ← read (claimKey codec ns held.2)
  match found with
  | some (.claim row) =>
    refuseIf (row.ns ≠ ns ∨ row.owner ≠ some ⟨held.1.key, held.1.revision.birth⟩) .formatMismatch
    return rows.insert (claimKey codec ns held.2) (.claim { row with owner := none, revision })
  | _ => .error .formatMismatch

/-- The overlay while the operations are applied in order. -/
structure Staging where
  rows : Table SessionKey ScopeRow
  birthFloor : ℕ
  conflicts : List ScopeClaimKey
  versions : List ScopeChildRevision

/-- Take one claim for a child, unless it is occupied in the overlay. -/
def acquireClaim (revision : ℕ) (owner : ClaimOwner) (staging : Staging)
    (claim : ScopeClaimKey) : Except ScopeBatchError Staging := do
  let current ← (match staging.rows.find (claimKey codec ns claim) with
    | some row => .ok (some row)
    | none => read (claimKey codec ns claim))
  let occupied ← (match current with
    | some (.claim row) =>
      if row.ns = ns ∧ row.key = claim then .ok row.owner.isSome else .error .formatMismatch
    | none => .ok false
    | some _ => .error .formatMismatch)
  if occupied then
    return { staging with
      conflicts := if claim ∈ staging.conflicts then staging.conflicts
        else staging.conflicts ++ [claim] }
  else
    return { staging with
      rows := staging.rows.insert (claimKey codec ns claim)
        (.claim ⟨ns, claim, revision, some owner⟩) }

/-- The version an operation installs, with the birth floor after it. -/
def nextVersion (birthFloor : ℕ) (operation : ScopeChildMutation) :
    Except ScopeBatchError (ScopeChildRevision × ℕ) :=
  match operation.expected with
  | some before => do
    let generation ← okOr (nextCounter before.generation) .invalidRequest
    let version ← ScopeChildRevision.new before.birth generation
    return (version, birthFloor)
  | none => do
    let birth ← okOr (nextCounter birthFloor) .invalidRequest
    let version ← ScopeChildRevision.new birth 1
    return (version, birth)

def applyOperation (revision : ℕ) (staging : Staging)
    (operation : ScopeChildMutation) : Except ScopeBatchError Staging := do
  let version ← nextVersion staging.birthFloor operation
  let taken ← operation.claims.foldlM
    (acquireClaim codec ns read revision ⟨operation.key, version.1.birth⟩) staging
  return {
    rows := taken.rows.insert (childKey codec ns operation.key) (.child
      ⟨ns, operation.key, version.1, revision, operation.value, operation.claims⟩)
    birthFloor := version.2
    conflicts := taken.conflicts
    versions := taken.versions ++ [version.1] }

/-- Every claim held by the live predecessors. -/
def heldClaims (predecessors : List (Option ScopeChildRecord)) :
    List (ScopeChildRecord × ScopeClaimKey) :=
  (predecessors.reduceOption.filter (·.value.isSome)).flatMap fun row =>
    row.claims.map fun claim => (row, claim)

/-- The comparisons of a request with the stored rows; nothing is changed. -/
def compareRows (request : ScopeBatchRequest) (checkpoint : ScopeBatchCheckpoint) :
    Except ScopeBatchError (List (Option ScopeChildRecord)) := do
  let predecessors ← request.operations.mapM fun operation =>
    readChild codec ns read operation.key
  let conditioned ← request.childConditions.mapM fun condition =>
    readChild codec ns read condition.key
  let claims ← request.claimConditions.mapM (claimConflicts codec ns read)
  refuseIf (maxScopeBatchChildren * maxScopeChildClaims <
    (request.claimConditions.map (·.key) ++ predecessors.reduceOption.flatMap (·.claims) ++
      request.operations.flatMap (·.claims)).dedup.length) .invalidRequest
  let conflicts : ScopeBatchConflicts := {
    children :=
      ((request.operations.zip predecessors).filter fun pair =>
        liveRevision pair.2 ≠ pair.1.expected).map (·.1.key) ++
      ((request.childConditions.zip conditioned).filter fun pair =>
        ¬ pair.1.Matches (liveRevision pair.2)).map (·.1.key)
    claims := ((request.claimConditions.zip claims).filter (·.2)).map (·.1.key)
    counters := (request.counters.filter fun counter =>
      checkpoint.counters (Fin.ofNat 16 counter.counter) ≠ counter.expected).map (·.counter) }
  refuseIf (conflicts ≠ {}) (.conflict conflicts)
  return predecessors

/-- The counters after the request. -/
def nextCounters (counters : Fin 16 → ℕ) (mutations : List ScopeCounterMutation) : Fin 16 → ℕ :=
  mutations.foldl (fun counters mutation =>
    Function.update counters (Fin.ofNat 16 mutation.counter) mutation.next) counters

/-- The detached effects of a request whose comparisons hold. -/
def stageRows (request : ScopeBatchRequest) (checkpoint : ScopeBatchCheckpoint) (revision : ℕ)
    (predecessors : List (Option ScopeChildRecord)) : Except ScopeBatchError Staging := do
  let released ← (heldClaims predecessors).foldlM (releaseClaim codec ns read revision) .empty
  let staging ← request.operations.foldlM (applyOperation codec ns read revision)
    ⟨released, checkpoint.birthFloor, [], []⟩
  refuseIf (staging.conflicts ≠ []) (.conflict { claims := staging.conflicts })
  return staging

end Apply

/-- Plan one batch against the rows `read` shows. -/
def ScopeBatchRequest.plan (codec : Codec) (request : ScopeBatchRequest)
    (authority : ScopeState) (checkpoint : ScopeBatchCheckpoint)
    (read : SessionKey → Except ScopeBatchError (Option ScopeRow)) :
    Except ScopeBatchError ScopeBatchPlan := do
  request.validate codec
  checkpoint.validateAuthority codec authority
  let replayed ← checkpoint.replay codec request
  if replayed then return ⟨checkpoint, .empty⟩
  else do
    refuseIf (authority.view.scope ≠ request.stamp.scope) (.scope .unauthorized)
    liftScope (authority.checkStamp request.stamp)
    let ns := request.stamp.ns
    let revision ← okOr (nextCounter checkpoint.revision) .invalidRequest
    let predecessors ← compareRows codec ns read request checkpoint
    let staging ← stageRows codec ns read request checkpoint revision predecessors
    let counters := nextCounters checkpoint.counters request.counters
    let digest ← request.digest codec
    let attempt ← request.attempt codec
    let outcome : ScopeBatchOutcome :=
      ⟨digest, request.lane, request.sequence, revision, staging.versions, counters⟩
    let advanced := { checkpoint with birthFloor := staging.birthFloor, counters }
    let successor ← advanced.recordTerminal codec attempt revision (.applied outcome)
    return ⟨successor, staging.rows.insert (batchKey request.stamp.scope) (.batch successor)⟩

end PacketCore.Scope
