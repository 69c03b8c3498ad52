import PacketCore.VoterSlots.Codec

/-!
# Replacement control

The committed commands that replace one lost voter, and the observation of the
engine's own membership entries.  Both compute a candidate table and publish it
only as a valid successor of the current one.
-/

namespace PacketCore.VoterSlots

inductive VoterReplacementError where
  | unauthorizedReplacement
  | invalidLossEvidence
  | staleIncarnation
  | idempotencyConflict
  | replacementInProgress
  | noSurvivingQuorum
  | targetStillLive
  | observationIncomplete
  | replacementPastFence
  | activationContinuationUnavailable
  | incompatibleProfile
  | incarnationExhausted
  | configurationEpochExhausted
  | revisionExhausted
  | invalidTransition
  | outcomeUnknown
  | deadline
  | unavailable
deriving DecidableEq

/-- Untrusted request to replace a lost voter. -/
structure VoterReplacementRequest where
  expectedRevision : Fin (2 ^ 64)
  expectedConfiguration : ConsensusIdentity
  candidate : VoterSlotMember
  attestation : LostVoterAttestationV1
deriving DecidableEq

def VoterReplacementRequest.validate (self : VoterReplacementRequest)
    (sha256 : Sha256) : Except VoterReplacementError Unit := do
  self.attestation.validate.mapError fun _ => .invalidLossEvidence
  let digest ← (voterReplacementRequestDigest sha256 self.expectedRevision
    self.expectedConfiguration self.candidate self.attestation).mapError
      fun _ => .invalidLossEvidence
  refuseIf (self.expectedRevision = 0 ∨
    self.expectedConfiguration.clusterId ≠ self.attestation.clusterInstance ∨
    self.candidate.identity.slot ≠ self.attestation.slot) .invalidLossEvidence
  let next ← self.attestation.expectedIncarnation.next.mapError fun _ => .incarnationExhausted
  refuseIf (next ≠ self.candidate.identity.incarnation ∨
    self.candidate.keyDigest ≠ self.attestation.candidateKeyDigest ∨
    self.candidate.admissionGeneration ≠ self.attestation.admissionGeneration ∨
    digest ≠ self.attestation.requestDigest) .invalidLossEvidence

inductive VoterReplacementStep where
  | recordSnapshot (snapshot : VoterSnapshotEvidence)
  | recordCaughtUp (marker : VoterSlotLogId)
  | recordContinuation
  | fence
  | finalize
deriving DecidableEq

inductive VoterSlotControl where
  | begin (request : VoterReplacementRequest)
  | advance (requestId : Octets 16) (requestDigest : Octets 32) (step : VoterReplacementStep)
  | marker (requestId : Octets 16) (requestDigest : Octets 32)

def memberIds (configuration : VoterConfiguration) : Finset ConsensusNodeId :=
  (configuration.members.map fun member => member.identity.nodeId).toFinset

/-- The next uniform epoch, when it is representable. -/
def ConsensusConfigurationEpoch.succ? (epoch : ConsensusConfigurationEpoch) :
    Option ConsensusConfigurationEpoch :=
  if hfits : epoch.value + 1 < 2 ^ 64 then some ⟨epoch.value + 1, by omega, hfits⟩ else none

/-- Change the first record of a slot. -/
def updateSlot (slot : SlotId) (update : VoterSlotRecord → VoterSlotRecord) :
    List VoterSlotRecord → List VoterSlotRecord
  | [] => []
  | record :: rest =>
    if record.slot = slot then update record :: rest else record :: updateSlot slot update rest

namespace VoterSlotTable

variable (self : VoterSlotTable)

/-- The members currently selected for the slots. -/
def selected : List VoterSlotMember := self.slots.map (·.member)

def currentConfiguration : VoterConfiguration :=
  match self.replacement with
  | some operation =>
    if operation.phase < .uniform then operation.predecessor
    else ⟨self.configurationEpoch, self.selected⟩
  | none => ⟨self.configurationEpoch, self.selected⟩

def nextRevision : Except VoterReplacementError (Fin (2 ^ 64)) :=
  if hfits : self.revision.val + 1 < 2 ^ 64 then .ok ⟨self.revision.val + 1, hfits⟩
  else .error .revisionExhausted

/-! ## Reserving a replacement -/

/-- Digest of the request that a retained operation or receipt has under this identity. -/
def existingDigest (requestId : Octets 16) : Option (Octets 32) :=
  ((self.replacement.filter fun operation => operation.attestation.requestId = requestId).map
    (·.attestation.requestDigest)).or
    (((self.slots.filterMap (·.lastResult)).find? fun result => result.requestId = requestId).map
      (·.requestDigest))

/-- Only a candidate of the same slot that is not fenced yet can be superseded. -/
def admitSupersession (slot : SlotId) (cut : VoterSlotLogId) : Except VoterReplacementError Unit :=
  match self.replacement with
  | none => return ()
  | some operation => do
    refuseIf (operation.attestation.slot ≠ slot) .replacementInProgress
    refuseIf (.fenced ≤ operation.phase) .replacementPastFence
    refuseIf (cut.index ≤ operation.evidence.prepare.index) .invalidTransition

/-- The receipt of an operation that ends at `cut`. -/
def terminalResult (operation : VoterReplacementRecord)
    (kind : VoterReplacementResultKind) (incarnation : VoterIncarnation)
    (revision : Fin (2 ^ 64)) (cut : VoterSlotLogId) : VoterReplacementResult where
  requestId := operation.attestation.requestId
  requestDigest := operation.attestation.requestDigest
  incarnation := incarnation
  revision := revision
  configurationEpoch := self.configurationEpoch
  kind := kind
  terminal := cut

/-- The table after a reservation for `request`. -/
def reserved (request : VoterReplacementRequest) (cut : VoterSlotLogId)
    (epoch : ConsensusConfigurationEpoch) (revision : Fin (2 ^ 64)) : VoterSlotTable :=
  let slots := updateSlot request.attestation.slot (fun record =>
    { member := request.candidate
      retiredThrough := Fin.ofNat (2 ^ 64) request.attestation.expectedIncarnation.value
      phase := .pending
      lastResult := match self.replacement with
        | some previous => some (self.terminalResult previous .superseded
            record.member.identity.incarnation revision cut)
        | none => record.lastResult }) self.slots
  { self with
    slots := slots
    revision := revision
    replacement := some
      { expectedRevision := request.expectedRevision
        attestation := request.attestation
        predecessor := self.currentConfiguration
        successor := ⟨epoch, slots.map (·.member)⟩
        phase := .prepared
        evidence := ⟨cut, none, none, none, none, none, none, none⟩ } }

/-- A request that no retained operation or receipt knows. -/
def reserve (sha256 : Sha256) (request : VoterReplacementRequest)
    (cut : VoterSlotLogId) : Except VoterReplacementError VoterSlotTable := do
  self.admitSupersession request.attestation.slot cut
  request.validate sha256
  let record ← okOr (self.slots.find? fun record => record.slot = request.attestation.slot)
    .staleIncarnation
  refuseIf (self.revision ≠ request.expectedRevision) .staleIncarnation
  let identity ← (self.currentConfiguration.identity sha256 self.clusterInstance
    self.manifestDigest).mapError fun _ => .invalidTransition
  refuseIf (identity ≠ request.expectedConfiguration ∨
    request.attestation.clusterInstance ≠ self.clusterInstance ∨
    request.attestation.expectedIncarnation ≠ record.member.identity.incarnation ∨
    request.attestation.oldDescriptorDigest ≠ record.member.descriptorDigest) .staleIncarnation
  refuseIf (self.slots.length < 3) .noSurvivingQuorum
  refuseIf (request.candidate.admissionGeneration ≤ record.member.admissionGeneration ∨
    request.candidate.keyDigest = record.member.keyDigest) .invalidLossEvidence
  let epoch ← okOr self.currentConfiguration.epoch.succ? .configurationEpochExhausted
  let revision ← self.nextRevision
  return self.reserved request cut epoch revision

def begin (sha256 : Sha256) (request : VoterReplacementRequest)
    (cut : VoterSlotLogId) : Except VoterReplacementError VoterSlotTable :=
  match self.existingDigest request.attestation.requestId with
  | some digest => do
    refuseIf (digest ≠ request.attestation.requestDigest) .idempotencyConflict
    request.validate sha256
    return self
  | none => self.reserve sha256 request cut

/-! ## Advancing a replacement -/

variable (operation : VoterReplacementRecord)

/-- What a step makes of the operation; `none` is an exact retry. -/
def advanceOperation (cut : VoterSlotLogId) :
    VoterReplacementStep → Except VoterReplacementError (Option VoterReplacementRecord)
  | .recordSnapshot snapshot =>
    match operation.evidence.snapshot with
    | some existing => if existing = snapshot then .ok none else .error .idempotencyConflict
    | none => do
      refuseIf (operation.phase ≠ .prepared ∨ cut.index ≤ snapshot.cut.index ∨
        cut.term < snapshot.cut.term) .invalidTransition
      return some { operation with
        evidence := { operation.evidence with snapshot := some snapshot }
        phase := .snapshotInstalled }
  | .recordCaughtUp marker =>
    if operation.evidence.caughtUp = some marker then .ok none
    else do
      refuseIf (¬ (operation.phase = .learnerAdded ∨ operation.phase = .caughtUp) ∨
        marker.term ≠ cut.term ∨ cut.index ≤ marker.index) .invalidTransition
      return some { operation with
        evidence := { operation.evidence with caughtUp := some marker }
        phase := .caughtUp }
  | .recordContinuation =>
    if operation.evidence.continuation.isSome then .ok none
    else do
      refuseIf (.fenced ≤ operation.phase) .invalidTransition
      return some { operation with
        evidence := { operation.evidence with continuation := some cut } }
  | .fence =>
    if .fenced ≤ operation.phase then .ok none
    else do
      refuseIf (operation.phase ≠ .caughtUp ∨
        operation.evidence.caughtUp.all (fun marker => marker.term ≠ cut.term) = true)
        .invalidTransition
      return some { operation with
        evidence := { operation.evidence with fence := some cut }
        phase := .fenced }
  -- the whole operation ends; see `finalized`
  | .finalize => .error .invalidTransition

/-- The table after the operation has ended. -/
def finalized (operation : VoterReplacementRecord) (revision : Fin (2 ^ 64))
    (cut : VoterSlotLogId) : VoterSlotTable :=
  { self with
    slots := updateSlot operation.attestation.slot
      (fun record => { record with
        lastResult := some (self.terminalResult operation .completed
          record.member.identity.incarnation revision cut) }) self.slots
    replacement := none
    revision := revision }

/-- Whether a receipt shows that the request has completed. -/
def hasCompleted (requestId : Octets 16) (digest : Octets 32) : Bool :=
  (self.slots.filterMap (·.lastResult)).any fun result =>
    result.requestId = requestId && result.requestDigest = digest && result.kind = .completed

def advance (requestId : Octets 16) (digest : Octets 32) (step : VoterReplacementStep)
    (cut : VoterSlotLogId) : Except VoterReplacementError VoterSlotTable := do
  let revision ← self.nextRevision
  match self.replacement with
  | none =>
    if step = .finalize ∧ self.hasCompleted requestId digest = true then return self
    else throw .staleIncarnation
  | some operation => do
    refuseIf (operation.attestation.requestId ≠ requestId) .staleIncarnation
    refuseIf (operation.attestation.requestDigest ≠ digest) .idempotencyConflict
    refuseIf (cut.index ≤ operation.evidence.prepare.index ∨
      cut.term < operation.evidence.prepare.term) .invalidTransition
    if step = .finalize then do
      refuseIf (operation.phase ≠ .uniform) .invalidTransition
      let _ ← okOr (self.slots.find? fun record => record.slot = operation.attestation.slot)
        .invalidTransition
      return self.finalized operation revision cut
    else do
      let advanced ← advanceOperation operation cut step
      match advanced with
      | none => return self
      | some operation => return { self with replacement := some operation, revision := revision }

/-! ## Applying a command -/

/-- A marker is accepted only while the candidate catches up; it changes nothing. -/
def admitMarker (requestId : Octets 16) (digest : Octets 32) :
    Except VoterReplacementError Unit := do
  let operation ← okOr self.replacement .invalidTransition
  refuseIf (operation.attestation.requestId ≠ requestId ∨
    operation.attestation.requestDigest ≠ digest ∨
    ¬ (operation.phase = .learnerAdded ∨ operation.phase = .caughtUp)) .invalidTransition

/-- The table a command asks for. -/
def controlled (sha256 : Sha256) (control : VoterSlotControl)
    (cut : VoterSlotLogId) : Except VoterReplacementError VoterSlotTable := do
  self.validate.mapError fun _ => .invalidTransition
  refuseIf (cut.term = 0 ∨ cut.index = 0) .invalidTransition
  match control with
  | .begin request => self.begin sha256 request cut
  | .advance requestId digest step => self.advance requestId digest step cut
  | .marker requestId digest => do
    self.admitMarker requestId digest
    return self

/-- Publish a candidate table, or keep the current one. -/
def publishNext (next : Except VoterReplacementError VoterSlotTable) :
    Except VoterReplacementError Unit × VoterSlotTable :=
  match next with
  | .error fault => (.error fault, self)
  | .ok next =>
    if next = self then (.ok (), self)
    else match next.validateSuccessorOf self with
      | .error _ => (.error .invalidTransition, self)
      | .ok _ => (.ok (), next)

def applyControl (sha256 : Sha256) (control : VoterSlotControl) (cut : VoterSlotLogId) :
    Except VoterReplacementError Unit × VoterSlotTable :=
  self.publishNext (self.controlled sha256 control cut)

/-! ## Observing membership -/

/-- A learner that is neither an old nor a new member: the candidate that was
superseded, until the engine removes it. -/
def admitObsolete (obsolete : ConsensusNodeId) : Except VoterReplacementError Unit := do
  let identity ← (VoterSlotIdentity.fromNodeId obsolete).mapError fun _ => .invalidTransition
  let predecessor ← okOr (operation.predecessor.members.find? fun member =>
    member.identity.slot = operation.attestation.slot) .invalidTransition
  refuseIf (.snapshotInstalled < operation.phase ∨ identity.slot ≠ operation.attestation.slot ∨
    identity.incarnation.value ≤ predecessor.identity.incarnation.value ∨
    operation.attestation.expectedIncarnation.value < identity.incarnation.value)
    .invalidTransition

/-- The old uniform configuration, possibly with one learner. -/
def observeOld (old union nodes : Finset ConsensusNodeId) (candidate : ConsensusNodeId)
    (cut : VoterSlotLogId) : Except VoterReplacementError VoterReplacementRecord := do
  refuseIf (.joint ≤ operation.phase ∨ ¬ old ⊆ nodes ∨ old.card + 1 < nodes.card) .invalidTransition
  (match leastOf (nodes \ union) with
  | none => return ()
  | some obsolete => admitObsolete operation obsolete)
  if candidate ∈ nodes then do
    refuseIf (operation.phase < .snapshotInstalled) .invalidTransition
    if operation.phase = .snapshotInstalled then
      return { operation with
        evidence := { operation.evidence with learner := some cut }
        phase := .learnerAdded }
    else return operation
  else do
    refuseIf (.learnerAdded ≤ operation.phase) .invalidTransition
    return operation

/-- The joint configuration. -/
def observeJoint (cut : VoterSlotLogId) : Except VoterReplacementError VoterReplacementRecord := do
  refuseIf (¬ (operation.phase = .fenced ∨ operation.phase = .joint)) .invalidTransition
  if operation.phase = .fenced then
    return { operation with
      evidence := { operation.evidence with joint := some cut }
      phase := .joint }
  else return operation

/-- The new uniform configuration. -/
def observeUniform (cut : VoterSlotLogId) :
    Except VoterReplacementError VoterReplacementRecord := do
  refuseIf (¬ (operation.phase = .joint ∨ operation.phase = .uniform)) .invalidTransition
  if operation.phase = .joint then
    return { operation with
      evidence := { operation.evidence with uniform := some cut }
      phase := .uniform }
  else return operation

/-- What a membership entry makes of the operation. -/
def observeOperation (configurations : List (Finset ConsensusNodeId))
    (nodes : Finset ConsensusNodeId) (cut : VoterSlotLogId) :
    Except VoterReplacementError VoterReplacementRecord := do
  let old := memberIds operation.predecessor
  let new := memberIds operation.successor
  let candidate ← okOr (leastOf (new \ old)) .invalidTransition
  if configurations = [old] then observeOld operation old (old ∪ new) nodes candidate cut
  else if configurations = [old, new] ∧ nodes = old ∪ new then observeJoint operation cut
  else if configurations = [new] ∧ nodes = new then observeUniform operation cut
  else throw .invalidTransition

/-- The table with an observed operation, before its revision moves; only
reaching `uniform` moves the epoch. -/
def withObserved (operation observed : VoterReplacementRecord) : VoterSlotTable :=
  { self with
    configurationEpoch :=
      if operation.phase = .joint ∧ observed.phase = .uniform then operation.successor.epoch
      else self.configurationEpoch
    slots := updateSlot operation.attestation.slot
      (fun record => { record with phase := observed.phase.slotPhase }) self.slots
    replacement := some observed }

/-- The table a membership entry asks for. -/
def observed (self : VoterSlotTable) (configurations : List (Finset ConsensusNodeId))
    (nodes : Finset ConsensusNodeId) (cut : VoterSlotLogId) :
    Except VoterReplacementError VoterSlotTable := do
  let revision ← self.nextRevision
  match self.replacement with
  | none =>
    if configurations = [memberIds self.currentConfiguration] ∧
        nodes = memberIds self.currentConfiguration then return self
    else throw .invalidTransition
  | some operation => do
    let observed ← observeOperation operation configurations nodes cut
    let _ ← okOr (self.slots.find? fun record => record.slot = operation.attestation.slot)
      .invalidTransition
    if self.withObserved operation observed = self then return self
    else return { self.withObserved operation observed with revision := revision }

def observeMembership (configurations : List (Finset ConsensusNodeId))
    (nodes : Finset ConsensusNodeId) (cut : VoterSlotLogId) :
    Except VoterReplacementError Unit × VoterSlotTable :=
  self.publishNext (self.observed configurations nodes cut)

/-! ## Retirement -/

def isRetired (node : ConsensusNodeId) : Bool :=
  match VoterSlotIdentity.fromNodeId node with
  | .error _ => false
  | .ok identity => self.slots.any fun slot =>
    slot.slot = identity.slot && identity.incarnation.value ≤ slot.retiredThrough.val

end VoterSlotTable

end PacketCore.VoterSlots
