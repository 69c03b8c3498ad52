import PacketCore.VoterSlots.Records

/-!
# Validation of voter slot tables

Every stored, decoded or newly computed table passes the same structural check,
and a table replaces another one only if it is a successor of it: floors,
incarnations and receipts never move back, and the evidence of a replacement in
progress is retained until the replacement is terminal.
-/

namespace PacketCore.VoterSlots

def require (valid : Prop) [Decidable valid] : Except VoterSlotError Unit :=
  refuseIf (¬ valid) .invalidRecord

@[simp]
theorem require_eq_ok {valid : Prop} [Decidable valid] {done : Unit} :
    require valid = .ok done ↔ valid := by
  simp [require]

theorem require_bind {β : Type} {valid : Prop} [Decidable valid]
    {rest : Unit → Except VoterSlotError β} {result : β}
    (hok : (require valid >>= rest) = .ok result) : valid ∧ rest () = .ok result :=
  (refuseIf_bind hok).imp_left not_not.mp

def validateCount (count : ℕ) : Except VoterSlotError Unit :=
  require (0 < count ∧ count ≤ maxFixedVoterSlots ∧ count % 2 = 1)

namespace VoterConfiguration

def validate (self : VoterConfiguration) : Except VoterSlotError Unit := do
  validateCount self.members.length
  require (∀ member ∈ self.members, 0 < member.admissionGeneration)
  require (self.members.IsChain fun left right =>
    left.identity.slot.value < right.identity.slot.value)

end VoterConfiguration

/-- The scheme every workload identity starts with. -/
def spiffeScheme : Text := ['s', 'p', 'i', 'f', 'f', 'e', ':', '/', '/']

namespace LostVoterAttestationV1

def validateIdentity (identity : Text) : Except VoterSlotError Unit := do
  refuseIf (maxVoterSpiffeIdBytes < identity.len) .tooLarge
  require (spiffeScheme <+: identity ∧ 9 < identity.len ∧
    identity.any (fun c => isControl c || isWhitespace c) = false)

def validate (self : LostVoterAttestationV1) : Except VoterSlotError Unit := do
  validateIdentity self.candidateSpiffeId
  validateIdentity self.controllerSpiffeId
  require (0 < self.admissionGeneration ∧ self.observationStartMs ≤ self.decisionMs ∧
    self.decisionMs ≤ self.issuedMs ∧ self.issuedMs < self.expiresMs)

end LostVoterAttestationV1

/-! ## Log positions -/

variable {first older second self third : VoterSlotLogId}

namespace VoterSlotLogId

def validate (self : VoterSlotLogId) : Except VoterSlotError Unit :=
  require (0 < self.term ∧ 0 < self.index)

def follows (self older : VoterSlotLogId) (allowEqual : Bool) : Bool :=
  if self.index = older.index then allowEqual && self = older
  else older.index < self.index && older.term ≤ self.term

/-- Neither the index nor the term lies past the other position. -/
def Within (self bound : VoterSlotLogId) : Prop :=
  self.index ≤ bound.index ∧ self.term ≤ bound.term

instance (self bound : VoterSlotLogId) : Decidable (self.Within bound) :=
  inferInstanceAs (Decidable (_ ∧ _))

theorem Within.refl (self : VoterSlotLogId) : self.Within self := ⟨le_rfl, le_rfl⟩

theorem Within.trans (hleft : first.Within second)
    (hright : second.Within third) : first.Within third :=
  ⟨hleft.1.trans hright.1, hleft.2.trans hright.2⟩

theorem follows_strict :
    self.follows older false = true ↔ older.index < self.index ∧ older.term ≤ self.term := by
  unfold follows
  split
  · next hindex => simp [hindex]
  · simp

theorem follows_strict_of_within (hwithin : first.Within second)
    (hfollows : third.follows second false = true) : third.follows first false = true := by
  rw [follows_strict] at hfollows ⊢
  exact ⟨hwithin.1.trans_lt hfollows.1, hwithin.2.trans hfollows.2⟩

theorem within_of_follows {allowEqual : Bool}
    (hfollows : self.follows older allowEqual = true) : older.Within self := by
  unfold follows at hfollows
  split at hfollows
  · rw [Bool.and_eq_true, decide_eq_true_eq] at hfollows
    rw [hfollows.2]
    exact .refl _
  · rw [Bool.and_eq_true, decide_eq_true_eq, decide_eq_true_eq] at hfollows
    exact ⟨hfollows.1.le, hfollows.2⟩

end VoterSlotLogId

/-! ## Evidence -/

namespace VoterReplacementEvidence

/-- Position of the installed snapshot. -/
def snapshotCut (self : VoterReplacementEvidence) : Option VoterSlotLogId :=
  self.snapshot.map (·.cut)

/-- The optional positions, each with the phase from which on it is present. -/
def ordered (self : VoterReplacementEvidence) :
    List (Option VoterSlotLogId × VoterReplacementPhase) :=
  [(self.snapshotCut, .snapshotInstalled), (self.learner, .learnerAdded),
    (self.caughtUp, .caughtUp), (self.fence, .fenced), (self.joint, .joint),
    (self.uniform, .uniform)]

/-- One iteration over `ordered`; the state is the last position seen. -/
def validateCut (phase : VoterReplacementPhase) (previous : VoterSlotLogId)
    (entry : Option VoterSlotLogId × VoterReplacementPhase) :
    Except VoterSlotError VoterSlotLogId := do
  require (entry.1.isSome = decide (entry.2 ≤ phase))
  match entry.1 with
  | none => return previous
  | some cut => do
    cut.validate
    require (cut.follows previous (entry.2 = .snapshotInstalled) = true)
    return cut

/-- The continuation may lie on either side of the catch-up positions. -/
def validateContinuation (self : VoterReplacementEvidence)
    (continuation : VoterSlotLogId) : Except VoterSlotError Unit := do
  continuation.validate
  require (continuation.follows self.prepare false = true)
  require (∀ fence ∈ self.fence, fence.follows continuation false = true)
  [(self.snapshotCut, true), (self.learner, false), (self.caughtUp, false)].forM fun entry =>
    require (∀ cut ∈ entry.1,
      (if cut.index ≤ continuation.index then continuation.follows cut entry.2
      else cut.follows continuation false) = true)

def validate (self : VoterReplacementEvidence) (phase : VoterReplacementPhase) :
    Except VoterSlotError Unit := do
  self.prepare.validate
  (match self.snapshot with
  | none => .ok ()
  | some snapshot => do
    refuseIf (maxVoterSnapshotIdBytes < snapshot.snapshotId.len) .tooLarge
    require (snapshot.snapshotId ≠ [] ∧ snapshot.snapshotId.any isControl = false))
  let _ ← self.ordered.foldlM (validateCut phase) self.prepare
  match self.continuation with
  | none => return ()
  | some continuation => self.validateContinuation continuation

def retainsMarker (self previous : VoterReplacementEvidence)
    (previousPhase : VoterReplacementPhase) : Bool :=
  match self.caughtUp, previous.caughtUp with
  | _, none => true
  | some new, some old =>
    new = old || (decide (previousPhase < .fenced) && new.follows old false)
  | none, some _ => false

def retains (self previous : VoterReplacementEvidence)
    (previousPhase : VoterReplacementPhase) : Bool :=
  self.prepare = previous.prepare &&
    (previous.snapshot.isNone || self.snapshot = previous.snapshot) &&
    self.retainsMarker previous previousPhase &&
    [(self.learner, previous.learner), (self.continuation, previous.continuation),
      (self.fence, previous.fence), (self.joint, previous.joint),
      (self.uniform, previous.uniform)].all fun pair => pair.2.isNone || pair.1 = pair.2

/-- The positions that are present besides the first one. -/
def cuts (self : VoterReplacementEvidence) : List VoterSlotLogId :=
  [self.snapshotCut, self.learner, self.caughtUp, self.continuation, self.fence,
    self.joint, self.uniform].reduceOption

def latest (self : VoterReplacementEvidence) : VoterSlotLogId :=
  self.cuts.foldl (fun latest cut => if latest.index < cut.index then cut else latest) self.prepare

end VoterReplacementEvidence

/-! ## Tables -/

namespace VoterSlotTable

/-- Whether the replacement in progress is about this slot. -/
def isActive (self : VoterSlotTable) (slot : SlotId) : Bool :=
  self.replacement.any fun operation => operation.attestation.slot = slot

def validateReceipt (self : VoterSlotTable) (slot : VoterSlotRecord)
    (result : VoterReplacementResult) : Except VoterSlotError Unit := do
  result.terminal.validate
  require (0 < result.revision ∧ result.revision ≤ self.revision ∧
    result.configurationEpoch.value ≤ self.configurationEpoch.value ∧
    1 < result.incarnation.value ∧
    result.incarnation.value ≤ slot.member.identity.incarnation.value)
  require (self.isActive slot.slot = true →
    result.incarnation.value < slot.member.identity.incarnation.value)
  require (result.incarnation = slot.member.identity.incarnation →
    slot.phase = .voting ∧ result.kind = .completed)

def validateSlot (self : VoterSlotTable) (slot : VoterSlotRecord) : Except VoterSlotError Unit := do
  require (0 < slot.member.admissionGeneration ∧
    slot.retiredThrough.val = slot.member.identity.incarnation.value - 1)
  require (self.isActive slot.slot = false →
    1 < slot.member.identity.incarnation.value → slot.lastResult.any (fun result =>
      result.incarnation = slot.member.identity.incarnation && result.kind = .completed) = true)
  match slot.lastResult with
  | none => return ()
  | some result => self.validateReceipt slot result

/-- One row of the operation check: a slot with the old and the new member at its place. -/
def validateOperationSlot (op : VoterReplacementRecord) (slot : VoterSlotRecord)
    (predecessor successor : VoterSlotMember) : Except VoterSlotError Unit := do
  require (slot.member = successor ∧ predecessor.identity.slot = successor.identity.slot)
  (if slot.slot = op.attestation.slot then do
    let next ← op.attestation.expectedIncarnation.next
    require (next = successor.identity.incarnation ∧
      predecessor.identity.incarnation.value ≤ op.attestation.expectedIncarnation.value ∧
      predecessor.admissionGeneration < successor.admissionGeneration ∧
      successor.admissionGeneration = op.attestation.admissionGeneration ∧
      successor.keyDigest = op.attestation.candidateKeyDigest)
    require (slot.phase = op.phase.slotPhase)
    if predecessor.identity.incarnation = op.attestation.expectedIncarnation then
      require (predecessor.descriptorDigest = op.attestation.oldDescriptorDigest)
    else do
      -- a superseded candidate: its receipt was written together with the new reservation
      let receipt ← okOr slot.lastResult .invalidRecord
      require (receipt.incarnation = op.attestation.expectedIncarnation ∧
        receipt.kind = .superseded ∧ receipt.terminal = op.evidence.prepare)
  else require (predecessor = successor ∧ slot.phase = .voting))
  require (∀ result ∈ slot.lastResult, result.requestId ≠ op.attestation.requestId)

def validateOperation (self : VoterSlotTable) (op : VoterReplacementRecord) :
    Except VoterSlotError Unit := do
  op.attestation.validate
  op.predecessor.validate
  op.successor.validate
  op.evidence.validate op.phase
  require (0 < op.expectedRevision ∧ op.expectedRevision < self.revision ∧
    op.attestation.clusterInstance = self.clusterInstance ∧
    3 ≤ self.slots.length ∧ op.predecessor.members.length = self.slots.length ∧
    op.successor.members.length = self.slots.length ∧
    checkedAdd op.predecessor.epoch.value 1 = some op.successor.epoch.value)
  require (self.configurationEpoch =
    if op.phase = .uniform then op.successor.epoch else op.predecessor.epoch)
  let rows := (self.slots.zip op.predecessor.members).zip op.successor.members
  rows.forM fun row => validateOperationSlot op row.1.1 row.1.2 row.2
  require (rows.any (fun row => row.1.1.slot = op.attestation.slot) = true)

def validate (self : VoterSlotTable) : Except VoterSlotError Unit := do
  validateCount self.slots.length
  require (0 < self.revision)
  require (self.slots.IsChain fun left right => left.slot.value < right.slot.value)
  self.slots.forM self.validateSlot
  self.slots.zipIdx.forM fun entry =>
    require (∀ result ∈ entry.1.lastResult,
      ∀ earlier ∈ (self.slots.take entry.2).filterMap (·.lastResult),
        earlier.requestId ≠ result.requestId)
  match self.replacement with
  | some operation => self.validateOperation operation
  | none => require (∀ slot ∈ self.slots, slot.phase = .voting)

/-! ## Successors -/

/-- What a slot's receipt may change to. -/
def validateReceiptSuccessor (new : Option VoterReplacementResult)
    (old : VoterReplacementResult) : Except VoterSlotError Unit := do
  let result ← okOr new .regression
  refuseIf (result.revision < old.revision ∨ result.incarnation.value < old.incarnation.value ∨
    result.configurationEpoch.value < old.configurationEpoch.value ∨
    ((result.revision = old.revision ∨ result.incarnation = old.incarnation) ∧ result ≠ old))
    .regression

def validateSlotSuccessor (new old : VoterSlotRecord) : Except VoterSlotError Unit := do
  refuseIf (new.slot ≠ old.slot ∨ new.retiredThrough < old.retiredThrough ∨
    new.member.identity.incarnation.value < old.member.identity.incarnation.value ∨
    (new.member.identity.incarnation = old.member.identity.incarnation ∧
      (new.member ≠ old.member ∨ new.phase < old.phase)) ∨
    (old.member.identity.incarnation.value < new.member.identity.incarnation.value ∧
      new.member.admissionGeneration ≤ old.member.admissionGeneration)) .regression
  match old.lastResult with
  | none => return ()
  | some result => validateReceiptSuccessor new.lastResult result

/-- The receipt that has to be there once an operation is no longer in progress. -/
def validateResolved (self : VoterSlotTable) (old : VoterReplacementRecord) :
    Except VoterSlotError Unit := do
  let slot ← okOr (self.slots.find? fun slot => slot.slot = old.attestation.slot) .regression
  let oldIncarnation ← old.attestation.expectedIncarnation.next
  let receipt ← okOr slot.lastResult .regression
  refuseIf (receipt.incarnation.value < oldIncarnation.value ∨
    receipt.terminal.follows old.evidence.latest false = false ∨
    (.fenced ≤ old.phase ∧ self.configurationEpoch.value < old.successor.epoch.value)) .regression
  if receipt.incarnation = oldIncarnation then do
    refuseIf (receipt.requestId ≠ old.attestation.requestId ∨
      receipt.requestDigest ≠ old.attestation.requestDigest) .regression
    refuseIf (receipt.kind = .completed ∧
      self.configurationEpoch.value < old.successor.epoch.value) .regression
    refuseIf (receipt.kind ≠ .completed ∧ .fenced ≤ old.phase) .regression
  else return ()

/-- What the replacement in progress may change to. -/
def validateReplacementSuccessor (self : VoterSlotTable)
    (old : VoterReplacementRecord) : Except VoterSlotError Unit :=
  match self.replacement.filter fun new =>
      new.attestation.requestId = old.attestation.requestId with
  | some new =>
    refuseIf (new.expectedRevision ≠ old.expectedRevision ∨ new.attestation ≠ old.attestation ∨
      new.predecessor ≠ old.predecessor ∨ new.successor ≠ old.successor ∨
      new.phase < old.phase ∨ new.evidence.retains old.evidence old.phase = false) .regression
  | none => self.validateResolved old

def validateSuccessorOf (self previous : VoterSlotTable) : Except VoterSlotError Unit := do
  self.validate
  previous.validate
  refuseIf (self.clusterInstance ≠ previous.clusterInstance ∨
    self.manifestDigest ≠ previous.manifestDigest ∨ self.revision < previous.revision ∨
    self.configurationEpoch.value < previous.configurationEpoch.value ∨
    self.slots.length ≠ previous.slots.length) .regression
  if self.revision = previous.revision then
    if self = previous then return () else throw .regression
  else do
    (self.slots.zip previous.slots).forM fun pair => validateSlotSuccessor pair.1 pair.2
    match previous.replacement with
    | none => return ()
    | some old => self.validateReplacementSuccessor old

end VoterSlotTable

end PacketCore.VoterSlots
