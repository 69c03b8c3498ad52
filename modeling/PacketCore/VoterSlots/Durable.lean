import PacketCore.VoterSlots.Control

/-!
# Durable admission state

The committed table together with at most one reservation that is appended to
the log but not applied yet.  A node is fenced while the reservation that would
retire it is stored, and for good once the table retires it.
-/

namespace PacketCore.VoterSlots

/-- A reservation that is appended and not yet applied. -/
structure VoterSlotIntent where
  logId : VoterSlotLogId
  request : VoterReplacementRequest
deriving DecidableEq

/-- The incarnation that is closed provisionally. -/
def VoterSlotIntent.target (intent : VoterSlotIntent) : ConsensusNodeId :=
  VoterSlotIdentity.nodeId
    ⟨intent.request.attestation.slot, intent.request.attestation.expectedIncarnation⟩

structure VoterSlotDurableState where
  table : VoterSlotTable
  intent : Option VoterSlotIntent

/-- The log positions a table refers to. -/
def VoterSlotTable.cuts (table : VoterSlotTable) : List VoterSlotLogId :=
  (table.slots.filterMap fun slot => slot.lastResult.map (·.terminal)) ++
    (match table.replacement with
    | none => []
    | some operation => operation.evidence.prepare :: operation.evidence.cuts)

def tableCutsWithin (table : VoterSlotTable) (cut : VoterSlotLogId) : Bool :=
  table.cuts.all fun id => decide (id.Within cut)

namespace VoterSlotDurableState

def new (table : VoterSlotTable) : Except VoterSlotError VoterSlotDurableState := do
  table.validate
  return ⟨table, none⟩

variable (self : VoterSlotDurableState)

def validateIntent (sha256 : Sha256) : Except VoterSlotError Unit :=
  match self.intent with
  | none => return ()
  | some intent => do
    (intent.request.validate sha256).mapError fun _ => .invalidRecord
    refuseIf (intent.logId.term = 0 ∨ intent.logId.index = 0 ∨
      intent.request.attestation.clusterInstance ≠ self.table.clusterInstance ∨
      self.table.slots.all (fun slot => slot.slot ≠ intent.request.attestation.slot) = true)
      .invalidRecord

def restore (table : VoterSlotTable) (intent : Option VoterSlotIntent)
    (sha256 : Sha256) : Except VoterSlotError VoterSlotDurableState := do
  table.validate
  let state : VoterSlotDurableState := ⟨table, intent⟩
  state.validateIntent sha256
  return state

/-- Append against the projection `before` of the log that precedes the intent. -/
def appendIntentAfterPrefix (sha256 : Sha256) (intent : VoterSlotIntent)
    (before : VoterSlotTable) : Except VoterReplacementError Unit × VoterSlotDurableState :=
  match before.validateSuccessorOf self.table with
  | .error _ => (.error .invalidTransition, self)
  | .ok _ =>
    match self.intent with
    | some existing =>
      if existing = intent then (.ok (), self) else (.error .replacementInProgress, self)
    | none =>
      match before.applyControl sha256 (.begin intent.request) intent.logId with
      | (.error fault, _) => (.error fault, self)
      | (.ok _, proposed) =>
        -- an exact retry reserves nothing
        if proposed = before then (.ok (), self)
        else (.ok (), { self with intent := some intent })

def appendIntent (sha256 : Sha256) (intent : VoterSlotIntent) :
    Except VoterReplacementError Unit × VoterSlotDurableState :=
  self.appendIntentAfterPrefix sha256 intent self.table

def truncateFrom (firstIndex : Fin (2 ^ 64)) : VoterSlotDurableState :=
  if self.intent.any (fun intent => firstIndex ≤ intent.logId.index) then
    { self with intent := none }
  else self

def publish (table : VoterSlotTable) (cut : VoterSlotLogId) :
    Except VoterSlotError Unit × VoterSlotDurableState :=
  match table.validateSuccessorOf self.table with
  | .error fault => (.error fault, self)
  | .ok _ =>
    if (cut.term = 0 ∧ (cut.index ≠ 0 ∨ table.revision ≠ 1)) ∨
        tableCutsWithin table cut = false then
      (.error .invalidRecord, self)
    else if self.intent.any (fun intent => intent.logId.index ≤ cut.index) then
      (.ok (), ⟨table, none⟩)
    else (.ok (), { self with table := table })

def publishApplied (table : VoterSlotTable) (applied : VoterSlotLogId) :
    Except VoterSlotError Unit × VoterSlotDurableState :=
  self.publish table applied

def publishSnapshot (table : VoterSlotTable) (cut : VoterSlotLogId) :
    Except VoterSlotError Unit × VoterSlotDurableState :=
  self.publish table cut

/-- Retired members of the effective membership, and the target of the stored intent. -/
def engineFences (effectiveMembers : Finset ConsensusNodeId) : Finset ConsensusNodeId :=
  let retired := effectiveMembers.filter fun node => self.table.isRetired node = true
  match self.intent with
  | none => retired
  | some intent => insert intent.target retired

end VoterSlotDurableState

/-! ## Durable form

The state is stored as the table's own bytes and the intent.  The serializer of
that pair is a parameter. -/

def stateHeader : List Byte := [79, 80, 86, 71, 0, 1]
def maxStateBytes : ℕ := 2 * maxVoterSlotTableBytes
def consensusMaxRpcPayloadBytes : ℕ := 2 * 1024 * 1024

/-- An intent as it is serialized; its attestation travels as canonical bytes. -/
structure IntentWire where
  logId : VoterSlotLogId
  expectedRevision : Fin (2 ^ 64)
  expectedConfiguration : ConsensusIdentity
  candidate : VoterSlotMember
  attestation : List Byte

structure Wire where
  table : List Byte
  intent : Option IntentWire

/-- Length of the byte strings of a stored value. -/
def Wire.size (wire : Wire) : ℕ :=
  wire.table.length + wire.intent.elim 0 (·.attestation.length)

/-- The serializer: the bytes of a value, and the value that a byte string
starts with together with the bytes that follow it. -/
structure Postcard where
  toBytes : Wire → List Byte
  takeFromBytes : List Byte → Option (Wire × List Byte)

namespace Postcard

/-- What is assumed of the serializer: a value is read back from its own bytes
with nothing left over, and takes at most 256 bytes more than its byte strings. -/
structure Lawful (postcard : Postcard) : Prop where
  takeFromBytes_toBytes : ∀ wire : Wire, wire.size < 2 ^ 64 →
    postcard.takeFromBytes (postcard.toBytes wire) = some (wire, [])
  length_toBytes_le : ∀ wire : Wire, wire.size < 2 ^ 64 →
    (postcard.toBytes wire).length ≤ wire.size + 256

variable (postcard : Postcard)

def encodeBounded (wire : Wire) : Except VoterSlotError (List Byte) := do
  refuseIf (consensusMaxRpcPayloadBytes < (postcard.toBytes wire).length) .invalidRecord
  return postcard.toBytes wire

def decodeBounded (encoded : List Byte) : Except VoterSlotError Wire := do
  refuseIf (consensusMaxRpcPayloadBytes < encoded.length) .invalidRecord
  let (wire, remainder) ← okOr (postcard.takeFromBytes encoded) .invalidRecord
  refuseIf (remainder ≠ []) .invalidRecord
  return wire

end Postcard

namespace VoterSlotIntent

def serialize (intent : VoterSlotIntent) : Except VoterSlotError IntentWire := do
  let attestation ← encodeLostVoterAttestation intent.request.attestation
  return ⟨intent.logId, intent.request.expectedRevision,
    intent.request.expectedConfiguration, intent.request.candidate, attestation⟩

def deserialize (wire : IntentWire) : Except VoterSlotError VoterSlotIntent := do
  let attestation ← decodeLostVoterAttestation wire.attestation
  return ⟨wire.logId,
    ⟨wire.expectedRevision, wire.expectedConfiguration, wire.candidate, attestation⟩⟩

end VoterSlotIntent

namespace VoterSlotDurableState

variable (postcard : Postcard) (sha256 : Sha256)

def encode (self : VoterSlotDurableState) : Except VoterSlotError (List Byte) := do
  let table ← encodeVoterSlotTable self.table
  self.validateIntent sha256
  -- an attestation that cannot be written is a fault of the serializer
  let intent ← (self.intent.mapM VoterSlotIntent.serialize).mapError fun _ => .invalidRecord
  let encoded ← postcard.encodeBounded ⟨table, intent⟩
  refuseIf (maxStateBytes < encoded.length + stateHeader.length) .tooLarge
  return stateHeader ++ encoded

def decode (bytes : List Byte) : Except VoterSlotError VoterSlotDurableState := do
  refuseIf (maxStateBytes < bytes.length) .tooLarge
  require (stateHeader.length ≤ bytes.length ∧ bytes.take 4 = stateHeader.take 4)
  refuseIf (bytes.take stateHeader.length ≠ stateHeader) .freshInstallationRequired
  let wire ← postcard.decodeBounded (bytes.drop stateHeader.length)
  let intent ← (wire.intent.mapM VoterSlotIntent.deserialize).mapError fun _ => .invalidRecord
  let table ← decodeVoterSlotTable wire.table
  let state : VoterSlotDurableState := ⟨table, intent⟩
  state.validateIntent sha256
  return state

end VoterSlotDurableState

end PacketCore.VoterSlots
