import PacketCore.Library.Wire
import PacketCore.VoterSlots.Validation

/-!
# Byte layout of voter slot records

Tables and attestations have one canonical fixed-width big-endian layout.
Configurations and requests are named by a digest of such bytes; the digest
function is a parameter.  Decoding validates what it read, and gives back every
record that was encoded.
-/

namespace PacketCore.VoterSlots

/-! ## Writing -/

namespace Writer

def u8 (value : ℕ) : List Byte := bigEndian 1 value
def u16 (value : ℕ) : List Byte := bigEndian 2 value
def u64 (value : ℕ) : List Byte := bigEndian 8 value

def sizedBytes (value : List Byte) : Except VoterSlotError (List Byte) := do
  refuseIf (2 ^ 16 ≤ value.length) .tooLarge
  return u16 value.length ++ value

def identity (identity : VoterSlotIdentity) : List Byte :=
  u16 identity.slot.value ++ u64 identity.incarnation.value

def binding (member : VoterSlotMember) : List Byte :=
  member.keyDigest.toList ++ (member.descriptorDigest.toList ++ u64 member.admissionGeneration.val)

def member (member : VoterSlotMember) : List Byte :=
  identity member.identity ++ binding member

def configuration (config : VoterConfiguration) : List Byte :=
  u64 config.epoch.value ++ (u8 config.members.length ++ config.members.flatMap member)

def logId (id : VoterSlotLogId) : List Byte := u64 id.term.val ++ u64 id.index.val

def optional {α : Type} (write : α → List Byte) : Option α → List Byte
  | none => u8 0
  | some value => u8 1 ++ write value

end Writer

def voterSlotTableFormat : List Byte := [79, 80, 86, 73]
def version : ℕ := 1

def replacementRequestDomain : Text :=
  "openpacketcore/consensus/replace-lost-voter-request/v1\x00".toList
def voterConfigurationDomain : Text :=
  "openpacketcore/consensus/voter-configuration/v1\x00".toList

/-- Digest of a byte string. -/
abbrev Sha256 := List Byte → Octets 32

/-- Name of an exact configuration of an installation. -/
def VoterConfiguration.identity (self : VoterConfiguration) (sha256 : Sha256)
    (cluster manifest : Octets 32) : Except VoterSlotError ConsensusIdentity := do
  self.validate
  let digest := sha256 (voterConfigurationDomain.utf8 ++ cluster.toList ++
    manifest.toList ++ Writer.u64 self.epoch.value ++
    Writer.u8 self.members.length ++ self.members.flatMap Writer.member)
  return ⟨cluster, digest, self.epoch⟩

/-! ## Attestations -/

def VoterLossReason.code : VoterLossReason → ℕ
  | .storageLost => 1
  | .timeBoundLoss => 2

/-- The fixed-width claims between the request identity and the two workload names. -/
def Writer.claims (claims : LostVoterAttestationV1) : List Byte :=
  claims.clusterInstance.toList ++ (u16 claims.slot.value ++
    (u64 claims.expectedIncarnation.value ++ (claims.oldDescriptorDigest.toList ++
      (claims.candidateKeyDigest.toList ++ u64 claims.admissionGeneration.val))))

/-- The fixed-width claims after the two workload names. -/
def Writer.decision (claims : LostVoterAttestationV1) : List Byte :=
  claims.signingKeyDigest.toList ++ (u8 claims.reason.code ++ (claims.policyDigest.toList ++
    (u64 claims.observationStartMs.val ++ (u64 claims.decisionMs.val ++
      (u64 claims.issuedMs.val ++ u64 claims.expiresMs.val)))))

def unsignedClaims (claims : LostVoterAttestationV1) (includeDigest : Bool) :
    Except VoterSlotError (List Byte) := do
  claims.validate
  let candidate ← Writer.sizedBytes claims.candidateSpiffeId.utf8
  let controller ← Writer.sizedBytes claims.controllerSpiffeId.utf8
  let digest := if includeDigest then claims.requestDigest.toList else []
  return Writer.u16 version ++ (claims.requestId.toList ++ (digest ++
    (Writer.claims claims ++ (candidate ++ (controller ++ Writer.decision claims)))))

def encodeLostVoterAttestation (claims : LostVoterAttestationV1) :
    Except VoterSlotError (List Byte) := do
  let unsigned ← unsignedClaims claims true
  let out := unsigned ++ claims.signature.toList
  refuseIf (maxLostVoterAttestationBytes < out.length) .tooLarge
  return out

/-- Name of a replacement request; the digest field and the signature are left out. -/
def voterReplacementRequestDigest (sha256 : Sha256) (expectedRevision : Fin (2 ^ 64))
    (expectedConfiguration : ConsensusIdentity) (candidate : VoterSlotMember)
    (claims : LostVoterAttestationV1) : Except VoterSlotError (Octets 32) := do
  refuseIf (expectedRevision = 0 ∨ expectedConfiguration.clusterId ≠ claims.clusterInstance ∨
    candidate.identity.slot ≠ claims.slot) .invalidRecord
  let next ← claims.expectedIncarnation.next
  refuseIf (candidate.identity.incarnation ≠ next ∨
    candidate.keyDigest ≠ claims.candidateKeyDigest ∨
    candidate.admissionGeneration ≠ claims.admissionGeneration) .invalidRecord
  let unsigned ← unsignedClaims claims false
  return sha256 (replacementRequestDomain.utf8 ++ Writer.u16 version ++
    Writer.u64 expectedRevision.val ++ expectedConfiguration.clusterId.toList ++
    expectedConfiguration.configurationId.toList ++
    Writer.u64 expectedConfiguration.configurationEpoch.value ++
      Writer.member candidate ++ unsigned)

/-! ## Tables -/

def VoterReplacementResultKind.code : VoterReplacementResultKind → ℕ
  | .completed => 0
  | .superseded => 1

namespace Writer

def result (result : VoterReplacementResult) : List Byte :=
  result.requestId.toList ++ (result.requestDigest.toList ++ (u64 result.incarnation.value ++
    (u64 result.revision.val ++ (u64 result.configurationEpoch.value ++
      (u8 result.kind.code ++ logId result.terminal)))))

def slot (slot : VoterSlotRecord) : List Byte :=
  identity slot.member.identity ++ (u64 slot.retiredThrough.val ++
    (binding slot.member ++ (u8 slot.phase.ordinal ++ optional result slot.lastResult)))

/-- The snapshot identifier is the only part that can exceed its length field. -/
def snapshot : Option VoterSnapshotEvidence → Except VoterSlotError (List Byte)
  | none => return u8 0
  | some evidence => do
    let name ← sizedBytes evidence.snapshotId.utf8
    return u8 1 ++ (logId evidence.cut ++ (name ++ evidence.digest.toList))

def replacement : Option VoterReplacementRecord → Except VoterSlotError (List Byte)
  | none => return u8 0
  | some operation => do
    let encoded ← encodeLostVoterAttestation operation.attestation
    let attestation ← sizedBytes encoded
    let snapshot ← snapshot operation.evidence.snapshot
    return u8 1 ++ (u64 operation.expectedRevision.val ++ (attestation ++
      (configuration operation.predecessor ++ (configuration operation.successor ++
        (u8 operation.phase.ordinal ++ (logId operation.evidence.prepare ++
          (snapshot ++ (optional logId operation.evidence.learner ++
            (optional logId operation.evidence.caughtUp ++
              (optional logId operation.evidence.continuation ++
                (optional logId operation.evidence.fence ++
                  (optional logId operation.evidence.joint ++
                    optional logId operation.evidence.uniform))))))))))))

end Writer

def encodeVoterSlotTable (table : VoterSlotTable) : Except VoterSlotError (List Byte) := do
  table.validate
  let replacement ← Writer.replacement table.replacement
  let out := voterSlotTableFormat ++ (Writer.u16 version ++ (table.clusterInstance.toList ++
    (table.manifestDigest.toList ++ (Writer.u64 table.revision.val ++
      (Writer.u64 table.configurationEpoch.value ++ (Writer.u8 table.slots.length ++
        (table.slots.flatMap Writer.slot ++ replacement)))))))
  refuseIf (maxVoterSlotTableBytes < out.length) .tooLarge
  return out

/-! ## Reading -/

namespace Input

def array (width : ℕ) : Reader VoterSlotError (Octets width) := .octets .invalidRecord width

def u8 : Reader VoterSlotError ℕ := .number .invalidRecord 1

def u16 : Reader VoterSlotError (Fin (2 ^ 16)) := do
  let value ← Reader.number .invalidRecord 2
  return Fin.ofNat (2 ^ 16) value

def u64 : Reader VoterSlotError (Fin (2 ^ 64)) := do
  let value ← Reader.number .invalidRecord 8
  return Fin.ofNat (2 ^ 64) value

def epoch : Reader VoterSlotError ConsensusConfigurationEpoch := do
  let value ← u64
  StateT.lift (okOr (ConsensusConfigurationEpoch.new value) .invalidRecord)

def incarnation : Reader VoterSlotError VoterIncarnation := do
  let value ← u64
  StateT.lift (VoterIncarnation.new value.val)

def slotId : Reader VoterSlotError SlotId := do
  let value ← u16
  StateT.lift (SlotId.new value)

def identity : Reader VoterSlotError VoterSlotIdentity := do
  let slot ← slotId
  let incarnation ← incarnation
  return ⟨slot, incarnation⟩

def count : Reader VoterSlotError ℕ := do
  let count ← u8
  StateT.lift (validateCount count)
  return count

def binding (identity : VoterSlotIdentity) : Reader VoterSlotError VoterSlotMember := do
  let keyDigest ← array 32
  let descriptorDigest ← array 32
  let admissionGeneration ← u64
  return ⟨identity, keyDigest, descriptorDigest, admissionGeneration⟩

def member : Reader VoterSlotError VoterSlotMember := do
  let identity ← identity
  binding identity

def configuration : Reader VoterSlotError VoterConfiguration := do
  let epoch ← epoch
  let count ← count
  let members ← Reader.repeated member count
  return ⟨epoch, members⟩

/-- The value a tag byte stands for. -/
def tagged {α : Type} (meaning : ℕ → Option α) : Reader VoterSlotError α := do
  let code ← u8
  StateT.lift (okOr (meaning code) .invalidRecord)

def optional {α : Type} (read : Reader VoterSlotError α) : Reader VoterSlotError (Option α) := do
  let present ← tagged fun code =>
    if code = 0 then some false else if code = 1 then some true else none
  if present then do
    let value ← read
    return some value
  else return none

def logId : Reader VoterSlotError VoterSlotLogId := do
  let term ← u64
  let index ← u64
  return ⟨term, index⟩

def sizedBytes (bound : ℕ) : Reader VoterSlotError (List Byte) := do
  let count ← u16
  StateT.lift (refuseIf (bound < count.val) .tooLarge)
  Reader.take .invalidRecord count.val

/-- Text from UTF-8 bytes. -/
def fromUtf8 (bytes : List Byte) : Option Text :=
  (bytes.map UInt8.ofFin).toByteArray.utf8Decode?.map Array.toList

def string (bound : ℕ) : Reader VoterSlotError Text := do
  let bytes ← sizedBytes bound
  StateT.lift (okOr (fromUtf8 bytes) .invalidRecord)

/-- Read a complete input. -/
def complete {α : Type} (read : Reader VoterSlotError α) (bytes : List Byte) :
    Except VoterSlotError α := do
  let result ← read.run bytes
  require (result.2 = [])
  return result.1

end Input

/-! ## Decoding -/

def VoterLossReason.ofCode (code : ℕ) : Option VoterLossReason :=
  if code = 1 then some .storageLost else if code = 2 then some .timeBoundLoss else none

def VoterReplacementResultKind.ofCode (code : ℕ) : Option VoterReplacementResultKind :=
  if code = 0 then some .completed else if code = 1 then some .superseded else none

def VoterSlotPhase.ofOrdinal (ordinal : ℕ) : Option VoterSlotPhase :=
  [.pending, .catchingUp, .voting][ordinal]?

def VoterReplacementPhase.ofOrdinal (ordinal : ℕ) : Option VoterReplacementPhase :=
  [.prepared, .snapshotInstalled, .learnerAdded, .caughtUp, .fenced, .joint, .uniform][ordinal]?

namespace Input

def attestation : Reader VoterSlotError LostVoterAttestationV1 := do
  let found ← u16
  StateT.lift (require (found.val = version))
  let requestId ← array 16
  let requestDigest ← array 32
  let clusterInstance ← array 32
  let slot ← slotId
  let expectedIncarnation ← incarnation
  let oldDescriptorDigest ← array 32
  let candidateKeyDigest ← array 32
  let admissionGeneration ← u64
  let candidateSpiffeId ← string maxVoterSpiffeIdBytes
  let controllerSpiffeId ← string maxVoterSpiffeIdBytes
  let signingKeyDigest ← array 32
  let reason ← tagged VoterLossReason.ofCode
  let policyDigest ← array 32
  let observationStartMs ← u64
  let decisionMs ← u64
  let issuedMs ← u64
  let expiresMs ← u64
  let signature ← array 64
  return ⟨requestId, requestDigest, clusterInstance, slot, expectedIncarnation,
    oldDescriptorDigest, candidateKeyDigest, admissionGeneration, candidateSpiffeId,
    controllerSpiffeId, signingKeyDigest, reason, policyDigest,
    observationStartMs, decisionMs, issuedMs, expiresMs, signature⟩

end Input

def decodeLostVoterAttestation (bytes : List Byte) :
    Except VoterSlotError LostVoterAttestationV1 := do
  refuseIf (maxLostVoterAttestationBytes < bytes.length) .tooLarge
  let record ← Input.complete Input.attestation bytes
  record.validate
  return record

namespace Input

def result : Reader VoterSlotError VoterReplacementResult := do
  let requestId ← array 16
  let requestDigest ← array 32
  let incarnation ← incarnation
  let revision ← u64
  let configurationEpoch ← epoch
  let kind ← tagged VoterReplacementResultKind.ofCode
  let terminal ← logId
  return ⟨requestId, requestDigest, incarnation, revision, configurationEpoch, kind, terminal⟩

def slot : Reader VoterSlotError VoterSlotRecord := do
  let identity ← identity
  let retiredThrough ← u64
  let member ← binding identity
  let phase ← tagged VoterSlotPhase.ofOrdinal
  let lastResult ← optional result
  return ⟨member, retiredThrough, phase, lastResult⟩

def snapshot : Reader VoterSlotError VoterSnapshotEvidence := do
  let cut ← logId
  let snapshotId ← string maxVoterSnapshotIdBytes
  let digest ← array 32
  return ⟨cut, snapshotId, digest⟩

def evidence : Reader VoterSlotError VoterReplacementEvidence := do
  let prepare ← logId
  let snapshot ← optional snapshot
  let learner ← optional logId
  let caughtUp ← optional logId
  let continuation ← optional logId
  let fence ← optional logId
  let joint ← optional logId
  let uniform ← optional logId
  return ⟨prepare, snapshot, learner, caughtUp, continuation, fence, joint, uniform⟩

def replacement : Reader VoterSlotError VoterReplacementRecord := do
  let expectedRevision ← u64
  let claims ← sizedBytes maxLostVoterAttestationBytes
  let attestation ← StateT.lift (decodeLostVoterAttestation claims)
  let predecessor ← configuration
  let successor ← configuration
  let phase ← tagged VoterReplacementPhase.ofOrdinal
  let evidence ← evidence
  return ⟨expectedRevision, attestation, predecessor, successor, phase, evidence⟩

def table : Reader VoterSlotError VoterSlotTable := do
  let magic ← Reader.take .invalidRecord 4
  let found ← u16
  StateT.lift (require (magic = voterSlotTableFormat))
  StateT.lift (refuseIf (found.val ≠ version) .freshInstallationRequired)
  let clusterInstance ← array 32
  let manifestDigest ← array 32
  let revision ← u64
  let configurationEpoch ← epoch
  let count ← count
  let slots ← Reader.repeated slot count
  let replacement ← optional replacement
  return ⟨clusterInstance, manifestDigest, revision, configurationEpoch, slots, replacement⟩

end Input

def decodeVoterSlotTable (bytes : List Byte) : Except VoterSlotError VoterSlotTable := do
  refuseIf (maxVoterSlotTableBytes < bytes.length) .tooLarge
  let table ← Input.complete Input.table bytes
  table.validate
  return table

end PacketCore.VoterSlots
