import PacketCore.VoterSlots.Identity

/-!
# Voter slot records

The durable table of a fixed quorum: one record for each slot with its
permanent retirement floor, and at most one replacement in progress with the
log positions that prove how far it got.
-/

namespace PacketCore.VoterSlots

/-- Text as its characters. -/
abbrev Text := List Char

namespace Text

/-- The UTF-8 bytes of a text. -/
def utf8 (text : Text) : List Byte :=
  (text.flatMap String.utf8EncodeChar).map UInt8.toFin

/-- Length in bytes. -/
def len (text : Text) : ℕ := text.utf8.length

end Text

/-- Unicode general category Cc. -/
def isControl (c : Char) : Bool :=
  c.toNat ≤ 0x1f || (0x7f ≤ c.toNat && c.toNat ≤ 0x9f)

/-- Unicode White_Space property. -/
def isWhitespace (c : Char) : Bool :=
  (0x09 ≤ c.toNat && c.toNat ≤ 0x0d) || c.toNat = 0x20 || c.toNat = 0x85 || c.toNat = 0xa0 ||
    c.toNat = 0x1680 || (0x2000 ≤ c.toNat && c.toNat ≤ 0x200a) || c.toNat = 0x2028 ||
    c.toNat = 0x2029 || c.toNat = 0x202f || c.toNat = 0x205f || c.toNat = 0x3000

def maxFixedVoterSlots : ℕ := 9
def maxVoterSlotTableBytes : ℕ := 64 * 1024
def maxLostVoterAttestationBytes : ℕ := 8 * 1024
def maxVoterSpiffeIdBytes : ℕ := 2048
def maxVoterSnapshotIdBytes : ℕ := 256

/-! ## Identities of the installation -/

/-- Cluster, exact configuration and epoch. -/
structure ConsensusIdentity where
  clusterId : Octets 32
  configurationId : Octets 32
  configurationEpoch : ConsensusConfigurationEpoch
deriving DecidableEq

/-! ## Slots -/

/-- Public binding of an incarnation. -/
structure VoterSlotMember where
  identity : VoterSlotIdentity
  keyDigest : Octets 32
  descriptorDigest : Octets 32
  admissionGeneration : Fin (2 ^ 64)
deriving DecidableEq

inductive VoterSlotPhase where
  | pending
  | catchingUp
  | voting
deriving DecidableEq

namespace VoterSlotPhase

def ordinal : VoterSlotPhase → ℕ
  | pending => 0
  | catchingUp => 1
  | voting => 2

theorem ordinal_injective : Function.Injective ordinal := by
  intro left right _
  cases left <;> cases right <;> simp_all [ordinal]

instance : LinearOrder VoterSlotPhase := LinearOrder.lift' ordinal ordinal_injective

end VoterSlotPhase

/-- Full log position. -/
structure VoterSlotLogId where
  term : Fin (2 ^ 64)
  index : Fin (2 ^ 64)
deriving DecidableEq

inductive VoterReplacementResultKind where
  | completed
  | superseded
deriving DecidableEq

/-- The last terminal result of a slot. -/
structure VoterReplacementResult where
  requestId : Octets 16
  requestDigest : Octets 32
  incarnation : VoterIncarnation
  revision : Fin (2 ^ 64)
  configurationEpoch : ConsensusConfigurationEpoch
  kind : VoterReplacementResultKind
  terminal : VoterSlotLogId
deriving DecidableEq

structure VoterSlotRecord where
  member : VoterSlotMember
  /-- Every incarnation up to this one is retired for good. -/
  retiredThrough : Fin (2 ^ 64)
  phase : VoterSlotPhase
  lastResult : Option VoterReplacementResult
deriving DecidableEq

/-- The slot a record is about. -/
def VoterSlotRecord.slot (record : VoterSlotRecord) : SlotId := record.member.identity.slot

/-! ## A replacement in progress -/

structure VoterSnapshotEvidence where
  cut : VoterSlotLogId
  snapshotId : Text
  digest : Octets 32
deriving DecidableEq

/-- Exact members of one uniform configuration, in slot order. -/
structure VoterConfiguration where
  epoch : ConsensusConfigurationEpoch
  members : List VoterSlotMember
deriving DecidableEq

inductive VoterLossReason where
  | storageLost
  | timeBoundLoss
deriving DecidableEq

/-- Signed claims that a voter is lost. -/
structure LostVoterAttestationV1 where
  requestId : Octets 16
  requestDigest : Octets 32
  clusterInstance : Octets 32
  slot : SlotId
  expectedIncarnation : VoterIncarnation
  oldDescriptorDigest : Octets 32
  candidateKeyDigest : Octets 32
  admissionGeneration : Fin (2 ^ 64)
  candidateSpiffeId : Text
  controllerSpiffeId : Text
  signingKeyDigest : Octets 32
  reason : VoterLossReason
  policyDigest : Octets 32
  observationStartMs : Fin (2 ^ 64)
  decisionMs : Fin (2 ^ 64)
  issuedMs : Fin (2 ^ 64)
  expiresMs : Fin (2 ^ 64)
  signature : Octets 64
deriving DecidableEq

inductive VoterReplacementPhase where
  | prepared
  | snapshotInstalled
  | learnerAdded
  | caughtUp
  | fenced
  | joint
  | uniform
deriving DecidableEq

namespace VoterReplacementPhase

def ordinal : VoterReplacementPhase → ℕ
  | prepared => 0
  | snapshotInstalled => 1
  | learnerAdded => 2
  | caughtUp => 3
  | fenced => 4
  | joint => 5
  | uniform => 6

theorem ordinal_injective : Function.Injective ordinal := by
  intro left right _
  cases left <;> cases right <;> simp_all [ordinal]

instance : LinearOrder VoterReplacementPhase := LinearOrder.lift' ordinal ordinal_injective

/-- The phase a slot shows while its replacement is at this phase. -/
def slotPhase : VoterReplacementPhase → VoterSlotPhase
  | prepared | snapshotInstalled => .pending
  | learnerAdded | caughtUp | fenced => .catchingUp
  | joint | uniform => .voting

end VoterReplacementPhase

/-- Log positions that prove the phase of a replacement. -/
structure VoterReplacementEvidence where
  prepare : VoterSlotLogId
  snapshot : Option VoterSnapshotEvidence
  learner : Option VoterSlotLogId
  caughtUp : Option VoterSlotLogId
  continuation : Option VoterSlotLogId
  fence : Option VoterSlotLogId
  joint : Option VoterSlotLogId
  uniform : Option VoterSlotLogId
deriving DecidableEq

structure VoterReplacementRecord where
  expectedRevision : Fin (2 ^ 64)
  attestation : LostVoterAttestationV1
  predecessor : VoterConfiguration
  successor : VoterConfiguration
  phase : VoterReplacementPhase
  evidence : VoterReplacementEvidence
deriving DecidableEq

/-- The durable table of a fixed quorum. -/
structure VoterSlotTable where
  clusterInstance : Octets 32
  manifestDigest : Octets 32
  revision : Fin (2 ^ 64)
  configurationEpoch : ConsensusConfigurationEpoch
  slots : List VoterSlotRecord
  replacement : Option VoterReplacementRecord
deriving DecidableEq

end PacketCore.VoterSlots
