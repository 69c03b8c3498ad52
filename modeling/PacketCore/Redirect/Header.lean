import PacketCore.Library.Wire

/-!
# The header of a redirect frame

Eighty-eight octets in front of every frame that one node redirects to another.
A data frame carries a packet and the key of its owner; a receipt answers one
data frame.  The decoder takes all fields from the wire and then refuses the
first one that is out of place.
-/

namespace PacketCore.Redirect

inductive IngressRedirectFrameKind
  | data
  | receipt
deriving DecidableEq

inductive IngressRedirectSecurityMode
  | aes256Gcm
  | hmacSha256
deriving DecidableEq

inductive IngressRedirectReceiptCode
  | delivered
  | notOwner
  | staleOwnershipGeneration
  | ownershipViewStale
  | queueFull
  | hopLimitReached
  | classificationMismatch
  | ownershipMissing
  | receiverViewBehind
  | routingDomainNotAuthorized

inductive IngressRedirectHeaderError
  | truncated
  | invalidMagic
  | unsupportedVersion
  | unknownKind
  | unknownSecurityMode
  | nonZeroReserved
  | invalidHop
  | invalidLengths
  | invalidReceipt
  | invalidSequence

def ingressRedirectMagic : List.Vector Byte 4 := ⟨[0x4f, 0x50, 0x43, 0x52], rfl⟩

def ingressRedirectVersion : Word 1 := 1

def ingressRedirectHeaderLen : ℕ := 88

def ingressRedirectOwnershipKeyMaxLen : ℕ := 59

namespace IngressRedirectFrameKind

def code : IngressRedirectFrameKind → Word 1
  | data => 1
  | receipt => 2

def ofCode (code : Word 1) : Except IngressRedirectHeaderError IngressRedirectFrameKind :=
  match code.val with
  | 1 => .ok data
  | 2 => .ok receipt
  | _ => .error .unknownKind

theorem ofCode_code (kind : IngressRedirectFrameKind) : ofCode kind.code = .ok kind := by
  cases kind <;> rfl

end IngressRedirectFrameKind

namespace IngressRedirectSecurityMode

def code : IngressRedirectSecurityMode → Word 1
  | aes256Gcm => 1
  | hmacSha256 => 2

def ofCode (code : Word 1) : Except IngressRedirectHeaderError IngressRedirectSecurityMode :=
  match code.val with
  | 1 => .ok aes256Gcm
  | 2 => .ok hmacSha256
  | _ => .error .unknownSecurityMode

theorem ofCode_code (mode : IngressRedirectSecurityMode) : ofCode mode.code = .ok mode := by
  cases mode <;> rfl

def tagLen : IngressRedirectSecurityMode → ℕ
  | aes256Gcm => 16
  | hmacSha256 => 32

end IngressRedirectSecurityMode

namespace IngressRedirectReceiptCode

/-- The octet of an optional receipt code; data frames have zero. -/
def code : Option IngressRedirectReceiptCode → Word 1
  | none => 0
  | some delivered => 1
  | some notOwner => 2
  | some staleOwnershipGeneration => 3
  | some ownershipViewStale => 4
  | some queueFull => 5
  | some hopLimitReached => 6
  | some classificationMismatch => 7
  | some ownershipMissing => 8
  | some receiverViewBehind => 9
  | some routingDomainNotAuthorized => 10

def ofCode (code : Word 1) :
    Except IngressRedirectHeaderError (Option IngressRedirectReceiptCode) :=
  match code.val with
  | 0 => .ok none
  | 1 => .ok (some delivered)
  | 2 => .ok (some notOwner)
  | 3 => .ok (some staleOwnershipGeneration)
  | 4 => .ok (some ownershipViewStale)
  | 5 => .ok (some queueFull)
  | 6 => .ok (some hopLimitReached)
  | 7 => .ok (some classificationMismatch)
  | 8 => .ok (some ownershipMissing)
  | 9 => .ok (some receiverViewBehind)
  | 10 => .ok (some routingDomainNotAuthorized)
  | _ => .error .invalidReceipt

theorem ofCode_code (receipt : Option IngressRedirectReceiptCode) :
    ofCode (code receipt) = .ok receipt := by
  rcases receipt with _ | receipt
  · rfl
  · cases receipt <;> rfl

end IngressRedirectReceiptCode

structure IngressRedirectFrameHeader where
  kind : IngressRedirectFrameKind
  securityMode : IngressRedirectSecurityMode
  hopCount : Word 1
  hopLimit : Word 1
  receiptCode : Option IngressRedirectReceiptCode
  epoch : Word 8
  sequence : Word 8
  ownershipGeneration : Word 8
  senderDigest : List.Vector Byte 32
  ownershipKeyLen : Word 2
  packetLen : Word 2
  acknowledgedEpoch : Word 8
  acknowledgedSequence : Word 8

variable {encoded : List Byte} {header : IngressRedirectFrameHeader}

namespace IngressRedirectFrameHeader

/-- The fields of a data frame that a receipt must not have, and the reverse. -/
def validateKind (header : IngressRedirectFrameHeader) : Except IngressRedirectHeaderError Unit :=
  match header.kind with
  | .data => do
    refuseIf (header.hopCount = 0 ∨ header.hopLimit = 0 ∨ header.hopLimit < header.hopCount)
      .invalidHop
    refuseIf (header.receiptCode.isSome ∨ header.ownershipGeneration = 0 ∨
      header.acknowledgedEpoch ≠ 0 ∨ header.acknowledgedSequence ≠ 0) .invalidReceipt
    refuseIf (header.ownershipKeyLen = 0 ∨
      ingressRedirectOwnershipKeyMaxLen < header.ownershipKeyLen.val ∨
      header.packetLen = 0) .invalidLengths
  | .receipt => do
    refuseIf (header.hopCount ≠ 0 ∨ header.hopLimit ≠ 0) .invalidHop
    refuseIf (header.receiptCode.isNone ∨ header.ownershipGeneration ≠ 0 ∨
      header.acknowledgedEpoch = 0 ∨ header.acknowledgedSequence = 0) .invalidReceipt
    refuseIf (header.ownershipKeyLen ≠ 0 ∨ header.packetLen ≠ 0) .invalidLengths

def validate (header : IngressRedirectFrameHeader) : Except IngressRedirectHeaderError Unit := do
  refuseIf (header.epoch = 0 ∨ header.sequence = 0) .invalidSequence
  header.validateKind

/-- Construct a structurally valid data header. -/
def data (securityMode : IngressRedirectSecurityMode)
    (hopCount hopLimit : Word 1) (epoch sequence ownershipGeneration : Word 8)
    (senderDigest : List.Vector Byte 32) (ownershipKeyLen packetLen : Word 2) :
    Except IngressRedirectHeaderError IngressRedirectFrameHeader := do
  let header : IngressRedirectFrameHeader :=
    { kind := .data, securityMode, hopCount, hopLimit, receiptCode := none, epoch, sequence,
      ownershipGeneration, senderDigest, ownershipKeyLen, packetLen
      acknowledgedEpoch := 0, acknowledgedSequence := 0 }
  header.validate
  return header

/-- Construct a structurally valid receipt header. -/
def receipt (securityMode : IngressRedirectSecurityMode) (epoch sequence : Word 8)
    (senderDigest : List.Vector Byte 32) (acknowledgedEpoch acknowledgedSequence : Word 8)
    (receiptCode : IngressRedirectReceiptCode) :
    Except IngressRedirectHeaderError IngressRedirectFrameHeader := do
  let header : IngressRedirectFrameHeader :=
    { kind := .receipt, securityMode, hopCount := 0, hopLimit := 0
      receiptCode := some receiptCode, epoch, sequence, ownershipGeneration := 0, senderDigest
      ownershipKeyLen := 0, packetLen := 0, acknowledgedEpoch, acknowledgedSequence }
  header.validate
  return header

/-- Encode the exact fixed-width v1 representation. -/
def encode (header : IngressRedirectFrameHeader) : List Byte :=
  ingressRedirectMagic.toList ++ (ingressRedirectVersion.bytes ++ (header.kind.code.bytes ++
    (header.securityMode.code.bytes ++ ((0 : Word 1).bytes ++ (header.hopCount.bytes ++
    (header.hopLimit.bytes ++ ((IngressRedirectReceiptCode.code header.receiptCode).bytes ++
    ((0 : Word 1).bytes ++ (header.epoch.bytes ++ (header.sequence.bytes ++
    (header.ownershipGeneration.bytes ++ (header.senderDigest.toList ++
    (header.ownershipKeyLen.bytes ++ (header.packetLen.bytes ++
    (header.acknowledgedEpoch.bytes ++ header.acknowledgedSequence.bytes)))))))))))))))

/-- The fields as they stand on the wire. -/
structure Raw where
  magic : List.Vector Byte 4
  version : Word 1
  kind : Word 1
  securityMode : Word 1
  reserved : Word 1
  hopCount : Word 1
  hopLimit : Word 1
  receiptCode : Word 1
  reservedAfter : Word 1
  epoch : Word 8
  sequence : Word 8
  ownershipGeneration : Word 8
  senderDigest : List.Vector Byte 32
  ownershipKeyLen : Word 2
  packetLen : Word 2
  acknowledgedEpoch : Word 8
  acknowledgedSequence : Word 8

/-- The header that the fields make up, with the checks in the decoder's order. -/
def ofRaw (raw : Raw) : Except IngressRedirectHeaderError IngressRedirectFrameHeader := do
  refuseIf (raw.magic ≠ ingressRedirectMagic) .invalidMagic
  refuseIf (raw.version ≠ ingressRedirectVersion) .unsupportedVersion
  let kind ← IngressRedirectFrameKind.ofCode raw.kind
  let securityMode ← IngressRedirectSecurityMode.ofCode raw.securityMode
  refuseIf (raw.reserved ≠ 0 ∨ raw.reservedAfter ≠ 0) .nonZeroReserved
  let receiptCode ← IngressRedirectReceiptCode.ofCode raw.receiptCode
  let header : IngressRedirectFrameHeader :=
    { kind, securityMode, hopCount := raw.hopCount, hopLimit := raw.hopLimit, receiptCode
      epoch := raw.epoch, sequence := raw.sequence
      ownershipGeneration := raw.ownershipGeneration, senderDigest := raw.senderDigest
      ownershipKeyLen := raw.ownershipKeyLen, packetLen := raw.packetLen
      acknowledgedEpoch := raw.acknowledgedEpoch
      acknowledgedSequence := raw.acknowledgedSequence }
  header.validate
  return header

def read : Reader IngressRedirectHeaderError IngressRedirectFrameHeader := do
  let magic ← Reader.octets .truncated 4
  let version ← Reader.word .truncated 1
  let kind ← Reader.word .truncated 1
  let securityMode ← Reader.word .truncated 1
  let reserved ← Reader.word .truncated 1
  let hopCount ← Reader.word .truncated 1
  let hopLimit ← Reader.word .truncated 1
  let receiptCode ← Reader.word .truncated 1
  let reservedAfter ← Reader.word .truncated 1
  let epoch ← Reader.word .truncated 8
  let sequence ← Reader.word .truncated 8
  let ownershipGeneration ← Reader.word .truncated 8
  let senderDigest ← Reader.octets .truncated 32
  let ownershipKeyLen ← Reader.word .truncated 2
  let packetLen ← Reader.word .truncated 2
  let acknowledgedEpoch ← Reader.word .truncated 8
  let acknowledgedSequence ← Reader.word .truncated 8
  StateT.lift (ofRaw
    { magic, version, kind, securityMode, reserved, hopCount, hopLimit, receiptCode, reservedAfter
      epoch, sequence, ownershipGeneration, senderDigest, ownershipKeyLen, packetLen
      acknowledgedEpoch, acknowledgedSequence })

/-- Parse and strictly validate a v1 header prefix. -/
def decode (encoded : List Byte) : Except IngressRedirectHeaderError IngressRedirectFrameHeader :=
  (read.run encoded).map Prod.fst

/-- The fields that the encoder writes. -/
def raw (header : IngressRedirectFrameHeader) : Raw :=
  { magic := ingressRedirectMagic, version := ingressRedirectVersion, kind := header.kind.code
    securityMode := header.securityMode.code, reserved := 0, hopCount := header.hopCount
    hopLimit := header.hopLimit
    receiptCode := IngressRedirectReceiptCode.code header.receiptCode, reservedAfter := 0
    epoch := header.epoch, sequence := header.sequence
    ownershipGeneration := header.ownershipGeneration, senderDigest := header.senderDigest
    ownershipKeyLen := header.ownershipKeyLen, packetLen := header.packetLen
    acknowledgedEpoch := header.acknowledgedEpoch
    acknowledgedSequence := header.acknowledgedSequence }

theorem ofRaw_raw (header : IngressRedirectFrameHeader) :
    ofRaw header.raw = header.validate.map fun _ => header := by
  unfold ofRaw raw
  simp only [ok_bind, IngressRedirectFrameKind.ofCode_code,
    IngressRedirectSecurityMode.ofCode_code, IngressRedirectReceiptCode.ofCode_code]
  cases header.validate <;> rfl

/-- An encoding has the fixed length.  The decoder gives back its header, whatever
follows, or refuses it with the error of its validation. -/
theorem decode_encode_header (header : IngressRedirectFrameHeader) (rest : List Byte) :
    header.encode.length = ingressRedirectHeaderLen ∧
      decode (header.encode ++ rest) = header.validate.map fun _ => header := by
  refine ⟨by simp [encode, ingressRedirectHeaderLen], ?_⟩
  have hread : Yields read header.encode (ofRaw header.raw) := by
    apply Yields.field (Reads.octets _)
    iterate 11 apply Yields.field (Reads.word _)
    apply Yields.field (Reads.octets _)
    iterate 3 apply Yields.field (Reads.word _)
    apply Yields.final (Reads.word _)
    change Yields (StateT.lift (ofRaw header.raw)) [] _
    intro _
    cases ofRaw header.raw <;> rfl
  rw [decode, hread, ofRaw_raw]
  cases header.validate <;> rfl

theorem validate_of_ofRaw {raw : Raw} (hraw : ofRaw raw = .ok header) :
    header.validate = .ok () := by
  -- The six checks before the header is put together.
  iterate 6 obtain ⟨_, -, hraw⟩ := bind_eq_ok hraw
  obtain ⟨_, hvalid, hraw⟩ := bind_eq_ok hraw
  cases hraw
  exact hvalid

/-- What the decoder accepts is valid. -/
theorem validate_of_decode (hdecode : decode encoded = .ok header) : header.validate = .ok () := by
  unfold decode at hdecode
  cases hrun : read.run encoded with
  | error =>
    rw [hrun] at hdecode
    cases hdecode
  | ok =>
    rw [hrun] at hdecode
    cases hdecode
    iterate 17 obtain ⟨_, _, -, hrun⟩ := run_bind_eq_ok hrun
    cases hraw : ofRaw _ with
    | error =>
      rw [hraw] at hrun
      cases hrun
    | ok =>
      rw [hraw] at hrun
      cases hrun
      exact validate_of_ofRaw hraw

theorem sequence_pos_of_decode (hdecode : decode encoded = .ok header) :
    0 < header.sequence.val := by
  obtain ⟨_, hcheck, -⟩ := bind_eq_ok (validate_of_decode hdecode)
  rw [refuseIf_eq_ok, not_or] at hcheck
  exact Nat.pos_of_ne_zero fun hzero => hcheck.2 (Fin.ext hzero)

end IngressRedirectFrameHeader

end PacketCore.Redirect
