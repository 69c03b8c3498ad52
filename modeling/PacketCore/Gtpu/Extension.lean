import PacketCore.Protocol.Context

/-!
# GTP-U extension headers

An extension header is a length in units of four octets, its content, and the
type of the header after it; the type of the first one stands in the optional
fields of the message.  A zero type ends the chain.  The decoder walks the
chain under the limits of its context, and the iterator walks it again for
readers of the decoded message.
-/

namespace PacketCore.Gtpu

open Protocol

/-- A failure reported against the header section of the specification. -/
def fault (code : DecodeErrorCode) (offset : ℕ) : DecodeError :=
  ⟨code, offset, some "5.1"⟩

/-- The roles that may receive an extension header. -/
inductive GtpuExtensionHeaderRecipient
  | endpoint
  | intermediate
  | servingGatewayReceivingGpdu
deriving DecidableEq

/-- The class in the two high bits of an extension-header type. -/
inductive GtpuExtensionHeaderComprehension
  | notRequiredForward
  | notRequiredDiscardByIntermediate
  | requiredByEndpoint
  | requiredByRecipient

def GtpuExtensionHeaderComprehension.isRequiredBy :
    GtpuExtensionHeaderComprehension → GtpuExtensionHeaderRecipient → Bool
  | .notRequiredForward, _ => false
  | .notRequiredDiscardByIntermediate, _ => false
  | .requiredByEndpoint, .endpoint => true
  | .requiredByEndpoint, _ => false
  | .requiredByRecipient, _ => true

namespace GtpuExtensionHeaderType

def comprehension (value : Byte) : GtpuExtensionHeaderComprehension :=
  match value.val / 64 with
  | 0 => .notRequiredForward
  | 1 => .notRequiredDiscardByIntermediate
  | 2 => .requiredByEndpoint
  | _ => .requiredByRecipient

/-- UDP Port and PDU Session Container. -/
def isSupportedByEndpoint (value : Byte) : Bool :=
  value = 0x40 || value = 0x85

/-- The PDCP PDU Number of a serving gateway is exempt. -/
def unsupportedRequiresComprehensionBy (value : Byte) (recipient : GtpuExtensionHeaderRecipient) :
    Bool :=
  if value = 0xc0 && recipient = .servingGatewayReceivingGpdu then false
  else !isSupportedByEndpoint value && (comprehension value).isRequiredBy recipient

end GtpuExtensionHeaderType

structure GtpuExtensionHeader where
  extType : Byte
  content : List Byte
  nextExtType : Byte

/-- The types with a fixed content width. -/
def validateFixedLength (header : GtpuExtensionHeader) : Except DecodeError Unit :=
  let expected : Option ℕ :=
    if header.extType = 0x20 ∨ header.extType = 0x40 ∨ header.extType = 0xc0 then some 2
    else if header.extType = 0x03 ∨ header.extType = 0x82 then some 6
    else none
  refuseIf (∃ width ∈ expected, header.content.length ≠ width)
    ⟨.invalidLength "invalid typed GTP-U extension length", 0, none⟩

inductive PduSessionContainerError
  | invalidExtensionType
  | truncated
  | misaligned
  | reservedPduType
  | unsupportedDownlinkConditionalFields
  | missingPagingPolicyIndicator
  | unsupportedDownlinkExtensionFields
  | unsupportedUplinkConditionalFields
  | unsupportedUplinkExtensionFields

structure PduSessionContainer where
  pduType : ℕ
  qfi : ℕ
  ppi : Option ℕ
  rqi : Bool

namespace PduSessionContainer

/-- The paging policy of a downlink container; the octet is there exactly when
the PPP bit of the one before it is set. -/
def decodePpi (second : Byte) (rest : List Byte) :
    Except (PduSessionContainerError × ℕ) (Option ℕ) :=
  if 128 ≤ second.val then
    match rest with
    | [] => .error (.missingPagingPolicyIndicator, 1)
    | third :: _ => do
      refuseIf (third.val % 4 ≠ 0) (.unsupportedDownlinkConditionalFields, 2)
      refuseIf (rest.length ≠ 4) (.unsupportedDownlinkExtensionFields, 3)
      return some (third.val / 32)
  else do
    refuseIf (rest ≠ []) (.unsupportedDownlinkExtensionFields, 2)
    return none

def decodeWithReason (ext : GtpuExtensionHeader) :
    Except (PduSessionContainerError × ℕ) PduSessionContainer := do
  refuseIf (ext.extType ≠ 0x85) (.invalidExtensionType, 0)
  refuseIf (ext.content = []) (.truncated, 0)
  refuseIf ((ext.content.length + 2) % 4 ≠ 0) (.misaligned, 0)
  match ext.content with
  | first :: second :: rest =>
    if first.val / 16 = 0 then do
      refuseIf (first.val / 2 % 8 ≠ 0) (.unsupportedDownlinkConditionalFields, 0)
      let ppi ← decodePpi second rest
      return ⟨0, second.val % 64, ppi, second.val / 64 % 2 = 1⟩
    else if first.val / 16 = 1 then do
      refuseIf (first.val % 16 ≠ 0 ∨ second.val / 64 ≠ 0) (.unsupportedUplinkConditionalFields, 0)
      refuseIf (rest ≠ []) (.unsupportedUplinkExtensionFields, 2)
      return ⟨1, second.val % 64, none, false⟩
    else .error (.reservedPduType, 0)
  -- A single octet is refused above: its width is not aligned.
  | _ => .error (.truncated, 1)

end PduSessionContainer

/-- What the context asks of a header that is all there. -/
def validateExtension (ctx : DecodeContext) (header : GtpuExtensionHeader)
    (offset : ℕ) : Except DecodeError Unit := do
  let _ ← (if ctx.validationLevel = .procedureAware then
      (validateFixedLength header).mapError fun error => ⟨error.code, offset, some "5.2.2"⟩
    else .ok ())
  -- Reject applies endpoint comprehension, not format recognition.
  refuseIf (GtpuExtensionHeaderType.unsupportedRequiresComprehensionBy header.extType .endpoint ∧
    ctx.unknownIePolicy = .reject) (fault .unknownCriticalIe offset)
  refuseIf (ctx.validationLevel = .procedureAware ∧ header.extType = 0x85 ∧
    (PduSessionContainer.decodeWithReason header).isOk = false)
    (fault (.structural "malformed PDU Session Container") offset)

/-- The header at the front of `rest`, which stands at `offset` of the message,
with the number of octets it takes. -/
def takeExtension (ctx : DecodeContext) (current : Byte) (offset : ℕ)
    (rest : List Byte) : Except DecodeError (GtpuExtensionHeader × ℕ) := do
  refuseIf (rest.length < 4) (fault .truncated offset)
  let units := (rest.getD 0 0).val
  refuseIf (units = 0) (fault (.invalidLength "extension header units is zero") offset)
  refuseIf (rest.length < units * 4) (fault .truncated offset)
  let header : GtpuExtensionHeader :=
    ⟨current, (rest.take (units * 4 - 1)).drop 1, rest.getD (units * 4 - 1) 0⟩
  validateExtension ctx header offset
  return (header, units * 4)

/-- Walk the chain that starts with type `current` at `offset`; `rest` is the
message from there on.  The first two arguments are how much of the depth and
element limits is left.  Gives the offset where the chain ends. -/
def walkExtensions (ctx : DecodeContext) : ℕ → ℕ → Byte → ℕ → List Byte → Except DecodeError ℕ
  | depth, ies, current, offset, rest =>
    if current = 0 then .ok offset
    else
      match depth, ies with
      | 0, _ => .error (fault .depthExceeded offset)
      | _ + 1, 0 => .error (fault .ieCountExceeded offset)
      | depth + 1, ies + 1 => do
        let taken ← takeExtension ctx current offset rest
        walkExtensions ctx depth ies taken.1.nextExtType (offset + taken.2) (rest.drop taken.2)

/-- One call of the lazy iterator over the retained bytes: the item, and the
iterator after it. -/
def nextExtension (buffer : List Byte) (nextExtType : Byte) :
    Option (Except DecodeError GtpuExtensionHeader × List Byte × Byte) :=
  if nextExtType = 0 then none
  else
    match buffer with
    | [] => some (.error ⟨.truncated, 0, none⟩, buffer, 0)
    | units :: _ =>
      if units = 0 then
        some (.error ⟨.invalidLength "extension header units is zero", 0, none⟩, buffer, 0)
      else if buffer.length < units.val * 4 then some (.error ⟨.truncated, 0, none⟩, buffer, 0)
      else
        let next := buffer.getD (units.val * 4 - 1) 0
        some (.ok ⟨nextExtType, (buffer.take (units.val * 4 - 1)).drop 1, next⟩,
          buffer.drop (units.val * 4), next)

/-- The items the iterator gives, at most `fuel` of them. -/
def iterateExtensions : ℕ → List Byte → Byte → List (Except DecodeError GtpuExtensionHeader)
  | 0, _, _ => []
  | fuel + 1, buffer, nextExtType =>
    match nextExtension buffer nextExtType with
    | none => []
    | some (item, buffer, nextExtType) => item :: iterateExtensions fuel buffer nextExtType

end PacketCore.Gtpu
