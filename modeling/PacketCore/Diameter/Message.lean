import PacketCore.Library.Loop
import PacketCore.Library.Word

/-!
# Diameter messages

The message header, the framing of the AVP region, and the two inspections the
pending-request table makes: of a request before it is tracked or restored, and
of an answer before it is matched.  The framing context is the conservative
one: strict validation and at most 128 top-level AVPs.
-/

namespace PacketCore.Diameter

def headerLen : ℕ := 20

/-- The largest value of a 24-bit field. -/
def maxU24 : ℕ := 2 ^ 24 - 1

/-- The flags octet of a command. -/
structure CommandFlags where
  bits : Byte

namespace CommandFlags

def isRequest (flags : CommandFlags) : Bool := flags.bits.val / 128 % 2 = 1

def isProxiable (flags : CommandFlags) : Bool := flags.bits.val / 64 % 2 = 1

def isError (flags : CommandFlags) : Bool := flags.bits.val / 32 % 2 = 1

def isPotentiallyRetransmitted (flags : CommandFlags) : Bool := flags.bits.val / 16 % 2 = 1

def reservedBits (flags : CommandFlags) : ℕ := flags.bits.val % 16

/-- A request; the T bit is set on its retransmissions. -/
def request (proxiable retransmission : Bool) : CommandFlags :=
  ⟨Fin.ofNat 256 (128 + 64 * proxiable.toNat + 16 * retransmission.toNat)⟩

end CommandFlags

structure Header where
  version : Byte
  length : Word 4
  flags : CommandFlags
  commandCode : Word 4
  applicationId : Word 4
  hopByHopIdentifier : Word 4
  endToEndIdentifier : Word 4

/-- A message that owns its AVP bytes. -/
structure OwnedMessage where
  header : Header
  rawAvps : List Byte

/-- The command code fits its 24-bit field. -/
def fitsWire (commandCode : Word 4) : Bool := commandCode.val ≤ maxU24

structure RawAvp where
  code : ℕ
  vendorId : Option ℕ
  value : List Byte

/-- One AVP from the front of the input; its padding must be zero. -/
def decodeRawAvp (input : List Byte) : Option (RawAvp × List Byte) :=
  let flags := (input.getD 4 0).val
  let length := fromBigEndian ((input.drop 5).take 3)
  let avpHeaderLen := if flags / 128 % 2 = 1 then 12 else 8
  let paddedLen := (length + 3) / 4 * 4
  if 8 ≤ input.length ∧ flags % 32 = 0 ∧ avpHeaderLen ≤ input.length ∧ avpHeaderLen ≤ length ∧
      paddedLen ≤ input.length ∧ ((input.take paddedLen).drop length).all (· = 0) then
    some ({
      code := fromBigEndian (input.take 4)
      vendorId := if flags / 128 % 2 = 1 then some (fromBigEndian ((input.drop 8).take 4)) else none
      value := (input.take length).drop avpHeaderLen }, input.drop paddedLen)
  else none

/-- All AVPs of a region, when it is well framed and has at most `limit`. -/
def decodeAvps : ℕ → List Byte → Option (List RawAvp)
  | _, [] => some []
  | 0, _ :: _ => none
  | limit + 1, input =>
    match decodeRawAvp input with
    | none => none
    | some (avp, rest) => (decodeAvps limit rest).map (avp :: ·)

/-- The AVPs of a region under the conservative limits. -/
def topLevelAvps (rawAvps : List Byte) : Option (List RawAvp) := decodeAvps 128 rawAvps

def isOriginHost (avp : RawAvp) : Bool := avp.vendorId = none ∧ avp.code = 264

def isDestinationHost (avp : RawAvp) : Bool := avp.vendorId = none ∧ avp.code = 293

inductive TrackError
  | tableFull
  | duplicateCompletionToken
  | duplicateEndToEnd
  | unknownConnection
  | connectionClosed
  | hopByHopSpaceExhausted
  | attemptIdentifierConflict
  | notARequest
  | malformedRequest
  | unsupportedVersion
  | alreadyRetransmitted
  | originHostInvalid
deriving DecidableEq

structure RequestFacts where
  commandCode : Word 4
  applicationId : Word 4
  proxiable : Bool
  endToEndIdentifier : Word 4
  fixedDestination : Bool
deriving DecidableEq

/-- The length field agrees with the AVP region, within the configured bound. -/
def lengthAgrees (message : OwnedMessage) (maxMessageLen : ℕ) : Prop :=
  headerLen + message.rawAvps.length ≤ maxMessageLen ∧
    headerLen + message.rawAvps.length ≤ maxU24 ∧
    message.header.length.val = headerLen + message.rawAvps.length

instance (message : OwnedMessage) (maxMessageLen : ℕ) :
    Decidable (lengthAgrees message maxMessageLen) :=
  inferInstanceAs (Decidable (_ ∧ _ ∧ _))

/-- Exactly one Origin-Host, and it is not empty. -/
def originHostValid (avps : List RawAvp) : Prop :=
  ∃ host, avps.filter isOriginHost = [host] ∧ host.value ≠ []

instance (avps : List RawAvp) : Decidable (originHostValid avps) :=
  match hhosts : avps.filter isOriginHost with
  | [] => .isFalse (by simp [originHostValid, hhosts])
  | [host] => decidable_of_iff (host.value ≠ []) (by simp [originHostValid, hhosts])
  | _ :: _ :: _ => .isFalse (by simp [originHostValid, hhosts])

/-- What the AVP region says about a request: whether its destination is fixed. -/
def inspectAvps (rawAvps : List Byte) : Except TrackError Bool := do
  let avps ← okOr (topLevelAvps rawAvps) .malformedRequest
  refuseIf (¬ originHostValid avps) .originHostInvalid
  return avps.any isDestinationHost

def inspectRequest (request : OwnedMessage) (maxMessageLen : ℕ) :
    Except TrackError RequestFacts := do
  let header := request.header
  refuseIf (header.version ≠ 1) .unsupportedVersion
  refuseIf (¬ header.flags.isRequest) .notARequest
  refuseIf (header.flags.isError ∨ header.flags.reservedBits ≠ 0 ∨ ¬ fitsWire header.commandCode)
    .malformedRequest
  refuseIf header.flags.isPotentiallyRetransmitted .alreadyRetransmitted
  refuseIf (¬ lengthAgrees request maxMessageLen) .malformedRequest
  let fixedDestination ← inspectAvps request.rawAvps
  return {
    commandCode := header.commandCode
    applicationId := header.applicationId
    proxiable := header.flags.isProxiable
    endToEndIdentifier := header.endToEndIdentifier
    fixedDestination }

inductive AnswerRejectionReason
  | notAnAnswer
  | unsupportedVersion
  | invalidLength
  | invalidFlags
  | malformedHeader
  | proxiableMismatch
  | malformedAvps
  | endToEndMismatch
  | commandMismatch
  | attemptNotAnswerEligible

/-- Why an answer does not belong to the request with these facts. -/
def inspectAnswer (answer : OwnedMessage) (request : RequestFacts)
    (maxMessageLen : ℕ) : Option AnswerRejectionReason :=
  let header := answer.header
  if header.flags.isRequest then some .notAnAnswer
  else if header.version ≠ 1 then some .unsupportedVersion
  else if ¬ lengthAgrees answer maxMessageLen then some .invalidLength
  else if header.flags.isPotentiallyRetransmitted ∨ header.flags.reservedBits ≠ 0 then
    some .invalidFlags
  else if ¬ fitsWire header.commandCode then some .malformedHeader
  else if header.flags.isProxiable ≠ request.proxiable then some .proxiableMismatch
  else if topLevelAvps answer.rawAvps = none then some .malformedAvps
  else if header.endToEndIdentifier ≠ request.endToEndIdentifier then some .endToEndMismatch
  else if header.commandCode ≠ request.commandCode ∨
      header.applicationId ≠ request.applicationId then
    some .commandMismatch
  else none

end PacketCore.Diameter
