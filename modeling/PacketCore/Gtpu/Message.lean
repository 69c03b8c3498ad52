import PacketCore.Gtpu.Extension

/-!
# GTP-U messages

The decoder and the encoder of the user-plane header.  Three flags of the first
octet share one block of optional fields: the block is there when any of them is
set, and each field means something only under its own flag.  The decoder keeps
the block's octets next to their interpretation, so that the raw-preserving
encoder can write them back.
-/

namespace PacketCore.Gtpu

open Protocol

/-- Numeric strictness of a level. -/
def validationStrictness : ValidationLevel → ℕ
  | .headerOnly => 0
  | .structural => 1
  | .strict => 2
  | .procedureAware => 3

/-- The E, S and PN flags. -/
structure Flags where
  ext : Bool
  seq : Bool
  npdu : Bool
deriving DecidableEq

namespace Flags

def any (flags : Flags) : Bool := flags.ext || flags.seq || flags.npdu

/-- The low three bits of the first octet. -/
def bits (flags : Flags) : ℕ :=
  (if flags.ext then 4 else 0) + (if flags.seq then 2 else 0) + (if flags.npdu then 1 else 0)

def ofOctet (octet : Byte) : Flags :=
  ⟨octet.val / 4 % 2 = 1, octet.val / 2 % 2 = 1, octet.val % 2 = 1⟩

end Flags

structure GtpuHeader where
  version : Byte
  protocolType : Bool
  reserved : Byte
  flags : Flags
  messageType : Byte
  length : Word 2
  teid : Word 4
  sequenceNumber : Option (Word 2)
  npduNumber : Option Byte
  nextExtType : Option Byte
  rawSequenceNumber : Option (Word 2)
  rawNpduNumber : Option Byte
  rawNextExtType : Option Byte

structure GtpuMessage where
  header : GtpuHeader
  rawExtensionHeaders : List Byte
  payload : List Byte

/-- The items of the iterator over the extension headers.  An item takes octets
from the buffer or is the last one. -/
def GtpuMessage.extensions (message : GtpuMessage) :
    List (Except DecodeError GtpuExtensionHeader) :=
  iterateExtensions (message.rawExtensionHeaders.length + 1) message.rawExtensionHeaders
    (if message.header.flags.ext then message.header.nextExtType.getD 0 else 0)

/-- The four octets that any of the flags brings. -/
structure OptionalFields where
  sequence : Word 2
  npdu : Byte
  nextExt : Byte

namespace GtpuMessage

variable (ctx : DecodeContext)

/-- The optional block at the front of the body, and what follows it. -/
def decodeOptional (flags : Flags) (body : List Byte) :
    Except DecodeError (Option OptionalFields × List Byte) :=
  if flags.any then
    match body with
    | s0 :: s1 :: npdu :: nextExt :: rest => do
      refuseIf (2 ≤ validationStrictness ctx.validationLevel ∧ flags.ext = true ∧ nextExt = 0)
        (fault (.structural "extension header flag set but next extension header type is 0") 11)
      return (some ⟨Word.ofBytes 2 [s0, s1], npdu, nextExt⟩, rest)
    -- The body has the declared length.
    | _ => .error (fault (.invalidLength "length smaller than optional fields size (4 octets)") 8)
  else .ok (none, body)

/-- The message that these decoded parts make up. -/
def assemble (first messageType : Byte) (length : Word 2) (teid : Word 4)
    (optional : Option OptionalFields) (extensions payload : List Byte) : GtpuMessage :=
  let flags := Flags.ofOctet first
  { header :=
      { version := Fin.ofNat 256 (first.val / 32)
        protocolType := first.val / 16 % 2 = 1
        reserved := Fin.ofNat 256 (first.val / 8 % 2)
        flags, messageType, length, teid
        sequenceNumber := if flags.seq then optional.map OptionalFields.sequence else none
        npduNumber := if flags.npdu then optional.map OptionalFields.npdu else none
        nextExtType := if flags.ext then optional.map OptionalFields.nextExt else none
        rawSequenceNumber := optional.map OptionalFields.sequence
        rawNpduNumber := optional.map OptionalFields.npdu
        rawNextExtType := optional.map OptionalFields.nextExt }
    rawExtensionHeaders := extensions
    payload }

/-- The offset where the extension chain ends; `rest` is the message from the
twelfth octet on. -/
def chainEnd (flags : Flags) (nextExt : Byte) (rest : List Byte) : Except DecodeError ℕ :=
  if flags.ext then walkExtensions ctx ctx.maxDepth ctx.maxIes nextExt 12 rest else .ok 12

/-- Decode what follows the eight fixed octets.  A `u16` length and the octet
units of the chain cannot overflow the offsets. -/
def decodeBody (first messageType : Byte) (length : Word 2) (teid : Word 4)
    (body : List Byte) : Except DecodeError GtpuMessage := do
  let flags := Flags.ofOctet first
  let block ← decodeOptional ctx flags body
  let optionalFieldsLen := if flags.any then 4 else 0
  let currentOffset ← chainEnd ctx flags ((block.1.map OptionalFields.nextExt).getD 0) block.2
  let extHeadersLen := currentOffset - 12
  refuseIf (length.val < optionalFieldsLen + extHeadersLen)
    (fault (.invalidLength "length smaller than optional and extensions size") 2)
  return assemble first messageType length teid block.1
    (block.2.take extHeadersLen) (block.2.drop extHeadersLen)

/-- Decode one message; gives the octets after it and the message. -/
def decode (input : List Byte) (ctx : DecodeContext) :
    Except DecodeError (List Byte × GtpuMessage) := do
  refuseIf (ctx.maxMessageLen < input.length) (fault .messageLengthExceeded 0)
  match input with
  | first :: messageType :: l0 :: l1 :: t0 :: t1 :: t2 :: t3 :: rest => do
    let version := first.val / 32
    refuseIf (version ≠ 1) (fault (.invalidEnumValue "version" version) 0)
    refuseIf (first.val / 16 % 2 ≠ 1) (fault (.invalidEnumValue "protocol_type" 0) 0)
    refuseIf (2 ≤ validationStrictness ctx.validationLevel ∧ first.val / 8 % 2 ≠ 0)
      (fault (.structural "reserved bit must be zero") 0)
    let length := Word.ofBytes 2 [l0, l1]
    refuseIf (rest.length < length.val) (fault .truncated input.length)
    let message ← decodeBody ctx first messageType length
      (Word.ofBytes 4 [t0, t1, t2, t3]) (rest.take length.val)
    return (rest.drop length.val, message)
  | _ => .error (fault .truncated 0)

variable (message : GtpuMessage)

/-- The flags to write: the received ones, or those the fields call for. -/
def encodedFlags (rawPreserving : Bool) : Flags :=
  if rawPreserving then message.header.flags
  else
    ⟨message.rawExtensionHeaders ≠ [] || message.header.nextExtType.getD 0 ≠ 0,
      message.header.sequenceNumber.isSome, message.header.npduNumber.isSome⟩

def lengthOverflow : EncodeError := ⟨.lengthOverflow, some "5.1"⟩

def wireLen (ctx : EncodeContext) : Except EncodeError ℕ := do
  let fixed ← (if (message.encodedFlags ctx.rawPreserving).any then
    okOr (checkedAdd 8 4) lengthOverflow else .ok 8)
  let len ← okOr (checkedAdd fixed message.rawExtensionHeaders.length) lengthOverflow
  okOr (checkedAdd len message.payload.length) lengthOverflow

/-- The first octet: version, protocol type, spare bit and flags. -/
def firstOctet (rawPreserving : Bool) : Byte :=
  let high :=
    if rawPreserving then
      message.header.version.val % 8 * 32 + (if message.header.protocolType then 16 else 0) +
        message.header.reserved.val % 2 * 8
    else 0x30
  Fin.ofNat 256 (high + (message.encodedFlags rawPreserving).bits)

/-- The optional block to write. -/
def encodedOptional (rawPreserving : Bool) : List Byte :=
  if (message.encodedFlags rawPreserving).any then
    if rawPreserving then
      (message.header.rawSequenceNumber.getD (message.header.sequenceNumber.getD 0)).bytes ++
        [message.header.rawNpduNumber.getD (message.header.npduNumber.getD 0),
          message.header.rawNextExtType.getD (message.header.nextExtType.getD 0)]
    else
      (message.header.sequenceNumber.getD 0).bytes ++
        [message.header.npduNumber.getD 0, message.header.nextExtType.getD 0]
  else []

/-- Append the message to `dst`. -/
def encode (dst : List Byte) (ctx : EncodeContext) : Except EncodeError (List Byte) := do
  let len ← message.wireLen ctx
  ctx.checkCapacity len
  let lengthField ← okOr (checkedSub len 8)
    ⟨.structural "wire length smaller than header", some "5.1"⟩
  refuseIf (2 ^ 16 ≤ lengthField) lengthOverflow
  return dst ++ [message.firstOctet ctx.rawPreserving, message.header.messageType] ++
    bigEndian 2 lengthField ++ message.header.teid.bytes ++
    message.encodedOptional ctx.rawPreserving ++ message.rawExtensionHeaders ++ message.payload

end GtpuMessage

end PacketCore.Gtpu
