import PacketCore.Library.Loop
import PacketCore.Library.Word

/-!
# Codec contexts

The limits and policies that the protocol decoders and encoders are given, and
the errors they report.  Only the settings a modelled codec reads are kept.
-/

namespace PacketCore.Protocol

/-- How strictly fields and containers are validated. -/
inductive ValidationLevel
  | headerOnly
  | structural
  | strict
  | procedureAware
deriving DecidableEq

/-- How elements the decoder does not know are handled. -/
inductive UnknownIePolicy
  | drop
  | preserve
  | reject
deriving DecidableEq

structure DecodeContext where
  maxDepth : ℕ
  maxIes : ℕ
  maxMessageLen : ℕ
  unknownIePolicy : UnknownIePolicy
  validationLevel : ValidationLevel

structure EncodeContext where
  /-- Keep the padding, unknown elements and order of the decoded message. -/
  rawPreserving : Bool
  maxMessageLen : ℕ

inductive DecodeErrorCode
  | truncated
  | messageLengthExceeded
  | depthExceeded
  | ieCountExceeded
  | unknownCriticalIe
  | invalidEnumValue (field : String) (value : ℕ)
  | invalidLength (reason : String)
  | structural (reason : String)

/-- A decoding failure, where in the input it was found, and the section of the
specification it violates. -/
structure DecodeError where
  code : DecodeErrorCode
  offset : ℕ
  specRef : Option String

inductive EncodeErrorCode
  | capacityExceeded (required available : ℕ)
  | lengthOverflow
  | structural (reason : String)

structure EncodeError where
  code : EncodeErrorCode
  specRef : Option String

/-- Refuse before writing anything when the message does not fit. -/
def EncodeContext.checkCapacity (ctx : EncodeContext) (required : ℕ) : Except EncodeError Unit :=
  refuseIf (ctx.maxMessageLen < required) ⟨.capacityExceeded required ctx.maxMessageLen, none⟩

end PacketCore.Protocol
