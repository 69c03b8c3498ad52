import PacketCore.Library.Loop
import PacketCore.Library.Word

/-!
# The management audit ledger

Every management operation leaves up to three authenticated rows in one bounded
ledger: its intent, its outcome, and the acknowledgement that the outcome was
recorded.  Admission reserves room for all three.  The authentication tags are
values of an abstract type, produced by a keyed function on messages.
-/

namespace PacketCore.Audit

inductive AuditAuthorityError
  | invalidInput
  | keyUnavailable
  | bindingMismatch
  | expired
  | pruned
  | unavailable
  | full
  | rollbackDetected
  | recoveryRequired

structure AuditKey where
  epoch : ℕ
  material : Word 32

structure ConfigConsensusIdentity where
  clusterId : Word 32
  configurationId : Word 32
  configurationEpoch : ℕ
deriving DecidableEq

abbrev AuditToken := NonZero 32

structure AuditCaller where
  tenant : AuditToken
  principal : AuditToken
deriving DecidableEq

inductive ManagementAuditTransportCode
  | gnmi
  | netconfSsh
  | netconfTls
  | restconfHttps
  | internal
deriving DecidableEq

inductive ManagementAuditOperationCode
  | capabilities
  | read
  | subscribe
  | create
  | update
  | replace
  | delete
  | commit
  | rollback
  | validate
  | exec
deriving DecidableEq

inductive ManagementAuditOutcomeCode
  | intent
  | success
  | denied
  | failed
deriving DecidableEq

structure ProjectedAuditEvent where
  projection : AuditToken
  caller : AuditCaller
  request : AuditToken
  transaction : Option AuditToken
  paths : AuditToken
  reason : Option AuditToken
  transport : ManagementAuditTransportCode
  operation : ManagementAuditOperationCode
  outcome : ManagementAuditOutcomeCode
  utcSeconds : ℤ
  nanosecond : ℕ
deriving DecidableEq

structure AuditOperationBinding where
  caller : AuditCaller
  request : AuditToken
  operation : AuditToken
  baseVersion : ℕ
deriving DecidableEq

structure HandleBody where
  version : ℕ
  identity : ConfigConsensusIdentity
  binding : AuditOperationBinding
  event : ProjectedAuditEvent
  issuedAt : ℤ
  expiresAt : ℤ
  nonce : Word 16
  keyEpoch : ℕ
  mutation : Option (Word 32)
deriving DecidableEq

structure AuditOperationHandle (δ : Type) where
  body : HandleBody
  mac : δ
deriving DecidableEq

inductive AuditOperationState
  | intent
  | committed (version : ℕ)
  | rejected
  | observed (outcome : ManagementAuditOutcomeCode)
deriving DecidableEq

/-- The body of a signing-key transition, bound to one ledger prefix. -/
structure TransitionBody (δ : Type) where
  version : ℕ
  identity : ConfigConsensusIdentity
  previousSequence : ℕ
  previousAnchor : δ
  fromEpoch : ℕ
  toEpoch : ℕ
  oldFingerprint : δ
  newFingerprint : δ
deriving DecidableEq

structure AuditKeyTransition (δ : Type) where
  body : TransitionBody δ
  oldProof : δ
  newProof : δ
deriving DecidableEq

inductive EntryPayload (δ : Type)
  | event (event : ProjectedAuditEvent)
  | keyTransition (transition : AuditKeyTransition δ)
  | intent (handle : AuditOperationHandle δ)
  | outcome (operation : δ) (state : AuditOperationState)
  | terminal (operation : δ)
deriving DecidableEq

structure LedgerEntry (δ : Type) where
  sequence : ℕ
  previous : δ
  payload : EntryPayload δ
  keyEpoch : ℕ
  mac : δ

structure CheckpointBody (δ : Type) where
  version : ℕ
  identity : ConfigConsensusIdentity
  sequence : ℕ
  rootAnchor : δ
  anchor : δ
  epochAtSequence : ℕ
  signingEpoch : ℕ
  acknowledgedExport : δ
deriving DecidableEq

/-- The values that are authenticated, one constructor for each domain. -/
inductive Message (δ : Type)
  | handle (body : HandleBody)
  | entry (identity : ConfigConsensusIdentity) (sequence : ℕ) (previous : δ)
      (keyEpoch : ℕ) (payload : EntryPayload δ)
  | row (identity : ConfigConsensusIdentity) (epoch : ℕ) (previous : δ) (entry : LedgerEntry δ)
  | checkpoint (body : CheckpointBody δ)
  | transitionOld (body : TransitionBody δ)
  | transitionNew (body : TransitionBody δ) (oldProof : δ)

/-- The keyed functions: tags of messages, fingerprints of keys, and the all-zero
tag in front of the first row. -/
structure Authenticator (δ : Type) where
  authenticate : AuditKey → Message δ → δ
  fingerprint : AuditKey → δ
  zero : δ

def maxLedgerEvents : ℕ := 4096

def operationEventReservation : ℕ := 3

/-- The largest sequence number that the database can store. -/
def lastSequence : ℕ := 2 ^ 63 - 1

structure AuditLedgerLimits where
  maxEvents : ℕ
  maxOperations : ℕ

def AuditLedgerLimits.validate (limits : AuditLedgerLimits) : Except AuditAuthorityError Unit :=
  refuseIf (¬ (3 ≤ limits.maxEvents ∧ limits.maxEvents ≤ maxLedgerEvents) ∨
    ¬ (1 ≤ limits.maxOperations ∧ limits.maxOperations ≤ 1024) ∨
    limits.maxEvents / operationEventReservation < limits.maxOperations) .invalidInput

structure LedgerOperation (δ : Type) where
  handle : AuditOperationHandle δ
  state : AuditOperationState
  terminalRecorded : Bool
  firstSequence : ℕ
  lastSequence : ℕ
  reserved : ℕ
deriving DecidableEq

structure SignedAuditRow (δ : Type) where
  epoch : ℕ
  previous : δ
  signature : δ

structure AuditCheckpoint (δ : Type) where
  body : CheckpointBody δ
  mac : δ
deriving DecidableEq

structure ContinuityState (δ : Type) where
  version : ℕ
  initialEpoch : ℕ
  floorEpoch : ℕ
  floorAnchor : δ
  activeEpoch : ℕ
  terminal : δ
  rows : List (SignedAuditRow δ)
  checkpoint : Option (AuditCheckpoint δ)
  exportCheckpoint : Option (AuditCheckpoint δ)

structure LedgerState (δ : Type) where
  version : ℕ
  identity : ConfigConsensusIdentity
  projection : AuditToken
  limits : AuditLedgerLimits
  sequence : ℕ
  terminal : δ
  floor : ℕ
  predecessor : δ
  entries : List (LedgerEntry δ)
  operations : List (LedgerOperation δ)
  continuity : Option (ContinuityState δ)

variable {δ : Type} [DecidableEq δ] (mac : Authenticator δ)

def verify (key : AuditKey) (message : Message δ) (expected : δ) :
    Except AuditAuthorityError Unit :=
  refuseIf (mac.authenticate key message ≠ expected) .bindingMismatch

namespace AuditOperationHandle

def verify (handle : AuditOperationHandle δ) (key : AuditKey) (identity : ConfigConsensusIdentity)
    (caller : AuditCaller) : Except AuditAuthorityError Unit := do
  refuseIf (handle.body.version ≠ 1 ∨ handle.body.identity ≠ identity ∨
    handle.body.keyEpoch ≠ key.epoch ∨ handle.body.binding.caller ≠ caller) .bindingMismatch
  Audit.verify mac key (.handle handle.body) handle.mac

def requireLive (handle : AuditOperationHandle δ) (now : ℤ) : Except AuditAuthorityError Unit :=
  refuseIf (now < handle.body.issuedAt ∨ handle.body.expiresAt ≤ now) .expired

end AuditOperationHandle

namespace LedgerOperation

/-- The operation that an intent row opens. -/
def admitted (handle : AuditOperationHandle δ) (sequence : ℕ) : LedgerOperation δ :=
  if handle.body.event.outcome = .intent then
    { handle, state := .intent, terminalRecorded := false, firstSequence := sequence
      lastSequence := sequence, reserved := 2 }
  else
    { handle, state := .observed handle.body.event.outcome, terminalRecorded := true
      firstSequence := sequence, lastSequence := sequence, reserved := 0 }

def resolved (operation : LedgerOperation δ) (state : AuditOperationState)
    (sequence : ℕ) : LedgerOperation δ :=
  { operation with state, lastSequence := sequence, reserved := 1 }

def acknowledged (operation : LedgerOperation δ) (sequence : ℕ) : LedgerOperation δ :=
  { operation with terminalRecorded := true, lastSequence := sequence, reserved := 0 }

end LedgerOperation

namespace LedgerState

variable (ledger : LedgerState δ)

def new (identity : ConfigConsensusIdentity) (projection : AuditToken)
    (limits : AuditLedgerLimits) : LedgerState δ :=
  { version := 1, identity, projection, limits, sequence := 0, terminal := mac.zero, floor := 0
    predecessor := mac.zero, entries := [], operations := [], continuity := none }

/-- Rows in the ledger and rows reserved by its operations. -/
def usedCapacity : ℕ :=
  ledger.entries.length + (ledger.operations.map LedgerOperation.reserved).sum

/-- The ledger with one more authenticated row. -/
def push (key : AuditKey) (payload : EntryPayload δ) : LedgerState δ :=
  let next := ledger.sequence + 1
  let tag := mac.authenticate key (.entry ledger.identity next ledger.terminal key.epoch payload)
  { ledger with
    entries := ledger.entries ++ [⟨next, ledger.terminal, payload, key.epoch, tag⟩]
    sequence := next
    terminal := tag }

def append (key : AuditKey) (payload : EntryPayload δ) :
    Except AuditAuthorityError (LedgerState δ) := do
  refuseIf (lastSequence < ledger.sequence + 1) .full
  refuseIf (ledger.limits.maxEvents ≤ ledger.entries.length) .full
  return ledger.push mac key payload

/-- A mutation whose outcome is not yet covered by an external checkpoint. -/
def mutationOutcomeNeedsCheckpoint (operation : LedgerOperation δ) : Bool :=
  ledger.continuity.any fun chain =>
    operation.handle.body.mutation.isSome && decide
      (operation.state ≠ .intent) && (!operation.terminalRecorded ||
        chain.checkpoint.all fun checkpoint =>
          decide (checkpoint.body.sequence < operation.lastSequence))

def admission (key : AuditKey) (handle : AuditOperationHandle δ) (now : ℤ) :
    Except AuditAuthorityError (LedgerState δ) := do
  handle.verify mac key ledger.identity handle.body.binding.caller
  match ledger.operations.find? fun operation =>
      operation.handle.body.binding.request = handle.body.binding.request with
  | some existing =>
    if existing.handle = handle then return ledger else throw .bindingMismatch
  | none =>
    handle.requireLive now
    refuseIf (handle.body.mutation.isSome ∧
      ledger.operations.any ledger.mutationOutcomeNeedsCheckpoint) .recoveryRequired
    refuseIf (handle.body.event.projection ≠ ledger.projection) .bindingMismatch
    let reservation :=
      if handle.body.event.outcome = .intent then operationEventReservation else 1
    refuseIf (ledger.limits.maxOperations ≤ ledger.operations.length ∨
      ledger.limits.maxEvents < ledger.usedCapacity + reservation) .full
    let next ← ledger.append mac key (.intent handle)
    return { next with operations := next.operations ++ [.admitted handle next.sequence] }

/-- The position of an operation by its complete handle. -/
def operationIndex (key : AuditKey) (handle : AuditOperationHandle δ) :
    Except AuditAuthorityError ℕ := do
  handle.verify mac key ledger.identity handle.body.binding.caller
  okOr (ledger.operations.findIdx? fun operation => operation.handle = handle) .bindingMismatch

/-- The operation at a position. -/
def operationAt (index : ℕ) : Except AuditAuthorityError (LedgerOperation δ) :=
  okOr ledger.operations[index]? .bindingMismatch

def resolve (key : AuditKey) (handle : AuditOperationHandle δ)
    (state : AuditOperationState) : Except AuditAuthorityError (LedgerState δ) := do
  let index ← ledger.operationIndex mac key handle
  let current ← ledger.operationAt index
  if current.state = state then return ledger
  else do
    refuseIf (current.state ≠ .intent ∨ state = .intent) .bindingMismatch
    let next ← ledger.append mac key (.outcome handle.mac state)
    return { next with operations := next.operations.modify index (·.resolved state next.sequence) }

def acknowledgeTerminal (key : AuditKey) (handle : AuditOperationHandle δ) :
    Except AuditAuthorityError (LedgerState δ) := do
  let index ← ledger.operationIndex mac key handle
  let current ← ledger.operationAt index
  if current.terminalRecorded then return ledger
  else do
    refuseIf (current.state = .intent) .bindingMismatch
    let next ← ledger.append mac key (.terminal handle.mac)
    return { next with operations := next.operations.modify index (·.acknowledged next.sequence) }

end LedgerState

end PacketCore.Audit
