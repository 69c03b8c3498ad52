import PacketCore.Audit.Ledger
import PacketCore.Library.SortedIndex

/-!
# Validation of the ledger

The validator replays the rows of a ledger from its floor and compares the
operations it derives with the stored ones.  It finds the operation of a row and
the repetition of a request through an index over the intents of all rows.
-/

namespace PacketCore.Audit

variable {δ : Type} [LinearOrder δ] (mac : Authenticator δ)

/-- The handle of an intent row. -/
def EntryPayload.handle? : EntryPayload δ → Option (AuditOperationHandle δ)
  | .intent handle => some handle
  | _ => none

/-- The intents of the rows in their order. -/
def intents (entries : List (LedgerEntry δ)) : List (AuditOperationHandle δ) :=
  entries.filterMap fun entry => entry.payload.handle?

/-- The request of a handle, the first sort key of the index. -/
def AuditOperationHandle.request (handle : AuditOperationHandle δ) : AuditToken :=
  handle.body.binding.request

/-- Intents sorted by their tag, and the ordinals of repeated requests. -/
structure ValidationIndex (δ : Type) where
  byMac : List (AuditOperationHandle δ × ℕ)
  duplicateRequests : List ℕ

namespace ValidationIndex

def new (entries : List (LedgerEntry δ)) : Except AuditAuthorityError (ValidationIndex δ) := do
  refuseIf (maxLedgerEvents < entries.length) .bindingMismatch
  let byRequest := SortedIndex.sortBy AuditOperationHandle.request (intents entries).zipIdx
  return ⟨SortedIndex.sortBy AuditOperationHandle.mac byRequest,
    SortedIndex.repeats AuditOperationHandle.request byRequest⟩

variable (index : ValidationIndex δ)

def duplicateRequest (ordinal : ℕ) : Except AuditAuthorityError Bool := do
  refuseIf (index.byMac.length ≤ ordinal) .bindingMismatch
  return decide (ordinal ∈ index.duplicateRequests)

/-- The ordinal of the first intent with this tag, when it has been replayed. -/
def priorOperation (tag : δ) (derivedLen : ℕ) : Option ℕ :=
  (SortedIndex.lookup AuditOperationHandle.mac index.byMac tag).filter (· < derivedLen)

end ValidationIndex

/-- The states that close an intent. -/
def AuditOperationState.closes : AuditOperationState → Bool
  | .committed _ | .rejected => true
  | .intent | .observed _ => false

/-- What the validator has derived from the rows so far. -/
structure Replay (δ : Type) where
  sequence : ℕ
  previous : δ
  derived : List (LedgerOperation δ)

namespace LedgerState

variable (ledger : LedgerState δ)

/-- The operations after one more row. -/
def deriveOperations (key : AuditKey) (identity : ConfigConsensusIdentity)
    (index : ValidationIndex δ) (derived : List (LedgerOperation δ))
    (sequence : ℕ) (payload : EntryPayload δ) :
    Except AuditAuthorityError (List (LedgerOperation δ)) :=
  match payload with
  | .intent handle => do
    handle.verify mac key identity handle.body.binding.caller
    refuseIf (handle.body.event.projection ≠ ledger.projection) .bindingMismatch
    let duplicate ← index.duplicateRequest derived.length
    refuseIf (duplicate = true) .bindingMismatch
    return derived ++ [.admitted handle sequence]
  | .outcome tag state => do
    let position ← okOr (index.priorOperation tag derived.length) .bindingMismatch
    let operation ← okOr derived[position]? .bindingMismatch
    refuseIf (operation.state ≠ .intent ∨ state.closes = false) .bindingMismatch
    return derived.modify position (·.resolved state sequence)
  | .terminal tag => do
    let position ← okOr (index.priorOperation tag derived.length) .bindingMismatch
    let operation ← okOr derived[position]? .bindingMismatch
    refuseIf (operation.state = .intent ∨ operation.terminalRecorded = true) .bindingMismatch
    return derived.modify position (·.acknowledged sequence)
  | .keyTransition _ => do
    refuseIf (ledger.continuity.isNone) .bindingMismatch
    return derived
  | .event event => do
    refuseIf (event.projection ≠ ledger.projection) .bindingMismatch
    return derived

/-- Replay one row. -/
def replayEntry (key : AuditKey) (identity : ConfigConsensusIdentity)
    (index : ValidationIndex δ) (replay : Replay δ) (entry : LedgerEntry δ) :
    Except AuditAuthorityError (Replay δ) := do
  let sequence ← okOr (checkedAdd replay.sequence 1) .bindingMismatch
  refuseIf (entry.sequence ≠ sequence ∨ entry.previous ≠ replay.previous ∨
    entry.keyEpoch ≠ key.epoch) .bindingMismatch
  verify mac key (.entry ledger.identity sequence replay.previous entry.keyEpoch entry.payload)
    entry.mac
  let derived ← ledger.deriveOperations mac key identity index replay.derived sequence entry.payload
  return ⟨sequence, entry.mac, derived⟩

/-- What an operation must still have reserved. -/
def reservation (operation : LedgerOperation δ) : Except AuditAuthorityError ℕ :=
  match operation.state, operation.terminalRecorded with
  | .intent, false => .ok 2
  | .intent, true => .error .bindingMismatch
  | _, false => .ok 1
  | _, true => .ok 0

/-- The checks on one stored operation. -/
def checkOperation (key : AuditKey) (identity : ConfigConsensusIdentity)
    (index : ValidationIndex δ) (operation : LedgerOperation δ) (position : ℕ) :
    Except AuditAuthorityError Unit := do
  operation.handle.verify mac key identity operation.handle.body.binding.caller
  let reserved ← reservation operation
  refuseIf (operation.reserved ≠ reserved ∨ operation.firstSequence ≤ ledger.floor ∨
    ledger.sequence < operation.lastSequence ∨
    operation.lastSequence < operation.firstSequence) .bindingMismatch
  let duplicate ← index.duplicateRequest position
  refuseIf (duplicate = true) .bindingMismatch

def validate (key : AuditKey) (identity : ConfigConsensusIdentity) :
    Except AuditAuthorityError Unit := do
  ledger.limits.validate
  refuseIf (ledger.version ≠ 1 ∨ ledger.identity ≠ identity ∨
    ledger.limits.maxOperations < ledger.operations.length ∨
    ledger.limits.maxEvents < ledger.usedCapacity ∨
    ledger.limits.maxEvents < ledger.entries.length) .bindingMismatch
  let index ← ValidationIndex.new ledger.entries
  let replay ← ledger.entries.foldlM (ledger.replayEntry mac key identity index)
    ⟨ledger.floor, ledger.predecessor, []⟩
  refuseIf (replay.derived ≠ ledger.operations) .bindingMismatch
  refuseIf (replay.sequence ≠ ledger.sequence ∨ replay.previous ≠ ledger.terminal) .bindingMismatch
  ledger.operations.zipIdx.forM fun (operation, position) =>
    ledger.checkOperation mac key identity index operation position

end LedgerState

end PacketCore.Audit
