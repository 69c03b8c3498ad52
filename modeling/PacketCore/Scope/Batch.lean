import PacketCore.Library.Table
import PacketCore.Scope.Authority

/-!
# Scope batches: requests, receipts and stored rows

A batch mutates child rows, claim rows and counters of one scope atomically,
under the exact current authority stamp.  Eight lanes are sequenced
independently; each retains the receipt of its last terminal attempt.
-/

namespace PacketCore

inductive SessionKeyType where
  | subscriberContext
  | pduSession
  | teidMapping
  | pfcpSeid
  | handoverTransaction
  | other (name : String)
deriving DecidableEq

/-- The address of a session row. -/
structure SessionKey where
  tenant : String
  nfKind : String
  keyType : SessionKeyType
  stableId : List Byte
deriving DecidableEq

namespace Scope

/-! ## Limits -/

def maxScopeBatchChildren : ℕ := 64
def maxScopeBatchCommandBytes : ℕ := 2 * 1024 * 1024
def maxScopeBatchLedgerBytes : ℕ := 20 * 1024
def maxScopeChildValueBytes : ℕ := 1024 * 1024
def maxScopeChildClaims : ℕ := 8
def maxScopeRowBytes : ℕ := maxScopeChildValueBytes + 4096
def maxMetadataBytes : ℕ := 16 * 1024
def commandHeadroom : ℕ := 16 * 1024

/-! ## Children and claims -/

/-- Opaque child identity. -/
structure ScopeChildKey where
  bytes : List Byte
deriving DecidableEq

/-- Opaque unique claim identity. -/
structure ScopeClaimKey where
  bytes : List Byte
deriving DecidableEq

/-- Exact child incarnation and version. -/
structure ScopeChildRevision where
  birth : ℕ
  generation : ℕ
deriving DecidableEq

structure ScopeBatchConflicts where
  children : List ScopeChildKey := []
  claims : List ScopeClaimKey := []
  counters : List ℕ := []
deriving DecidableEq

inductive ScopeBatchError where
  | invalidRequest
  | scope (error : ScopeAuthorityError)
  | conflict (conflicts : ScopeBatchConflicts)
  | revisionConflict
  | idempotencyConflict
  | formatMismatch
  | sequenceConflict
  | cancelled
deriving DecidableEq

/-- Authority errors, lifted. -/
def liftScope {α : Type} (result : Except ScopeAuthorityError α) : Except ScopeBatchError α :=
  result.mapError .scope

def ScopeChildRevision.new (birth generation : ℕ) : Except ScopeBatchError ScopeChildRevision := do
  refuseIf (¬ (1 ≤ birth ∧ birth ≤ counterMax) ∨ ¬ (1 ≤ generation ∧ generation ≤ counterMax))
    .invalidRequest
  return ⟨birth, generation⟩

/-- The bounds of `ScopeChildRevision.new`. -/
def ScopeChildRevision.InRange (revision : ScopeChildRevision) : Prop :=
  (1 ≤ revision.birth ∧ revision.birth ≤ counterMax) ∧
    1 ≤ revision.generation ∧ revision.generation ≤ counterMax

instance (revision : ScopeChildRevision) : Decidable revision.InRange :=
  inferInstanceAs (Decidable (_ ∧ _))

/-- Already sealed envelope. -/
structure ScopeSealedValue where
  envelope : List Byte
deriving DecidableEq

/-- One child mutation; claims are the complete successor set. -/
inductive ScopeChildMutation where
  | create (key : ScopeChildKey) (value : ScopeSealedValue) (claims : List ScopeClaimKey)
  | compareAndSet (key : ScopeChildKey) (expected : ScopeChildRevision)
      (value : ScopeSealedValue) (claims : List ScopeClaimKey)
  | delete (key : ScopeChildKey) (expected : ScopeChildRevision)

namespace ScopeChildMutation

def key : ScopeChildMutation → ScopeChildKey
  | create key _ _ | compareAndSet key _ _ _ | delete key _ => key

def claims : ScopeChildMutation → List ScopeClaimKey
  | create _ _ claims | compareAndSet _ _ _ claims => claims
  | delete _ _ => []

def expected : ScopeChildMutation → Option ScopeChildRevision
  | create _ _ _ => none
  | compareAndSet _ expected _ _ | delete _ expected => some expected

/-- The value stored by the mutation; a deletion leaves a tombstone. -/
def value : ScopeChildMutation → Option ScopeSealedValue
  | create _ value _ | compareAndSet _ _ value _ => some value
  | delete _ _ => none

end ScopeChildMutation

/-- Compare-and-set of one fixed counter. -/
structure ScopeCounterMutation where
  counter : ℕ
  expected : ℕ
  next : ℕ

def ScopeCounterMutation.InRange (mutation : ScopeCounterMutation) : Prop :=
  mutation.counter < 16 ∧ mutation.expected ≤ counterMax ∧
    mutation.next ≤ counterMax ∧ mutation.expected ≤ mutation.next

instance (mutation : ScopeCounterMutation) : Decidable mutation.InRange :=
  inferInstanceAs (Decidable (_ ∧ _))

/-! ## Read conditions -/

structure ScopeChildCondition where
  key : ScopeChildKey
  expected : ScopeChildRevision

namespace ScopeChildCondition

def Valid (condition : ScopeChildCondition) : Prop :=
  condition.key.bytes ≠ zeros 32 ∧ condition.expected.InRange

instance (condition : ScopeChildCondition) : Decidable condition.Valid :=
  inferInstanceAs (Decidable (_ ∧ _))

/-- Whether the live child has the exact expected version. -/
def Matches (condition : ScopeChildCondition) (live : Option ScopeChildRevision) : Prop :=
  condition.Valid ∧ live = some condition.expected

instance (condition : ScopeChildCondition) (live : Option ScopeChildRevision) :
    Decidable (condition.Matches live) :=
  inferInstanceAs (Decidable (_ ∧ _))

end ScopeChildCondition

/-- The exact child birth that owns a claim. -/
structure ClaimOwner where
  child : ScopeChildKey
  birth : ℕ
deriving DecidableEq

def ClaimOwner.Valid (owner : ClaimOwner) : Prop :=
  owner.child.bytes ≠ zeros 32 ∧ 1 ≤ owner.birth ∧ owner.birth ≤ counterMax

instance (owner : ClaimOwner) : Decidable owner.Valid :=
  inferInstanceAs (Decidable (_ ∧ _))

structure ScopeClaimCondition where
  key : ScopeClaimKey
  revision : ℕ
  owner : Option ClaimOwner

namespace ScopeClaimCondition

def Valid (condition : ScopeClaimCondition) : Prop :=
  condition.key.bytes ≠ zeros 32 ∧ (1 ≤ condition.revision ∧ condition.revision ≤ counterMax) ∧
    ∀ owner ∈ condition.owner, owner.Valid

instance (condition : ScopeClaimCondition) : Decidable condition.Valid :=
  inferInstanceAs (Decidable (_ ∧ _ ∧ _))

/-- Whether the retained claim has the exact expected revision and owner. -/
def Matches (condition : ScopeClaimCondition) (revision : Option ℕ) (owner : Option ClaimOwner) :
    Prop :=
  condition.Valid ∧ revision = some condition.revision ∧ owner = condition.owner

instance (condition : ScopeClaimCondition) (revision : Option ℕ)
    (owner : Option ClaimOwner) : Decidable (condition.Matches revision owner) :=
  inferInstanceAs (Decidable (_ ∧ _ ∧ _))

end ScopeClaimCondition

/-! ## Requests, attempts and receipts -/

structure ScopeBatchRequest where
  stamp : ScopeAuthorityStamp
  requestId : List Byte
  lane : ℕ
  sequence : ℕ
  expectedRevision : Option ℕ
  operations : List ScopeChildMutation
  counters : List ScopeCounterMutation
  childConditions : List ScopeChildCondition
  claimConditions : List ScopeClaimCondition

/-- Complete immutable attempt identity without child payloads. -/
structure ScopeBatchAttempt where
  stamp : ScopeAuthorityStamp
  requestId : List Byte
  lane : ℕ
  sequence : ℕ
  requestDigest : List Byte
deriving DecidableEq

/-- One committed atomic outcome. -/
structure ScopeBatchOutcome where
  requestDigest : List Byte
  lane : ℕ
  sequence : ℕ
  revision : ℕ
  rows : List ScopeChildRevision
  counters : Fin 16 → ℕ
deriving DecidableEq

inductive ScopeBatchTerminal where
  | applied (outcome : ScopeBatchOutcome)
  | cancelled
deriving DecidableEq

structure ScopeBatchReceipt where
  attempt : ScopeBatchAttempt
  revision : ℕ
  terminal : ScopeBatchTerminal
deriving DecidableEq

inductive ScopeBatchLookup where
  | applied (outcome : ScopeBatchOutcome)
  | cancelled
  | notApplied
  | notRecorded
  | pruned

/-! ## Stored rows -/

/-- The terminal frontier of one lane and its receipt. -/
structure ScopeBatchLaneCheckpoint where
  floor : ℕ := 0
  sequence : ℕ := 0
  receipt : Option ScopeBatchReceipt := none
deriving DecidableEq

structure ScopeBatchCheckpoint where
  scope : ScopeId
  revision : ℕ
  birthFloor : ℕ
  counters : Fin 16 → ℕ
  lanes : Fin 8 → ScopeBatchLaneCheckpoint
deriving DecidableEq

structure ScopeChildRecord where
  ns : ScopeNamespace
  key : ScopeChildKey
  revision : ScopeChildRevision
  batchRevision : ℕ
  value : Option ScopeSealedValue
  claims : List ScopeClaimKey
deriving DecidableEq

structure ClaimRow where
  ns : ScopeNamespace
  key : ScopeClaimKey
  revision : ℕ
  owner : Option ClaimOwner
deriving DecidableEq

inductive ScopeRow where
  | batch (checkpoint : ScopeBatchCheckpoint)
  | child (record : ScopeChildRecord)
  | claim (row : ClaimRow)
deriving DecidableEq

/-- Encoded sizes and digests of batch values. -/
structure Codec extends AuthorityCodec where
  batchLen : ScopeBatchRequest → ℕ
  batchDigest : ScopeBatchRequest → List Byte
  attemptLen : ScopeBatchAttempt → ℕ
  attemptDigest : ScopeBatchAttempt → List Byte
  namespacePrefix : ScopeNamespace → List Byte
  rowLen : ScopeRow → ℕ

/-! ## Row keys -/

def scopedKey (scope : ScopeId) (kind : String) (stableId : List Byte) : SessionKey :=
  ⟨scope.tenant, scope.nfKind, .other kind, stableId⟩

def batchKey (scope : ScopeId) : SessionKey := scopedKey scope "opc-scope-batch" scope.slot

/-- The namespace commitment followed by the logical key. -/
def namespaceKey (codec : Codec) (ns : ScopeNamespace) (kind : String) (suffix : List Byte) :
    SessionKey :=
  scopedKey ns.scope kind (codec.namespacePrefix ns ++ suffix)

def childKey (codec : Codec) (ns : ScopeNamespace) (key : ScopeChildKey) : SessionKey :=
  namespaceKey codec ns "opc-scope-child" key.bytes

def claimKey (codec : Codec) (ns : ScopeNamespace) (key : ScopeClaimKey) : SessionKey :=
  namespaceKey codec ns "opc-scope-claim" key.bytes

section Keys

variable {codec : Codec} {ns : ScopeNamespace} {scope : ScopeId}

@[simp]
theorem childKey_inj {left right : ScopeChildKey} :
    childKey codec ns left = childKey codec ns right ↔ left = right := by
  cases left
  cases right
  simp [childKey, namespaceKey, scopedKey]

@[simp]
theorem claimKey_inj {left right : ScopeClaimKey} :
    claimKey codec ns left = claimKey codec ns right ↔ left = right := by
  cases left
  cases right
  simp [claimKey, namespaceKey, scopedKey]

@[simp]
theorem childKey_ne_claimKey (child : ScopeChildKey) (claim : ScopeClaimKey) :
    childKey codec ns child ≠ claimKey codec ns claim := by
  simp [childKey, claimKey, namespaceKey, scopedKey]

@[simp]
theorem claimKey_ne_childKey (child : ScopeChildKey) (claim : ScopeClaimKey) :
    claimKey codec ns claim ≠ childKey codec ns child :=
  (childKey_ne_claimKey _ _).symm

@[simp]
theorem childKey_ne_batchKey (child : ScopeChildKey) :
    childKey codec ns child ≠ batchKey scope := by
  simp [childKey, batchKey, namespaceKey, scopedKey]

@[simp]
theorem claimKey_ne_batchKey (claim : ScopeClaimKey) :
    claimKey codec ns claim ≠ batchKey scope := by
  simp [claimKey, batchKey, namespaceKey, scopedKey]

end Keys

/-! ## Validation -/

variable {codec : Codec} {request : ScopeBatchRequest}

namespace ScopeBatchRequest

/-- Bounds of one operation; keys and claims are checked for repeats apart. -/
def operationValid (operation : ScopeChildMutation) : Prop :=
  operation.key.bytes ≠ zeros 32 ∧ operation.claims.length ≤ maxScopeChildClaims ∧
    (∀ claim ∈ operation.claims, claim.bytes ≠ zeros 32) ∧
    operation.claims.Nodup ∧ ∀ expected ∈ operation.expected, expected.InRange

instance (operation : ScopeChildMutation) : Decidable (operationValid operation) :=
  inferInstanceAs (Decidable (_ ∧ _ ∧ _ ∧ _ ∧ _))

/-- Children the request mutates or compares, without those named as owners. -/
def keys (request : ScopeBatchRequest) : List ScopeChildKey :=
  request.operations.map (·.key) ++ request.childConditions.map (·.key)

/-- Every check of the loops has the same refusal, so their order is not kept. -/
def bodyValid (codec : Codec) (request : ScopeBatchRequest) : Prop :=
  (∀ operation ∈ request.operations, operationValid operation) ∧
    (∀ condition ∈ request.childConditions, condition.Valid) ∧ request.keys.Nodup ∧
    (∀ condition ∈ request.claimConditions, condition.Valid) ∧
    (request.claimConditions.map (·.key)).Nodup ∧
    (request.keys ++ request.claimConditions.filterMap fun condition =>
      condition.owner.map (·.child)).dedup.length ≤ maxScopeBatchChildren ∧
    (request.claimConditions.map (·.key) ++ request.operations.flatMap (·.claims)).dedup.length ≤
      maxScopeBatchChildren * maxScopeChildClaims ∧
    (∀ counter ∈ request.counters, counter.InRange) ∧
    (request.counters.map (·.counter)).Nodup ∧
    codec.batchLen request ≤ maxScopeBatchCommandBytes - commandHeadroom

instance (codec : Codec) (request : ScopeBatchRequest) : Decidable (bodyValid codec request) :=
  inferInstanceAs (Decidable (_ ∧ _ ∧ _ ∧ _ ∧ _ ∧ _ ∧ _ ∧ _ ∧ _ ∧ _))

def validate (codec : Codec) (request : ScopeBatchRequest) : Except ScopeBatchError Unit := do
  refuseIf (request.requestId = zeros 16 ∨
    (∃ revision ∈ request.expectedRevision, counterMax ≤ revision) ∨
    ¬ request.lane < 8 ∨ ¬ (1 ≤ request.sequence ∧ request.sequence ≤ counterMax) ∨
    maxScopeBatchChildren < request.operations.length ∨ 16 < request.counters.length ∨
    (request.operations = [] ∧ request.counters = [])) .invalidRequest
  liftScope request.stamp.validate
  refuseIf (¬ bodyValid codec request) .invalidRequest

def digest (codec : Codec) (request : ScopeBatchRequest) : Except ScopeBatchError (List Byte) := do
  request.validate codec
  return codec.batchDigest request

/-- The identity for cancellation and resolution. -/
def attempt (codec : Codec) (request : ScopeBatchRequest) :
    Except ScopeBatchError ScopeBatchAttempt := do
  let digest ← request.digest codec
  return ⟨request.stamp, request.requestId, request.lane, request.sequence, digest⟩

theorem attempt_eq_ok {attempt : ScopeBatchAttempt} (hok : request.attempt codec = .ok attempt) :
    request.validate codec = .ok () ∧ attempt = ⟨request.stamp, request.requestId,
      request.lane, request.sequence, codec.batchDigest request⟩ := by
  obtain ⟨_, hdigest, hok⟩ := bind_eq_ok hok
  obtain ⟨_, hvalid, hdigest⟩ := bind_eq_ok hdigest
  cases hdigest
  exact ⟨hvalid, (Except.ok.inj hok).symm⟩

/-- A validated request names each child once. -/
theorem nodup_operations (hvalid : request.validate codec = .ok ()) :
    (request.operations.map (·.key)).Nodup := by
  iterate 2 obtain ⟨_, -, hvalid⟩ := bind_eq_ok hvalid
  have hbody := not_not.mp (refuseIf_eq_ok.mp hvalid)
  exact (List.nodup_append.mp hbody.2.2.1).1

end ScopeBatchRequest

namespace ScopeBatchAttempt

def validate (attempt : ScopeBatchAttempt) : Except ScopeBatchError Unit := do
  liftScope attempt.stamp.validate
  refuseIf (attempt.requestId = zeros 16 ∨ ¬ attempt.lane < 8 ∨
    ¬ (1 ≤ attempt.sequence ∧ attempt.sequence ≤ counterMax)) .invalidRequest

/-- The canonical encoding exists and fits its bound. -/
def encodeCanonical (codec : Codec) (attempt : ScopeBatchAttempt) :
    Except ScopeBatchError Unit := do
  attempt.validate
  refuseIf (maxScopeAuthorityRecordBytes < codec.attemptLen attempt) .invalidRequest

theorem validate_eq_ok {attempt : ScopeBatchAttempt} (hok : attempt.validate = .ok ()) :
    attempt.lane < 8 ∧ 1 ≤ attempt.sequence := by
  obtain ⟨_, -, hok⟩ := bind_eq_ok hok
  have hfields := refuseIf_eq_ok.mp hok
  push Not at hfields
  exact ⟨hfields.2.1, hfields.2.2.1⟩

end ScopeBatchAttempt

def ScopeBatchOutcome.validate (outcome : ScopeBatchOutcome) : Except ScopeBatchError Unit :=
  refuseIf (¬ outcome.lane < 8 ∨ ¬ (1 ≤ outcome.sequence ∧ outcome.sequence ≤ counterMax) ∨
    ¬ (outcome.sequence ≤ outcome.revision ∧ outcome.revision ≤ counterMax) ∨
    maxScopeBatchChildren < outcome.rows.length ∨
    (∃ counter, counterMax < outcome.counters counter) ∨
    ¬ ∀ row ∈ outcome.rows, row.InRange) .invalidRequest

def ScopeBatchReceipt.validate (receipt : ScopeBatchReceipt) : Except ScopeBatchError Unit := do
  receipt.attempt.validate
  refuseIf (¬ (receipt.attempt.sequence ≤ receipt.revision ∧ receipt.revision ≤ counterMax))
    .invalidRequest
  match receipt.terminal with
  | .applied outcome => do
    outcome.validate
    refuseIf (outcome.requestDigest ≠ receipt.attempt.requestDigest ∨
      outcome.lane ≠ receipt.attempt.lane ∨ outcome.sequence ≠ receipt.attempt.sequence ∨
      outcome.revision ≠ receipt.revision) .invalidRequest
  | .cancelled => return ()

end Scope

end PacketCore
