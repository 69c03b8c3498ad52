import PacketCore.Library.Run
import PacketCore.Scope.Plan

/-!
# The store of one scope

One authority record, the batch ledger and the child and claim rows of a scope,
with the commands that replicated apply runs on them.  A refused command
changes nothing; an accepted plan is published as a whole.  The trace records
every terminal outcome that was committed.
-/

namespace PacketCore.Scope

open List

/-! ## Row records -/

namespace ScopeRow

/-- Revision a row was last written at. -/
def revision : ScopeRow → ℕ
  | batch checkpoint => checkpoint.revision
  | child record => record.batchRevision
  | claim row => row.revision

def scope : ScopeRow → ScopeId
  | batch checkpoint => checkpoint.scope
  | child record => record.ns.scope
  | claim row => row.ns.scope

end ScopeRow

def ScopeChildRecord.ValidStored (record : ScopeChildRecord) : Prop :=
  record.revision.InRange ∧ record.ns.scope.slot ≠ zeros 32 ∧
    (1 ≤ record.batchRevision ∧ record.batchRevision ≤ counterMax) ∧
    record.key.bytes ≠ zeros 32 ∧ record.claims.length ≤ maxScopeChildClaims ∧
    (∀ claim ∈ record.claims, claim.bytes ≠ zeros 32) ∧ record.claims.Nodup ∧
    (record.value = none → record.claims = [])

instance (record : ScopeChildRecord) : Decidable record.ValidStored :=
  inferInstanceAs (Decidable (_ ∧ _ ∧ _ ∧ _ ∧ _ ∧ _ ∧ _ ∧ _))

namespace ScopeRow

def Valid (codec : Codec) (row : ScopeRow) : Prop :=
  row.revision ≤ counterMax ∧ row.scope.slot ≠ zeros 32 ∧
    match row with
    | batch checkpoint => checkpoint.validateStored codec = .ok ()
    | child record => record.batchRevision ≠ 0 ∧ record.ValidStored
    | claim row => row.revision ≠ 0 ∧ row.key.bytes ≠ zeros 32 ∧ ∀ owner ∈ row.owner, owner.Valid

instance (codec : Codec) (row : ScopeRow) : Decidable (row.Valid codec) :=
  match row with
  | batch _ => inferInstanceAs (Decidable (_ ∧ _ ∧ _))
  | child _ => inferInstanceAs (Decidable (_ ∧ _ ∧ _ ∧ _))
  | claim _ => inferInstanceAs (Decidable (_ ∧ _ ∧ _ ∧ _ ∧ _))

/-- Largest encoded body of a row. -/
def limit : ScopeRow → ℕ
  | child _ => maxScopeRowBytes
  | batch _ => maxScopeBatchLedgerBytes
  | claim _ => maxMetadataBytes

/-- The row has a stored record. -/
def Encodes (codec : Codec) (row : ScopeRow) : Prop :=
  row.Valid codec ∧ codec.rowLen row ≤ row.limit

instance (codec : Codec) (row : ScopeRow) : Decidable (row.Encodes codec) :=
  inferInstanceAs (Decidable (_ ∧ _))

/-- The bounded cross-row predicates of live publication and reconstruction. -/
def LinksValid (codec : Codec) (read : SessionKey → Option ScopeRow) (row : ScopeRow) : Prop :=
  ∃ ledger, read (batchKey row.scope) = some (.batch ledger) ∧
    ledger.scope = row.scope ∧ row.revision ≤ ledger.revision ∧
    match row with
    | batch _ => True
    | child record => record.revision.birth ≤ ledger.birthFloor ∧
        ∀ claim ∈ record.claims, ∃ stored,
          read (claimKey codec record.ns claim) = some (.claim stored) ∧
          stored.ns = record.ns ∧ stored.owner = some ⟨record.key, record.revision.birth⟩
    | claim row => ∀ owner ∈ row.owner, ∃ stored,
          read (childKey codec row.ns owner.child) = some (.child stored) ∧
          stored.ns = row.ns ∧ stored.value.isSome = true ∧
          stored.revision.birth = owner.birth ∧ row.key ∈ stored.claims

end ScopeRow

/-- The version a request expects from its operation. -/
def ScopeChildMutation.Yields (operation : ScopeChildMutation) (row : ScopeChildRevision) : Prop :=
  match operation.expected with
  | some old => row.birth = old.birth ∧ row.generation = old.generation + 1
  | none => row.generation = 1

instance (operation : ScopeChildMutation) (row : ScopeChildRevision) :
    Decidable (operation.Yields row) :=
  match operation with
  | .create _ _ _ => inferInstanceAs (Decidable (_ = _))
  | .compareAndSet _ _ _ _ => inferInstanceAs (Decidable (_ ∧ _))
  | .delete _ _ => inferInstanceAs (Decidable (_ ∧ _))

/-- The outcome has the shape the request asked for. -/
def ScopeBatchOutcome.MatchesRequest (codec : Codec)
    (outcome : ScopeBatchOutcome) (request : ScopeBatchRequest) : Prop :=
  outcome.validate = .ok () ∧ request.digest codec = .ok outcome.requestDigest ∧
    outcome.lane = request.lane ∧ outcome.sequence = request.sequence ∧
    (∀ revision ∈ request.expectedRevision, outcome.revision = revision + 1) ∧
    outcome.rows.length = request.operations.length ∧
    (∀ pair ∈ outcome.rows.zip request.operations, pair.2.Yields pair.1) ∧
    ∀ counter ∈ request.counters, outcome.counters (Fin.ofNat 16 counter.counter) = counter.next

instance (codec : Codec) (outcome : ScopeBatchOutcome) (request : ScopeBatchRequest) :
    Decidable (outcome.MatchesRequest codec request) :=
  inferInstanceAs (Decidable (_ ∧ _ ∧ _ ∧ _ ∧ _ ∧ _ ∧ _ ∧ _))

/-! ## The store -/

/-- A terminal outcome that was committed. -/
inductive ScopeEvent where
  | applied (request : ScopeBatchRequest) (attempt : ScopeBatchAttempt)
      (outcome : ScopeBatchOutcome)
  | cancelled (attempt : ScopeBatchAttempt)

def ScopeEvent.attempt : ScopeEvent → ScopeBatchAttempt
  | applied _ attempt _ | cancelled attempt => attempt

structure ScopeStore where
  scope : ScopeId
  authority : Option ScopeState
  rows : Table SessionKey ScopeRow
  trace : List ScopeEvent

inductive ScopeInput where
  | authority (request : ScopeAuthorityRequest)
  | apply (request : ScopeBatchRequest)
  | cancel (attempt : ScopeBatchAttempt)

/-- Faults that stop apply instead of refusing a command. -/
inductive ScopeFault where
  | otherScope
  | receiptInvalid
  | recordInvalid

namespace ScopeStore

variable (codec : Codec)

def start (scope : ScopeId) : ScopeStore := ⟨scope, none, .empty, []⟩

/-- The stored ledger. -/
def checkpoint (store : ScopeStore) : Option ScopeBatchCheckpoint :=
  match store.rows.find (batchKey store.scope) with
  | some (.batch checkpoint) => some checkpoint
  | _ => none

variable (store : ScopeStore)

/-- Authority and ledger as a batch reads them. -/
def prepare : Except ScopeBatchError (ScopeState × ScopeBatchCheckpoint) := do
  let authority ← okOr store.authority (.scope .staleAuthority)
  let checkpoint ← okOr store.checkpoint .formatMismatch
  refuseIf (checkpoint.scope ≠ store.scope) .formatMismatch
  return (authority, checkpoint)

def planApply (request : ScopeBatchRequest) :
    Except ScopeBatchError (ScopeBatchCheckpoint × ScopeBatchPlan) := do
  let current ← store.prepare
  let plan ← request.plan codec current.1 current.2 fun key => .ok (store.rows.find key)
  return (current.2, plan)

def planCancel (attempt : ScopeBatchAttempt) :
    Except ScopeBatchError (ScopeBatchCheckpoint × ScopeBatchPlan) := do
  let current ← store.prepare
  let plan ← attempt.planCancel codec current.1 current.2
  return (current.2, plan)

/-- Publish every row of a plan; a replay publishes nothing and is no event. -/
def publish (before : ScopeBatchCheckpoint) (plan : ScopeBatchPlan)
    (event : ScopeEvent) : Except ScopeFault ScopeStore := do
  refuseIf (¬ ∀ key ∈ plan.rows.keys, ∀ row ∈ plan.rows.find key, row.Encodes codec) .recordInvalid
  return { store with
    rows := store.rows.overlay plan.rows ∅
    trace := if plan.checkpoint.revision = before.revision then store.trace
      else store.trace ++ [event] }

/-- The receipt an accepted batch answers with. -/
def appliedEvent (request : ScopeBatchRequest)
    (checkpoint : ScopeBatchCheckpoint) : Except ScopeFault ScopeEvent :=
  match checkpoint.receipt request.lane with
  | some receipt =>
    match receipt.terminal with
    | .applied outcome => do
      refuseIf (¬ outcome.MatchesRequest codec request) .receiptInvalid
      return .applied request receipt.attempt outcome
    | .cancelled => .error .receiptInvalid
  | none => .error .receiptInvalid

/-- The receipt a cancellation answers with; the batch may have won. -/
def cancelledEvent (attempt : ScopeBatchAttempt)
    (checkpoint : ScopeBatchCheckpoint) : Except ScopeFault ScopeEvent := do
  let receipt ← okOr (checkpoint.receipt attempt.lane) .receiptInvalid
  refuseIf (¬ (receipt.validate = .ok () ∧ receipt.attempt = attempt)) .receiptInvalid
  return .cancelled attempt

/-- The first admission writes the empty ledger with the authority. -/
def admitRows : Table SessionKey ScopeRow :=
  if store.authority = none then
    store.rows.insert (batchKey store.scope) (.batch (.empty store.scope))
  else store.rows

def step : ScopeInput → Except ScopeFault ScopeStore
  | .authority request => do
    refuseIf (request.scope ≠ store.scope) .otherScope
    -- Orphaned rows are not adopted by an admission.
    if store.authority = none ∧ store.rows ≠ .empty then return store
    else
      match request.apply codec.toAuthorityCodec store.authority with
      | .ok next => return { store with authority := some next, rows := store.admitRows }
      | .error _ => return store
  | .apply request => do
    refuseIf (request.stamp.scope ≠ store.scope) .otherScope
    match store.planApply codec request with
    | .ok planned => do
      let event ← appliedEvent codec request planned.2.checkpoint
      store.publish codec planned.1 planned.2 event
    | .error _ => return store
  | .cancel attempt => do
    refuseIf (attempt.stamp.scope ≠ store.scope) .otherScope
    match store.planCancel codec attempt with
    | .ok planned => do
      let event ← cancelledEvent attempt planned.2.checkpoint
      store.publish codec planned.1 planned.2 event
    | .error _ => return store

end ScopeStore

/-! ## A sample scope -/

namespace Sample

def scope : ScopeId := ⟨1, "tenant", "smf", replicate 32 7⟩

/-- Sizes are zero and digests constant. -/
def codec : Codec where
  requestLen := fun _ => 0
  requestDigest := fun _ => replicate 32 1
  stateLen := fun _ => 0
  batchLen := fun _ => 0
  batchDigest := fun _ => replicate 32 2
  attemptLen := fun _ => 0
  attemptDigest := fun _ => replicate 32 3
  namespacePrefix := fun _ => replicate 32 4
  rowLen := fun _ => 0

/-- The boot of one admission generation. -/
def execution (generation : ℕ) : ScopeExecution :=
  ⟨"worker", generation, replicate 16 1, replicate 16
    (Fin.ofNat 256 generation), replicate 32 (Fin.ofNat 256 generation)⟩

def stamp (revision generation : ℕ) : ScopeAuthorityStamp :=
  ⟨⟨scope, .one⟩, revision, execution generation⟩

def authorityRequest (id : Byte) (expectedRevision : ℕ) (operation : ScopeAuthorityOperation) :
    ScopeAuthorityRequest :=
  ⟨scope, replicate 16 id, expectedRevision, operation⟩

def child (byte : Byte) : ScopeChildKey := ⟨replicate 32 byte⟩

def claim (byte : Byte) : ScopeClaimKey := ⟨replicate 32 byte⟩

/-- A batch of one lane under the first stamp. -/
def batch (id : Byte) (lane sequence : ℕ) (operations : List ScopeChildMutation) :
    ScopeBatchRequest :=
  ⟨stamp 1 1, replicate 16 id, lane, sequence, none, operations, [], [], []⟩

/-- One child with one claim. -/
def creation : ScopeBatchRequest :=
  batch 1 0 1 [.create (child 1) ⟨[]⟩ [claim 1]]

/-- The claim moves to a second child while the first is deleted. -/
def handover : ScopeBatchRequest :=
  batch 2 0 2 [.create (child 2) ⟨[]⟩ [claim 1], .delete (child 1) ⟨1, 1⟩]

def attempt (request : ScopeBatchRequest) : ScopeBatchAttempt :=
  ⟨request.stamp, request.requestId, request.lane, request.sequence, replicate 32 2⟩

/-- A batch of the second lane that is cancelled before it arrives. -/
def late : ScopeBatchRequest := batch 3 1 1 [.create (child 3) ⟨[]⟩ []]

/-- A batch that never arrives while its authority lasts. -/
def lost : ScopeBatchRequest := batch 4 2 1 [.create (child 4) ⟨[]⟩ []]

def admission : List ScopeInput :=
  [.authority (authorityRequest 1 0 (.admitInitial (execution 1))), .apply creation]

def closing : List ScopeInput :=
  [.cancel (attempt late), .authority
    (authorityRequest 2 1 (.close (stamp 1 1) ⟨.localQuiescence, replicate 32 1⟩))]

def succession : List ScopeInput :=
  [.authority (authorityRequest 3 2 (.succeedClosed (stamp 2 1) (execution 2)
    ⟨.committedClose, replicate 32 1⟩)), .apply late, .apply lost]

/-- The store after a list of inputs; a fault leaves the start. -/
def after (inputs : List ScopeInput) : ScopeStore :=
  match runInputs (ScopeStore.step codec) inputs (.start scope) with
  | .ok store => store
  | .error _ => .start scope

end Sample

end PacketCore.Scope
