import PacketCore.Diameter.Transaction
import PacketCore.Library.Tally

/-!
# The pending-request table

Records are indexed by completion token, by the End-to-End identifier while
they are pending, and by the (connection, Hop-by-Hop) pair of each of their
attempts.  Every operation is a function of the table and, where it takes the
time, of one reading of the monotonic clock; an operation that can fail gives
the table it leaves next to its result, because some failures have effects.
-/

namespace PacketCore.Diameter

structure PendingRequestTable where
  config : PendingRequestTableConfig
  snapshotEpoch : NonZero 16
  records : Table CompletionTokenValue TransactionRecord
  suppressedDeliveries : Table CompletionTokenValue CompletionToken
  attemptIndex : Table AttemptId CompletionTokenValue
  pendingEndToEnd : Table (Word 4) CompletionTokenValue
  connections : Table ConnectionToken ConnectionEntry
  pendingCount : ℕ
  unacknowledgedCompletionCount : ℕ
  completedCount : ℕ
  completionSequence : ℕ
  evictedCompletions : ℕ
  unmatchedAnswers : ℕ
  snapshotCheckpoint : Option SnapshotCheckpoint
  uncommittedSnapshotCheckpoint : Option SnapshotCheckpoint
  committedSnapshotCheckpoint : Option SnapshotCheckpoint

namespace PendingRequestTable

variable (table : PendingRequestTable)

def new (config : PendingRequestTableConfig) (snapshotEpoch : NonZero 16) :
    PendingRequestTable where
  config := config
  snapshotEpoch := snapshotEpoch
  records := .empty
  suppressedDeliveries := .empty
  attemptIndex := .empty
  pendingEndToEnd := .empty
  connections := .empty
  pendingCount := 0
  unacknowledgedCompletionCount := 0
  completedCount := 0
  completionSequence := 0
  evictedCompletions := 0
  unmatchedAnswers := 0
  snapshotCheckpoint := none
  uncommittedSnapshotCheckpoint := none
  committedSnapshotCheckpoint := none

section Edits

variable (token : CompletionTokenValue)

/-- Edit the record of one token, if it is there. -/
def editRecord (edit : TransactionRecord → TransactionRecord) : PendingRequestTable :=
  { table with records := table.records.modify token edit }

/-- Edit every attempt of every record that a test selects. -/
def editAttempts (test : AttemptEvidence → Bool) (edit : AttemptEvidence → AttemptEvidence) :
    PendingRequestTable :=
  { table with records := table.records.mapValues (·.editAttempts test edit) }

/-- Take the next Hop-by-Hop identifier of an open connection. -/
def allocateHopByHop (connection : ConnectionToken) :
    Except HopByHopAllocateError (PendingRequestTable × Word 4) := do
  let entry ← okOr (table.connections.find connection) .unknownConnection
  refuseIf (¬ entry.isOpen) .connectionClosed
  refuseIf entry.exhausted .exhausted
  return ({ table with connections := table.connections.insert connection entry.advance },
    entry.nextHopByHop)

/-- Index a new attempt of a record and count it on its connection. -/
def linkAttempt (attempt : AttemptEvidence) (token : CompletionTokenValue) : PendingRequestTable :=
  { table with
    attemptIndex := table.attemptIndex.insert attempt.attemptId token
    connections := table.connections.modify attempt.connection fun entry =>
      { entry with liveAttempts := entry.liveAttempts + 1 } }

/-- Undo `linkAttempt`. -/
def unlinkAttempt (attempt : AttemptEvidence) : PendingRequestTable :=
  { table with
    attemptIndex := table.attemptIndex.erase attempt.attemptId
    connections := table.connections.modify attempt.connection fun entry =>
      { entry with liveAttempts := entry.liveAttempts - 1 } }

/-- Take a record out of the table and adjust the counters it was in. -/
def dropRecord (record : TransactionRecord) : PendingRequestTable :=
  let table := record.attempts.foldl unlinkAttempt
    { table with records := table.records.erase token }
  let table := { table with
    pendingEndToEnd := table.pendingEndToEnd.erase record.endToEndIdentifier }
  if record.isPending then { table with pendingCount := table.pendingCount - 1 }
  else { table with
    unacknowledgedCompletionCount :=
      if record.completionDeliveryAcknowledged then table.unacknowledgedCompletionCount
      else table.unacknowledgedCompletionCount - 1
    completedCount := table.completedCount - 1 }

def removeRecord : PendingRequestTable :=
  match table.records.find token with
  | none => table
  | some record => table.dropRecord token record

/-- Completed records whose delivery is acknowledged, by completion order. -/
def evictable : Finset (ℕ ×ₗ CompletionTokenValue) :=
  table.records.keys.biUnion fun token =>
    match table.records.find token with
    | none => ∅
    | some record =>
      match record.state with
      | .pending => ∅
      | .completed _ sequence =>
        if record.completionDeliveryAcknowledged then {toLex (sequence, token)} else ∅

/-- The retention loop; every turn removes one record. -/
def evictCompletions (liveUnacknowledged : ℕ) : ℕ → PendingRequestTable → PendingRequestTable
  | 0, table => table
  | turns + 1, table =>
    if table.completedCount - liveUnacknowledged > table.config.maxRetainedCompletions then
      match leastOf table.evictable with
      | none => table
      | some oldest =>
        let table := table.removeRecord (ofLex oldest).2
        evictCompletions liveUnacknowledged turns
          { table with evictedCompletions := saturatingAdd table.evictedCompletions 1 }
    else table

def enforceCompletionRetention : PendingRequestTable :=
  evictCompletions
    (table.unacknowledgedCompletionCount - table.suppressedDeliveries.keys.card)
    table.records.keys.card table

/-- Turn a pending record into a completed one. -/
def complete (kind : CompletionKind) : PendingRequestTable :=
  let sequence := saturatingAdd table.completionSequence 1
  let pendingEndToEnd := match table.records.find token with
    | none => table.pendingEndToEnd
    | some record => table.pendingEndToEnd.erase record.endToEndIdentifier
  enforceCompletionRetention { table with
    completionSequence := sequence
    records := table.records.modify token (.settle kind sequence)
    pendingCount := table.pendingCount - 1
    unacknowledgedCompletionCount := saturatingAdd table.unacknowledgedCompletionCount 1
    completedCount := saturatingAdd table.completedCount 1
    pendingEndToEnd := pendingEndToEnd }

/-- Forget a suppressed delivery. -/
def dropSuppressed : PendingRequestTable :=
  { table with
    suppressedDeliveries := table.suppressedDeliveries.erase token
    unacknowledgedCompletionCount := table.unacknowledgedCompletionCount - 1 }

end Edits

section Connections

/-- Some retained attempt was made on this connection. -/
def references (connection : ConnectionToken) : Bool :=
  ∃ token ∈ table.records.keys, ∃ record ∈ table.records.find token,
    ∃ attempt ∈ record.attempts, attempt.connection = connection

def addConnection (token : ConnectionToken) (firstHopByHop : Word 4) :
    Except ConnectionTableError PendingRequestTable := do
  refuseIf (table.connections.find token).isSome .duplicateConnection
  refuseIf (table.config.maxConnections ≤ table.connections.keys.card) .tableFull
  refuseIf (table.references token) .duplicateConnection
  return { table with connections := table.connections.insert token (.opened firstHopByHop) }

/-- Attempts on the connection that were never handed out. -/
def unsent (connection : ConnectionToken) (attempt : AttemptEvidence) : Bool :=
  attempt.connection = connection ∧ attempt.disposition = .prepared

/-- Attempts that were never handed out end with their connection. -/
def closeConnection (now : ℕ) (token : ConnectionToken) :
    Except ConnectionTableError PendingRequestTable := do
  refuseIf (table.connections.find token).isNone .unknownConnection
  let closed := { table with
    connections := table.connections.modify token fun entry => { entry with isOpen := false } }
  return closed.editAttempts (unsent token) (.abandon now)

def retireConnection (token : ConnectionToken) :
    Except ConnectionTableError PendingRequestTable := do
  let entry ← okOr (table.connections.find token) .unknownConnection
  refuseIf entry.isOpen .connectionStillOpen
  refuseIf (0 < entry.liveAttempts) .connectionInUse
  return { table with connections := table.connections.erase token }

end Connections

section Transactions

/-- The checks of `track` before it takes an identifier. -/
def admitRequest (request : OwnedMessage) (tokenValue : CompletionTokenValue) :
    Except TrackError RequestFacts := do
  refuseIf ((table.records.find tokenValue).isSome ∨
    (table.suppressedDeliveries.find tokenValue).isSome) .duplicateCompletionToken
  refuseIf (table.config.maxPendingTransactions ≤
    table.pendingCount + table.unacknowledgedCompletionCount) .tableFull
  let facts ← inspectRequest request table.config.maxMessageLen
  refuseIf (table.pendingEndToEnd.find facts.endToEndIdentifier).isSome .duplicateEndToEnd
  return facts

/-- Enter a new pending record with its first attempt. -/
def enterRecord (record : TransactionRecord) (attempt : AttemptEvidence) : PendingRequestTable :=
  let table := table.linkAttempt attempt record.tokenValue
  { table with
    pendingEndToEnd := table.pendingEndToEnd.insert record.endToEndIdentifier record.tokenValue
    records := table.records.insert record.tokenValue record
    pendingCount := table.pendingCount + 1 }

/-- The record of a request that is tracked for the first time. -/
def trackedRecord (facts : RequestFacts) (rawAvps : List Byte)
    (tokenValue : CompletionTokenValue) (attempt : AttemptEvidence) : TransactionRecord where
  tokenValue := tokenValue
  generation := 0
  commandCode := facts.commandCode
  applicationId := facts.applicationId
  proxiable := facts.proxiable
  endToEndIdentifier := facts.endToEndIdentifier
  fixedDestination := facts.fixedDestination
  rawAvps := rawAvps
  attempts := [attempt]
  restoredBaseline := 0
  state := .pending
  completionDeliveryAcknowledged := false
  lateAnswerCount := 0
  rejectedAnswerCount := 0

variable (now : ℕ)

def track (request : OwnedMessage) (connection : ConnectionToken)
    (tokenValue : CompletionTokenValue) : PendingRequestTable × Except TrackError CompletionToken :=
  match table.admitRequest request tokenValue with
  | .error fault => (table, .error fault)
  | .ok facts =>
    match table.allocateHopByHop connection with
    | .error fault => (table, .error fault.toTrackError)
    | .ok (table, hopByHopIdentifier) =>
      if (table.attemptIndex.find ⟨connection, hopByHopIdentifier⟩).isSome then
        (table, .error .attemptIdentifierConflict)
      else
        let attempt := .prepare 0 connection hopByHopIdentifier false now
        (table.enterRecord (trackedRecord facts request.rawAvps tokenValue attempt) attempt,
          .ok ⟨tokenValue, 0⟩)

variable (token : CompletionTokenValue)

/-- The attempt that may be handed out now: it is not of an earlier process
life, and the committed snapshot holds it. -/
def selectDispatch (committed : SnapshotCheckpoint) :
    Except TransactionAccessError (TransactionRecord × ℕ × AttemptEvidence) := do
  refuseIf (table.committedSnapshotCheckpoint ≠ some committed) .snapshotProofMismatch
  let record ← okOr (table.records.find token) .unknownTransaction
  refuseIf (¬ record.isPending) .notPending
  let index ← okOr record.nextDispatch .noLiveAttempt
  let attempt ← okOr record.attempts[index]? .noLiveAttempt
  refuseIf (∀ revision ∈ attempt.snapshottedAt, committed.revision < revision)
    .attemptNotDurablySnapshotted
  return (record, index, attempt)

def connectionOpen (connection : ConnectionToken) : Bool :=
  (table.connections.find connection).any (·.isOpen)

def takeAttemptDispatch (token : CompletionTokenValue) (committed : SnapshotCheckpoint) :
    PendingRequestTable × Except TransactionAccessError AttemptDispatch :=
  match table.selectDispatch token committed with
  | .error fault => (table, .error fault)
  | .ok (record, index, attempt) =>
    if table.connectionOpen attempt.connection then
      (table.editRecord token (·.editAttempt index .dispatch),
        .ok ⟨attempt.attemptId, record.wireMessage attempt⟩)
    else
      (table.editRecord token (·.editAttempt index (.abandon now)), .error .connectionNotOpen)

def recordAttemptWriteSuccess (token : CompletionTokenValue) (id : AttemptId) :
    Except TransactionAccessError (PendingRequestTable × AttemptEvidence) := do
  let record ← okOr (table.records.find token) .unknownTransaction
  refuseIf (¬ record.isPending) .notPending
  let index ← okOr (record.findAttempt id) .unknownAttempt
  let attempt ← okOr record.attempts[index]? .unknownAttempt
  refuseIf (attempt.disposition ≠ .inFlight) .invalidAttemptTransition
  return (table.editRecord token (·.editAttempt index (.write now)), attempt.write now)

def recordAttemptFailure (token : CompletionTokenValue) (id : AttemptId)
    (failure : AttemptFailure) :
    Except TransactionAccessError (PendingRequestTable × AttemptEvidence) := do
  let record ← okOr (table.records.find token) .unknownTransaction
  let index ← okOr (record.findAttempt id) .unknownAttempt
  let attempt ← okOr record.attempts[index]? .unknownAttempt
  refuseIf (attempt.disposition = .writtenAwaitingAnswer ∧ failure ≠ .transportLostAfterWrite)
    .invalidAttemptTransition
  refuseIf (¬ failure.compatible attempt.disposition) .attemptNotInFlight
  return (table.editRecord token (·.editAttempt index (.fail failure now)),
    attempt.fail failure now)

/-- Attempts on the connection that the failure can end. -/
def failing (connection : ConnectionToken) (failure : AttemptFailure) (attempt : AttemptEvidence) :
    Bool :=
  attempt.connection = connection ∧ failure.compatible attempt.disposition

def failConnectionAttempts (connection : ConnectionToken)
    (failure : AttemptFailure) : PendingRequestTable × ℕ :=
  (table.editAttempts (failing connection failure) (.fail failure now),
    table.records.total fun record => record.attempts.countP (failing connection failure))

/-- The checks of `failover` before it takes an identifier. -/
def admitFailover (routability : AlternateRoutability) :
    Except FailoverError TransactionRecord := do
  let record ← okOr (table.records.find token) .unknownTransaction
  refuseIf (¬ record.isPending) .notPending
  refuseIf (table.config.maxAttemptsPerTransaction ≤ record.attempts.length) .attemptLimitReached
  refuseIf (record.fixedDestination ∧ routability = .realmRouted) .fixedDestinationRequiresAssertion
  return record

def addAttempt (attempt : AttemptEvidence) : PendingRequestTable :=
  (table.editRecord token (.push attempt)).linkAttempt attempt token

def failover (token : CompletionTokenValue) (connection : ConnectionToken)
    (routability : AlternateRoutability) :
    PendingRequestTable × Except FailoverError AttemptEvidence :=
  match table.admitFailover token routability with
  | .error fault => (table, .error fault)
  | .ok record =>
    match table.allocateHopByHop connection with
    | .error fault => (table, .error fault.toFailoverError)
    | .ok (table, hopByHopIdentifier) =>
      if (table.attemptIndex.find ⟨connection, hopByHopIdentifier⟩).isSome then
        (table, .error .attemptIdentifierConflict)
      else
        let attempt := .prepare record.attempts.length connection hopByHopIdentifier true now
        (table.addAttempt token attempt, .ok attempt)

end Transactions

section Completions

def unmatched (id : AttemptId) : PendingRequestTable × AnswerDisposition :=
  ({ table with unmatchedAnswers := saturatingAdd table.unmatchedAnswers 1 }, .unmatched id)

/-- Why an answer to this attempt is not accepted. -/
def rejection (record : TransactionRecord) (attempt : AttemptEvidence)
    (answer : OwnedMessage) : Option AnswerRejectionReason :=
  (inspectAnswer answer record.facts table.config.maxMessageLen).or
    (if attempt.disposition.canReceiveAnswer then none else some .attemptNotAnswerEligible)

/-- Apply an answer to the attempt it names. -/
def correlateAttempt (now : ℕ) (token : CompletionTokenValue)
    (record : TransactionRecord) (index : ℕ) (attempt : AttemptEvidence)
    (answer : OwnedMessage) : PendingRequestTable × AnswerDisposition :=
  match table.rejection record attempt answer with
  | some reason =>
    let count := saturatingAdd record.rejectedAnswerCount 1
    (table.editRecord token ({ · with rejectedAnswerCount := count }),
      .rejected attempt.attemptId reason count)
  | none =>
    match record.state with
    | .pending =>
      ((table.editRecord token fun record =>
        { record.editAttempt index (.answer now) with generation := 1 }).complete token .answered,
        .completed (.answered ⟨record.tokenValue, 1⟩ answer (attempt.answer now)))
    | .completed kind _ =>
      let count := saturatingAdd record.lateAnswerCount 1
      (table.editRecord token ({ · with lateAnswerCount := count }),
        .lateAnswer attempt.attemptId kind count)

def correlateAnswer (now : ℕ) (connection : ConnectionToken)
    (answer : OwnedMessage) : PendingRequestTable × AnswerDisposition :=
  let id : AttemptId := ⟨connection, answer.header.hopByHopIdentifier⟩
  match table.attemptIndex.find id with
  | none => table.unmatched id
  | some token =>
    match table.records.find token with
    | none => table.unmatched id
    | some record =>
      match record.findAttempt id with
      | none => table.unmatched id
      | some index =>
        match record.attempts[index]? with
        | none => table.unmatched id
        | some attempt => table.correlateAttempt now token record index attempt answer

variable (token : CompletionTokenValue)

/-- End a pending transaction without an answer. -/
def finish (kind : CompletionKind) (completion : CompletionToken → ℕ → TransactionCompletion) :
    Except TransactionAccessError (PendingRequestTable × TransactionCompletion) := do
  let record ← okOr (table.records.find token) .unknownTransaction
  refuseIf (¬ record.isPending) .notPending
  return ((table.editRecord token ({ · with generation := 1 })).complete token kind,
    completion ⟨record.tokenValue, 1⟩ record.attempts.length)

def finishUndeliverable (reason : UndeliverableReason) :
    Except TransactionAccessError (PendingRequestTable × TransactionCompletion) :=
  table.finish token .undeliverable (.undeliverable · reason ·)

def finishExhausted : Except TransactionAccessError (PendingRequestTable × TransactionCompletion) :=
  table.finish token .exhausted .exhausted

def finishIndeterminate (reason : IndeterminateReason) :
    Except TransactionAccessError (PendingRequestTable × TransactionCompletion) :=
  table.finish token .indeterminate (.indeterminate · reason ·)

def retire : PendingRequestTable × Bool :=
  match table.records.find token with
  | none => (table, false)
  | some record =>
    if record.isPending ∨ ¬ record.completionDeliveryAcknowledged then (table, false)
    else (table.removeRecord token, true)

/-- Hand a pending record over to a completion that is already durable. -/
def suppress (completion : CompletionToken) : PendingRequestTable :=
  let table := table.removeRecord token
  { table with
    suppressedDeliveries := table.suppressedDeliveries.insert token completion
    unacknowledgedCompletionCount := saturatingAdd table.unacknowledgedCompletionCount 1 }

variable (durable : CompletionDeliveryRecord)

/-- Reconcile a delivery that is durably acknowledged. -/
def settleDelivery : Except CompletionDeliveryError (PendingRequestTable × Bool) :=
  let retained := (table.records.find durable.token).isSome
  match table.suppressedDeliveries.find durable.token with
  | none => .ok (table.removeRecord durable.token, retained)
  | some suppressed =>
    if suppressed = durable.completion then
      .ok ((table.dropSuppressed durable.token).removeRecord durable.token, true)
    else .error .unknownCompletion

/-- Reconcile a delivery that is durable but not acknowledged. -/
def holdDelivery : Except CompletionDeliveryError (PendingRequestTable × Bool) :=
  match table.suppressedDeliveries.find durable.token with
  | some suppressed =>
    if suppressed = durable.completion then .ok (table, true) else .error .unknownCompletion
  | none =>
    match table.records.find durable.token with
    | none => .ok (table, false)
    | some record =>
      if record.isPending then .ok (table.suppress durable.token durable.completion, true)
      else if record.completionToken = durable.completion then .ok (table, true)
      else .error .unknownCompletion

def reconcileCompletionDelivery : Except CompletionDeliveryError (PendingRequestTable × Bool) := do
  refuseIf (durable.epoch ≠ table.snapshotEpoch) .epochMismatch
  if durable.state = .acknowledged then table.settleDelivery durable
  else table.holdDelivery durable

variable (acknowledged : CompletionDeliveryRecord)

def reconcileAcknowledged : Except CompletionDeliveryError (PendingRequestTable × Bool) := do
  refuseIf (acknowledged.state ≠ .acknowledged) .notAcknowledged
  table.reconcileCompletionDelivery acknowledged

/-- Acknowledge the completion of a retained record. -/
def acknowledgeRecord : Except CompletionDeliveryError PendingRequestTable := do
  let record ← okOr (table.records.find acknowledged.token) .unknownCompletion
  refuseIf record.isPending .completionStillPending
  refuseIf (record.completionToken ≠ acknowledged.completion) .unknownCompletion
  if record.completionDeliveryAcknowledged then return table
  else return ({ table with
    records := table.records.modify acknowledged.token
      ({ · with completionDeliveryAcknowledged := true })
    unacknowledgedCompletionCount :=
      table.unacknowledgedCompletionCount - 1 }).enforceCompletionRetention

def acknowledgeCompletionDelivery : Except CompletionDeliveryError PendingRequestTable := do
  refuseIf (acknowledged.state ≠ .acknowledged) .notAcknowledged
  refuseIf (acknowledged.epoch ≠ table.snapshotEpoch) .epochMismatch
  match table.suppressedDeliveries.find acknowledged.token with
  | some suppressed =>
    if suppressed = acknowledged.completion then .ok (table.dropSuppressed acknowledged.token)
    else .error .unknownCompletion
  | none => table.acknowledgeRecord acknowledged

end Completions

section Checkpoints

/-- The caller attests that the emitted snapshot is the committed head. -/
def confirmSnapshotCommitted (checkpoint : SnapshotCheckpoint) :
    Except SnapshotCommitError PendingRequestTable :=
  if table.committedSnapshotCheckpoint = some checkpoint ∧
      table.uncommittedSnapshotCheckpoint = none then .ok table
  else do
    let emitted ← okOr table.uncommittedSnapshotCheckpoint .noEmittedSnapshot
    refuseIf (emitted ≠ checkpoint) .checkpointMismatch
    refuseIf (∃ committed ∈ table.committedSnapshotCheckpoint,
      committed.epoch ≠ checkpoint.epoch ∨
      checkpoint.revision < committed.revision) .committedHeadRegression
    return { table with
      committedSnapshotCheckpoint := some checkpoint
      uncommittedSnapshotCheckpoint := none }

def abandonUncommittedSnapshot (checkpoint : SnapshotCheckpoint) :
    Except SnapshotCommitError PendingRequestTable := do
  let emitted ← okOr table.uncommittedSnapshotCheckpoint .noEmittedSnapshot
  refuseIf (emitted ≠ checkpoint) .checkpointMismatch
  return { table with uncommittedSnapshotCheckpoint := none }

end Checkpoints

end PendingRequestTable

end PacketCore.Diameter
