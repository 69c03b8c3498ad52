import PacketCore.Diameter.PendingTable
import PacketCore.Library.Wire

/-!
# Snapshots of the pending-request table

A snapshot is the big-endian form of every pending record, in token order,
under a checkpoint.  `restore` reads it back in a new process: it checks each
record as if the request were tracked again, checks the clock readings of each
attempt against each other, and indexes the records one by one.
-/

namespace PacketCore.Diameter

open Reader

inductive SnapshotCreateError
  | epochMismatch
  | revisionNotAdvanced
  | sizeLimitExceeded
  | unacknowledgedCompletion
  | uncommittedSnapshotOutstanding

inductive SnapshotRestoreError
  | malformed
  | unsupportedVersion
  | limitExceeded
  | invalidRecord
  | epochMismatch
  | stale
  | uncommitted

def snapshotMagic : ℕ := 0x44505453

def snapshotVersion : ℕ := 2

/-- The time stamp that stands for no reading. -/
def microsSentinelNone : ℕ := 2 ^ 64 - 1

/-- Whole microseconds of a reading, in 64 bits. -/
def microsOf (reading : ℕ) : ℕ := min (reading / 1000) (2 ^ 64 - 1)

/-- The microseconds of a reading that may be absent. -/
def stampOf (reading : Option ℕ) : ℕ := (reading.map microsOf).getD microsSentinelNone

def stampRead (micros : ℕ) : Option ℕ :=
  if micros = microsSentinelNone then none else some (micros * 1000)

namespace AttemptDisposition

def asSnapshotCode : AttemptDisposition → ℕ
  | .prepared => 0
  | .inFlight => 1
  | .writtenAwaitingAnswer => 2
  | .failedBeforeWrite => 3
  | .failedUncertainWrite => 4
  | .transportLostAfterWrite => 5
  | .answered => 6

def fromSnapshotCode : ℕ → Except SnapshotRestoreError AttemptDisposition
  | 0 => .ok .prepared
  | 1 => .ok .inFlight
  | 2 => .ok .writtenAwaitingAnswer
  | 3 => .ok .failedBeforeWrite
  | 4 => .ok .failedUncertainWrite
  | 5 => .ok .transportLostAfterWrite
  | 6 => .ok .answered
  | _ => .error .invalidRecord

/-- The attempt has not ended. -/
def isLive (disposition : AttemptDisposition) : Bool :=
  disposition = .prepared ∨ disposition = .inFlight ∨ disposition = .writtenAwaitingAnswer

/-- The bytes of the attempt certainly left. -/
def isWritten (disposition : AttemptDisposition) : Bool :=
  disposition = .writtenAwaitingAnswer ∨ disposition = .transportLostAfterWrite

/-- The attempt has no write time. -/
def isUnwritten (disposition : AttemptDisposition) : Bool :=
  disposition = .prepared ∨ disposition = .inFlight ∨
    disposition = .failedBeforeWrite ∨ disposition = .failedUncertainWrite

end AttemptDisposition

/-- The readings of an attempt contradict its disposition or each other. -/
def AttemptEvidence.incoherent (attempt : AttemptEvidence) : Prop :=
  attempt.endedAt.isNone ≠ attempt.disposition.isLive ∨
    (attempt.disposition.isWritten ∧ attempt.writtenAt.isNone) ∨
    (attempt.disposition.isUnwritten ∧ attempt.writtenAt.isSome) ∨
    (∃ written ∈ attempt.writtenAt, written < attempt.startedAt) ∨
    (∃ ended ∈ attempt.endedAt, ended < attempt.startedAt) ∨
    (∃ written ∈ attempt.writtenAt, ∃ ended ∈ attempt.endedAt, ended < written)

instance (attempt : AttemptEvidence) : Decidable attempt.incoherent :=
  inferInstanceAs (Decidable (_ ∨ _ ∨ _ ∨ _ ∨ _ ∨ _))

section Encoding

def attemptBytes (attempt : AttemptEvidence) : List Byte :=
  attempt.connection.bytes ++ (attempt.hopByHopIdentifier.bytes ++
    (bigEndian 1 attempt.disposition.asSnapshotCode ++
      (bigEndian 8 (microsOf attempt.startedAt) ++
        (bigEndian 8 (stampOf attempt.writtenAt) ++ bigEndian 8 (stampOf attempt.endedAt)))))

/-- The flags octet of a record. -/
def recordFlags (record : TransactionRecord) : ℕ :=
  record.fixedDestination.toNat + 2 * record.proxiable.toNat

def recordBytes (record : TransactionRecord) : List Byte :=
  record.tokenValue.bytes ++ (bigEndian 8 record.generation ++
    (record.endToEndIdentifier.bytes ++ (record.commandCode.bytes ++
      (record.applicationId.bytes ++ (bigEndian 1 (recordFlags record) ++
        (bigEndian 2 record.attempts.length ++ (record.attempts.flatMap attemptBytes ++
          (bigEndian 4 record.rawAvps.length ++ record.rawAvps))))))))

def snapshotBytes (checkpoint : SnapshotCheckpoint)
    (pending : List TransactionRecord) : List Byte :=
  bigEndian 4 snapshotMagic ++ (bigEndian 2 snapshotVersion ++ (checkpoint.epoch.bytes ++
    (checkpoint.revision.bytes ++ (bigEndian 2 pending.length ++ pending.flatMap recordBytes))))

/-- The size of the snapshot, computed before it is written. -/
def snapshotLen (pending : List TransactionRecord) : ℕ :=
  32 + (pending.map fun record =>
    43 + record.attempts.length * 37 + record.rawAvps.length).sum

end Encoding

namespace PendingRequestTable

/-- Pending records in token order. -/
def pendingRecords (table : PendingRequestTable) : List TransactionRecord :=
  (ascending table.records.keys).filterMap fun token =>
    (table.records.find token).filter (·.isPending)

/-- Note on every pending attempt that a snapshot holds it. -/
def markSnapshotted (table : PendingRequestTable) (revision : NonZero 8) : PendingRequestTable :=
  { table with
    records := table.records.mapValues fun record =>
      if record.isPending then record.editAttempts (fun _ => true) (.snapshot revision)
      else record }

def snapshot (table : PendingRequestTable) (checkpoint : SnapshotCheckpoint) :
    Except SnapshotCreateError (PendingRequestTable × List Byte) := do
  refuseIf table.uncommittedSnapshotCheckpoint.isSome .uncommittedSnapshotOutstanding
  refuseIf (checkpoint.epoch ≠ table.snapshotEpoch) .epochMismatch
  refuseIf (∃ previous ∈ table.snapshotCheckpoint, previous.epoch ≠ checkpoint.epoch) .epochMismatch
  refuseIf (∃ previous ∈ table.snapshotCheckpoint, checkpoint.revision ≤ previous.revision)
    .revisionNotAdvanced
  refuseIf (0 < table.unacknowledgedCompletionCount) .unacknowledgedCompletion
  refuseIf (table.config.maxSnapshotBytes < snapshotLen table.pendingRecords) .sizeLimitExceeded
  return ({ table.markSnapshotted checkpoint.revision with
    snapshotCheckpoint := some checkpoint
    uncommittedSnapshotCheckpoint := some checkpoint },
    snapshotBytes checkpoint table.pendingRecords)

end PendingRequestTable

section Decoding

abbrev SnapshotCursor := Reader SnapshotRestoreError

/-- One attempt of a restored record. -/
def restoreAttempt (revision : NonZero 8) (attemptIndex : ℕ) : SnapshotCursor AttemptEvidence := do
  let connection ← nonZero .malformed .invalidRecord 8
  let hopByHopIdentifier ← word .malformed 4
  let code ← number .malformed 1
  let disposition ← StateT.lift (AttemptDisposition.fromSnapshotCode code)
  StateT.lift (refuseIf (disposition = .answered) .invalidRecord)
  let startedAt ← number .malformed 8
  let writtenBits ← number .malformed 8
  let endedBits ← number .malformed 8
  let attempt : AttemptEvidence := {
    attemptIndex := attemptIndex
    connection := connection
    hopByHopIdentifier := hopByHopIdentifier
    retransmission := 0 < attemptIndex
    disposition := disposition
    startedAt := startedAt * 1000
    writtenAt := stampRead writtenBits
    endedAt := stampRead endedBits
    snapshottedAt := some revision }
  StateT.lift (refuseIf attempt.incoherent .invalidRecord)
  return attempt

/-- The attempts of a restored record, from a position on. -/
def restoreAttempts (revision : NonZero 8) : ℕ → ℕ → SnapshotCursor (List AttemptEvidence)
  | 0, _ => pure []
  | count + 1, attemptIndex => do
    let attempt ← restoreAttempt revision attemptIndex
    let rest ← restoreAttempts revision count (attemptIndex + 1)
    return attempt :: rest

/-- The request a restored record stands for, without its Hop-by-Hop identifier. -/
def restoredRequest (facts : RequestFacts) (rawAvps : List Byte) : OwnedMessage where
  header := {
    version := 1
    length := Fin.ofNat (256 ^ 4) (headerLen + rawAvps.length)
    flags := .request facts.proxiable false
    commandCode := facts.commandCode
    applicationId := facts.applicationId
    hopByHopIdentifier := 0
    endToEndIdentifier := facts.endToEndIdentifier }
  rawAvps := rawAvps

/-- A restored request passes the inspection it passed when it was tracked,
with the facts the snapshot has for it. -/
def checkRestored (config : PendingRequestTableConfig) (facts : RequestFacts)
    (rawAvps : List Byte) : Except SnapshotRestoreError Unit := do
  refuseIf (2 ^ 32 ≤ headerLen + rawAvps.length) .invalidRecord
  let inspected ← (inspectRequest (restoredRequest facts rawAvps) config.maxMessageLen).mapError
    fun _ => .invalidRecord
  refuseIf (inspected ≠ facts) .invalidRecord

def restoreRecord (config : PendingRequestTableConfig) (revision : NonZero 8) :
    SnapshotCursor TransactionRecord := do
  let tokenValue ← nonZero .malformed .invalidRecord 16
  let generation ← number .malformed 8
  StateT.lift (refuseIf (generation ≠ 0) .invalidRecord)
  let endToEndIdentifier ← word .malformed 4
  let commandCode ← word .malformed 4
  StateT.lift (refuseIf (¬ fitsWire commandCode) .invalidRecord)
  let applicationId ← word .malformed 4
  let flags ← number .malformed 1
  StateT.lift (refuseIf (4 ≤ flags) .invalidRecord)
  let attemptCount ← number .malformed 2
  StateT.lift (refuseIf (attemptCount = 0) .invalidRecord)
  StateT.lift (refuseIf (config.maxAttemptsPerTransaction < attemptCount) .limitExceeded)
  let attempts ← restoreAttempts revision attemptCount 0
  let requestLen ← number .malformed 4
  StateT.lift (refuseIf (config.maxMessageLen < requestLen) .limitExceeded)
  let rawAvps ← take .malformed requestLen
  let facts : RequestFacts := {
    commandCode := commandCode
    applicationId := applicationId
    proxiable := flags / 2 % 2 = 1
    endToEndIdentifier := endToEndIdentifier
    fixedDestination := flags % 2 = 1 }
  StateT.lift (checkRestored config facts rawAvps)
  return {
    tokenValue := tokenValue
    generation := generation
    commandCode := facts.commandCode
    applicationId := facts.applicationId
    proxiable := facts.proxiable
    endToEndIdentifier := facts.endToEndIdentifier
    fixedDestination := facts.fixedDestination
    rawAvps := rawAvps
    attempts := attempts
    restoredBaseline := attempts.length
    state := .pending
    completionDeliveryAcknowledged := false
    lateAnswerCount := 0
    rejectedAnswerCount := 0 }

end Decoding

namespace PendingRequestTable

/-- Index one attempt of a restored record; its identifier must be new. -/
def indexRestoredAttempt (token : CompletionTokenValue)
    (attemptIndex : Table AttemptId CompletionTokenValue) (attempt : AttemptEvidence) :
    Except SnapshotRestoreError (Table AttemptId CompletionTokenValue) := do
  refuseIf (attemptIndex.find attempt.attemptId).isSome .invalidRecord
  return attemptIndex.insert attempt.attemptId token

def indexRestoredRecord (table : PendingRequestTable) (record : TransactionRecord) :
    Except SnapshotRestoreError PendingRequestTable := do
  refuseIf ((table.records.find record.tokenValue).isSome ∨
    (table.pendingEndToEnd.find record.endToEndIdentifier).isSome) .invalidRecord
  let attemptIndex ← record.attempts.foldlM (indexRestoredAttempt record.tokenValue)
    table.attemptIndex
  return { table with
    attemptIndex := attemptIndex
    pendingEndToEnd := table.pendingEndToEnd.insert record.endToEndIdentifier record.tokenValue
    records := table.records.insert record.tokenValue record }

/-- Restore and index records one after the other. -/
def restoreRecords (revision : NonZero 8) : ℕ → PendingRequestTable →
    SnapshotCursor PendingRequestTable
  | 0, table => pure table
  | count + 1, table => do
    let record ← restoreRecord table.config revision
    let table ← StateT.lift (table.indexRestoredRecord record)
    restoreRecords revision count { table with pendingCount := table.pendingCount + 1 }

/-- The empty table that a snapshot is restored into. -/
def restoring (config : PendingRequestTableConfig) (checkpoint : SnapshotCheckpoint) :
    PendingRequestTable :=
  { new config checkpoint.epoch with
    snapshotCheckpoint := some checkpoint
    committedSnapshotCheckpoint := some checkpoint }

/-- Read a snapshot under the checkpoint the caller expects. -/
def readSnapshot (expected : SnapshotCheckpoint) (config : PendingRequestTableConfig) :
    SnapshotCursor PendingRequestTable := do
  let magic ← number .malformed 4
  StateT.lift (refuseIf (magic ≠ snapshotMagic) .malformed)
  let version ← number .malformed 2
  StateT.lift (refuseIf (version ≠ snapshotVersion) .unsupportedVersion)
  let epoch ← nonZero .malformed .invalidRecord 16
  StateT.lift (refuseIf (epoch ≠ expected.epoch) .epochMismatch)
  let revision ← nonZero .malformed .invalidRecord 8
  StateT.lift (refuseIf (revision < expected.revision) .stale)
  StateT.lift (refuseIf (expected.revision < revision) .uncommitted)
  let recordCount ← number .malformed 2
  StateT.lift (refuseIf (config.maxPendingTransactions < recordCount) .limitExceeded)
  restoreRecords revision recordCount (restoring config ⟨epoch, revision⟩)

def restore (bytes : List Byte) (expected : SnapshotCheckpoint)
    (config : PendingRequestTableConfig) : Except SnapshotRestoreError PendingRequestTable := do
  refuseIf (config.maxSnapshotBytes < bytes.length) .limitExceeded
  let result ← (readSnapshot expected config).run bytes
  refuseIf (result.2 ≠ []) .malformed
  return result.1

end PendingRequestTable

end PacketCore.Diameter
