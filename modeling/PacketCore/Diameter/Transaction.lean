import PacketCore.Diameter.Message

/-!
# Diameter client transactions

A record keeps one request and the attempts made to send it.  An attempt is
named by its connection and its Hop-by-Hop identifier, moves through the
dispositions of one transmission, and carries readings of the monotonic clock,
in nanoseconds.  The errors and results of the pending-request table stand at
the end.
-/

namespace PacketCore.Diameter

abbrev CompletionTokenValue := NonZero 16

/-- A caller-allocated identity of one connection lifetime. -/
abbrev ConnectionToken := NonZero 8

structure SnapshotCheckpoint where
  epoch : NonZero 16
  revision : NonZero 8
deriving DecidableEq

structure CompletionToken where
  value : CompletionTokenValue
  generation : ℕ
deriving DecidableEq

structure AttemptId where
  connection : ConnectionToken
  hopByHopIdentifier : Word 4
deriving DecidableEq

inductive AttemptDisposition
  | prepared
  | inFlight
  | writtenAwaitingAnswer
  | failedBeforeWrite
  | failedUncertainWrite
  | transportLostAfterWrite
  | answered
deriving DecidableEq

def AttemptDisposition.canReceiveAnswer (disposition : AttemptDisposition) : Bool :=
  disposition ≠ .prepared ∧ disposition ≠ .failedBeforeWrite

inductive AttemptFailure
  | beforeWrite
  | uncertainWrite
  | transportLostAfterWrite
deriving DecidableEq

namespace AttemptFailure

def disposition : AttemptFailure → AttemptDisposition
  | .beforeWrite => .failedBeforeWrite
  | .uncertainWrite => .failedUncertainWrite
  | .transportLostAfterWrite => .transportLostAfterWrite

/-- The failure can end an attempt with this disposition. -/
def compatible (failure : AttemptFailure) : AttemptDisposition → Bool
  | .inFlight => true
  | .prepared => failure = .beforeWrite
  | .writtenAwaitingAnswer => failure = .transportLostAfterWrite
  | _ => false

end AttemptFailure

/-- Evidence of one transmission attempt. -/
structure AttemptEvidence where
  attemptIndex : ℕ
  connection : ConnectionToken
  hopByHopIdentifier : Word 4
  retransmission : Bool
  disposition : AttemptDisposition
  startedAt : ℕ
  writtenAt : Option ℕ
  endedAt : Option ℕ
  snapshottedAt : Option (NonZero 8)
deriving DecidableEq

namespace AttemptEvidence

def attemptId (attempt : AttemptEvidence) : AttemptId :=
  ⟨attempt.connection, attempt.hopByHopIdentifier⟩

/-- A new attempt, not yet handed out. -/
def prepare (attemptIndex : ℕ) (connection : ConnectionToken) (hopByHopIdentifier : Word 4)
    (retransmission : Bool) (now : ℕ) : AttemptEvidence where
  attemptIndex := attemptIndex
  connection := connection
  hopByHopIdentifier := hopByHopIdentifier
  retransmission := retransmission
  disposition := .prepared
  startedAt := now
  writtenAt := none
  endedAt := none
  snapshottedAt := none

/-- The connection went away before the attempt was handed out. -/
def abandon (now : ℕ) (attempt : AttemptEvidence) : AttemptEvidence :=
  { attempt with disposition := .failedBeforeWrite, endedAt := some now }

def dispatch (attempt : AttemptEvidence) : AttemptEvidence :=
  { attempt with disposition := .inFlight }

def write (now : ℕ) (attempt : AttemptEvidence) : AttemptEvidence :=
  { attempt with disposition := .writtenAwaitingAnswer, writtenAt := some now }

def fail (failure : AttemptFailure) (now : ℕ) (attempt : AttemptEvidence) : AttemptEvidence :=
  { attempt with
    writtenAt := if failure = .transportLostAfterWrite then attempt.writtenAt.or (some now)
      else attempt.writtenAt
    disposition := failure.disposition
    endedAt := some now }

def answer (now : ℕ) (attempt : AttemptEvidence) : AttemptEvidence :=
  { attempt with
    writtenAt := attempt.writtenAt.or (some now)
    disposition := .answered
    endedAt := some now }

/-- Remember the first snapshot that holds the attempt. -/
def snapshot (revision : NonZero 8) (attempt : AttemptEvidence) : AttemptEvidence :=
  { attempt with snapshottedAt := attempt.snapshottedAt.or (some revision) }

end AttemptEvidence

inductive CompletionKind
  | answered
  | undeliverable
  | exhausted
  | indeterminate
deriving DecidableEq

inductive RecordState
  | pending
  | completed (kind : CompletionKind) (sequence : ℕ)
deriving DecidableEq

/-- One tracked request. -/
structure TransactionRecord where
  tokenValue : CompletionTokenValue
  generation : ℕ
  commandCode : Word 4
  applicationId : Word 4
  proxiable : Bool
  endToEndIdentifier : Word 4
  fixedDestination : Bool
  rawAvps : List Byte
  attempts : List AttemptEvidence
  restoredBaseline : ℕ
  state : RecordState
  completionDeliveryAcknowledged : Bool
  lateAnswerCount : ℕ
  rejectedAnswerCount : ℕ

namespace TransactionRecord

variable (record : TransactionRecord)

def isPending : Bool := record.state = .pending

def completionToken : CompletionToken :=
  ⟨record.tokenValue, record.generation⟩

def facts : RequestFacts where
  commandCode := record.commandCode
  applicationId := record.applicationId
  proxiable := record.proxiable
  endToEndIdentifier := record.endToEndIdentifier
  fixedDestination := record.fixedDestination

/-- The request as it goes out on one attempt: only the T bit and the
Hop-by-Hop identifier depend on the attempt. -/
def wireMessage (attempt : AttemptEvidence) : OwnedMessage where
  header := {
    version := 1
    length := Fin.ofNat (256 ^ 4) (headerLen + record.rawAvps.length)
    flags := .request record.proxiable attempt.retransmission
    commandCode := record.commandCode
    applicationId := record.applicationId
    hopByHopIdentifier := attempt.hopByHopIdentifier
    endToEndIdentifier := record.endToEndIdentifier }
  rawAvps := record.rawAvps

/-- The record after its completion. -/
def settle (kind : CompletionKind) (sequence : ℕ) (record : TransactionRecord) :
    TransactionRecord :=
  { record with state := .completed kind sequence }

/-- The record with one more attempt. -/
def push (attempt : AttemptEvidence) (record : TransactionRecord) : TransactionRecord :=
  { record with attempts := record.attempts ++ [attempt] }

/-- Edit the attempt at one position. -/
def editAttempt (index : ℕ) (edit : AttemptEvidence → AttemptEvidence) : TransactionRecord :=
  { record with attempts := record.attempts.modify index edit }

/-- Edit every attempt that a test selects. -/
def editAttempts (test : AttemptEvidence → Bool) (edit : AttemptEvidence → AttemptEvidence) :
    TransactionRecord :=
  { record with
    attempts := record.attempts.map fun attempt => if test attempt then edit attempt else attempt }

def findAttempt (id : AttemptId) : Option ℕ :=
  record.attempts.findIdx? (·.attemptId = id)

/-- The last attempt of this process life that was not handed out yet. -/
def nextDispatch : Option ℕ :=
  (record.attempts.reverse.findIdx? fun attempt =>
    attempt.disposition = .prepared ∧ record.restoredBaseline ≤ attempt.attemptIndex).map
      fun position => record.attempts.length - 1 - position

end TransactionRecord

structure ConnectionEntry where
  nextHopByHop : Word 4
  exhausted : Bool
  isOpen : Bool
  liveAttempts : ℕ

/-- The entry of a new connection lifetime. -/
def ConnectionEntry.opened (firstHopByHop : Word 4) : ConnectionEntry where
  nextHopByHop := firstHopByHop
  exhausted := false
  isOpen := true
  liveAttempts := 0

/-- The entry after its next identifier has been taken; the last one exhausts it. -/
def ConnectionEntry.advance (entry : ConnectionEntry) : ConnectionEntry :=
  if entry.nextHopByHop.val = 2 ^ 32 - 1 then { entry with exhausted := true }
  else { entry with nextHopByHop := entry.nextHopByHop + 1 }

/-- The bounds of a table, all within what a snapshot can count. -/
structure PendingRequestTableConfig where
  maxPendingTransactions : ℕ
  maxRetainedCompletions : ℕ
  maxAttemptsPerTransaction : ℕ
  maxConnections : ℕ
  maxMessageLen : ℕ
  maxSnapshotBytes : ℕ
  pendingBound : 0 < maxPendingTransactions ∧ maxPendingTransactions < 2 ^ 16
  completionBound : 0 < maxRetainedCompletions ∧ maxRetainedCompletions < 2 ^ 16
  attemptBound : 0 < maxAttemptsPerTransaction ∧ maxAttemptsPerTransaction < 2 ^ 16
  connectionBound : 0 < maxConnections ∧ maxConnections < 2 ^ 16
  messageBound : headerLen ≤ maxMessageLen ∧ maxMessageLen ≤ maxU24
  snapshotBound : 32 ≤ maxSnapshotBytes ∧ maxSnapshotBytes ≤ 2 ^ 30

inductive ConnectionTableError
  | tableFull
  | duplicateConnection
  | unknownConnection
  | connectionStillOpen
  | connectionInUse

inductive FailoverError
  | unknownTransaction
  | notPending
  | attemptLimitReached
  | unknownConnection
  | connectionClosed
  | hopByHopSpaceExhausted
  | fixedDestinationRequiresAssertion
  | attemptIdentifierConflict

inductive TransactionAccessError
  | unknownTransaction
  | notPending
  | unknownAttempt
  | attemptNotInFlight
  | invalidAttemptTransition
  | noLiveAttempt
  | snapshotProofMismatch
  | attemptNotDurablySnapshotted
  | connectionNotOpen

inductive SnapshotCommitError
  | noEmittedSnapshot
  | checkpointMismatch
  | committedHeadRegression

inductive CompletionDeliveryError
  | notAcknowledged
  | epochMismatch
  | unknownCompletion
  | completionStillPending

inductive HopByHopAllocateError
  | unknownConnection
  | connectionClosed
  | exhausted

def HopByHopAllocateError.toTrackError : HopByHopAllocateError → TrackError
  | .unknownConnection => .unknownConnection
  | .connectionClosed => .connectionClosed
  | .exhausted => .hopByHopSpaceExhausted

def HopByHopAllocateError.toFailoverError : HopByHopAllocateError → FailoverError
  | .unknownConnection => .unknownConnection
  | .connectionClosed => .connectionClosed
  | .exhausted => .hopByHopSpaceExhausted

/-- Whether the caller vouches for an alternate of a fixed destination. -/
inductive AlternateRoutability
  | realmRouted
  | destinationAsserted
deriving DecidableEq

inductive CompletionDeliveryState
  | ready
  | claimed
  | acknowledged
deriving DecidableEq

/-- The durable delivery record of one completion; its generation is one. -/
structure CompletionDeliveryRecord where
  epoch : NonZero 16
  token : CompletionTokenValue
  state : CompletionDeliveryState

def CompletionDeliveryRecord.completion (durable : CompletionDeliveryRecord) : CompletionToken :=
  ⟨durable.token, 1⟩

structure AttemptDispatch where
  attempt : AttemptId
  message : OwnedMessage

inductive UndeliverableReason
  | fixedDestinationNoAlternate
  | noAlternateRoutable

inductive IndeterminateReason
  | uncertainWriteDisposition
  | callerWithdrawn

inductive TransactionCompletion
  | answered (token : CompletionToken) (answer : OwnedMessage) (attempt : AttemptEvidence)
  | undeliverable (token : CompletionToken) (reason : UndeliverableReason) (attempts : ℕ)
  | exhausted (token : CompletionToken) (attempts : ℕ)
  | indeterminate (token : CompletionToken) (reason : IndeterminateReason) (attempts : ℕ)

def TransactionCompletion.token : TransactionCompletion → CompletionToken
  | .answered token _ _ => token
  | .undeliverable token _ _ => token
  | .exhausted token _ => token
  | .indeterminate token _ _ => token

inductive AnswerDisposition
  | completed (completion : TransactionCompletion)
  | lateAnswer (attempt : AttemptId) (completion : CompletionKind) (lateAnswerCount : ℕ)
  | rejected (attempt : AttemptId) (reason : AnswerRejectionReason) (rejectedAnswerCount : ℕ)
  | unmatched (attempt : AttemptId)

end PacketCore.Diameter
