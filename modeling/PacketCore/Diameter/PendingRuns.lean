import PacketCore.Diameter.PendingSnapshot

/-!
# Operations and runs of the pending-request table

One operation of a caller, its response, and the runs that a sequence of
operations makes.  A table starts empty, or restored from the bytes of an
accepted snapshot.
-/

namespace PacketCore.Diameter

inductive Operation
  | addConnection (token : ConnectionToken) (firstHopByHop : Word 4)
  | closeConnection (token : ConnectionToken)
  | retireConnection (token : ConnectionToken)
  | track (request : OwnedMessage) (connection : ConnectionToken)
      (tokenValue : CompletionTokenValue)
  | reconcileCompletionDelivery (durable : CompletionDeliveryRecord)
  | reconcileAcknowledged (acknowledged : CompletionDeliveryRecord)
  | acknowledgeCompletionDelivery (acknowledged : CompletionDeliveryRecord)
  | takeAttemptDispatch (token : CompletionTokenValue) (committed : SnapshotCheckpoint)
  | recordAttemptWriteSuccess (token : CompletionTokenValue) (id : AttemptId)
  | recordAttemptFailure (token : CompletionTokenValue) (id : AttemptId) (failure : AttemptFailure)
  | failConnectionAttempts (connection : ConnectionToken) (failure : AttemptFailure)
  | failover (token : CompletionTokenValue) (connection : ConnectionToken)
      (routability : AlternateRoutability)
  | correlateAnswer (connection : ConnectionToken) (answer : OwnedMessage)
  | finishUndeliverable (token : CompletionTokenValue) (reason : UndeliverableReason)
  | finishExhausted (token : CompletionTokenValue)
  | finishIndeterminate (token : CompletionTokenValue) (reason : IndeterminateReason)
  | retire (token : CompletionTokenValue)
  | snapshot (checkpoint : SnapshotCheckpoint)
  | confirmSnapshotCommitted (checkpoint : SnapshotCheckpoint)
  | abandonUncommittedSnapshot (checkpoint : SnapshotCheckpoint)

inductive Fault
  | connection (fault : ConnectionTableError)
  | track (fault : TrackError)
  | delivery (fault : CompletionDeliveryError)
  | access (fault : TransactionAccessError)
  | failover (fault : FailoverError)
  | create (fault : SnapshotCreateError)
  | commit (fault : SnapshotCommitError)

inductive Response
  | refused (fault : Fault)
  | done
  | tracked (token : CompletionToken)
  | dispatched (dispatch : AttemptDispatch)
  | attempt (evidence : AttemptEvidence)
  | marked (count : ℕ)
  | correlated (disposition : AnswerDisposition)
  | completed (completion : TransactionCompletion)
  | decided (answer : Bool)
  | snapshotted (bytes : List Byte)

/-- The response of an operation that leaves the table alone when it fails. -/
def respond {ε α : Type} (table : PendingRequestTable) (fault : ε → Fault)
    (result : Except ε (PendingRequestTable × α)) (response : α → Response) :
    PendingRequestTable × Response :=
  match result with
  | .error error => (table, .refused (fault error))
  | .ok (next, value) => (next, response value)

/-- The same for an operation with nothing to report. -/
def acknowledge {ε : Type} (table : PendingRequestTable) (fault : ε → Fault)
    (result : Except ε PendingRequestTable) : PendingRequestTable × Response :=
  match result with
  | .error error => (table, .refused (fault error))
  | .ok next => (next, .done)

/-- The response of an operation whose failures have effects. -/
def report {ε α : Type} (fault : ε → Fault) (result : PendingRequestTable × Except ε α)
    (response : α → Response) : PendingRequestTable × Response :=
  match result with
  | (next, .error error) => (next, .refused (fault error))
  | (next, .ok value) => (next, response value)

namespace PendingRequestTable

variable (table : PendingRequestTable)

/-- One operation at one reading of the clock. -/
def perform (now : ℕ) : Operation → PendingRequestTable × Response
  | .addConnection token first => acknowledge table .connection (table.addConnection token first)
  | .closeConnection token => acknowledge table .connection (table.closeConnection now token)
  | .retireConnection token => acknowledge table .connection (table.retireConnection token)
  | .track request connection token =>
    report .track (table.track now request connection token) .tracked
  | .reconcileCompletionDelivery durable =>
    respond table .delivery (table.reconcileCompletionDelivery durable) .decided
  | .reconcileAcknowledged acknowledged =>
    respond table .delivery (table.reconcileAcknowledged acknowledged) .decided
  | .acknowledgeCompletionDelivery acknowledged =>
    acknowledge table .delivery (table.acknowledgeCompletionDelivery acknowledged)
  | .takeAttemptDispatch token committed =>
    report .access (table.takeAttemptDispatch now token committed) .dispatched
  | .recordAttemptWriteSuccess token id =>
    respond table .access (table.recordAttemptWriteSuccess now token id) .attempt
  | .recordAttemptFailure token id failure =>
    respond table .access (table.recordAttemptFailure now token id failure) .attempt
  | .failConnectionAttempts connection failure =>
    ((table.failConnectionAttempts now connection failure).1,
      .marked (table.failConnectionAttempts now connection failure).2)
  | .failover token connection routability =>
    report .failover (table.failover now token connection routability) .attempt
  | .correlateAnswer connection answer =>
    ((table.correlateAnswer now connection answer).1,
      .correlated (table.correlateAnswer now connection answer).2)
  | .finishUndeliverable token reason =>
    respond table .access (table.finishUndeliverable token reason) .completed
  | .finishExhausted token => respond table .access (table.finishExhausted token) .completed
  | .finishIndeterminate token reason =>
    respond table .access (table.finishIndeterminate token reason) .completed
  | .retire token => ((table.retire token).1, .decided (table.retire token).2)
  | .snapshot checkpoint => respond table .create (table.snapshot checkpoint) .snapshotted
  | .confirmSnapshotCommitted checkpoint =>
    acknowledge table .commit (table.confirmSnapshotCommitted checkpoint)
  | .abandonUncommittedSnapshot checkpoint =>
    acknowledge table .commit (table.abandonUncommittedSnapshot checkpoint)

/-- Operations one after the other, each at its own reading of the clock. -/
def run (operations : List (ℕ × Operation)) : PendingRequestTable :=
  operations.foldl (fun table operation => (table.perform operation.1 operation.2).1) table

/-- A table at the start of a process: empty, or restored from a snapshot. -/
inductive Starts : PendingRequestTable → Prop
  | new (config : PendingRequestTableConfig) (epoch : NonZero 16) : Starts (new config epoch)
  | restored {bytes expected config} {table : PendingRequestTable}
      (hrestore : restore bytes expected config = .ok table) : Starts table

/-- Every operation of a run meets a condition on the table before it. -/
def Meets (condition : PendingRequestTable → ℕ → Operation → Prop) :
    PendingRequestTable → List (ℕ × Operation) → Prop
  | _, [] => True
  | table, operation :: rest =>
    condition table operation.1 operation.2 ∧
      Meets condition (table.perform operation.1 operation.2).1 rest

instance decidableMeets (condition : PendingRequestTable → ℕ → Operation → Prop)
    [∀ table now operation, Decidable (condition table now operation)] :
    (table : PendingRequestTable) → (operations : List (ℕ × Operation)) →
      Decidable (Meets condition table operations)
  | _, [] => .isTrue trivial
  | table, operation :: rest =>
    have : Decidable (Meets condition (table.perform operation.1 operation.2).1 rest) :=
      decidableMeets condition _ rest
    inferInstanceAs (Decidable (_ ∧ _))

/-- What every operation that meets the condition preserves, a run preserves. -/
theorem Meets.invariant {condition : PendingRequestTable → ℕ → Operation → Prop}
    {Inv : PendingRequestTable → Prop}
    (hstep : ∀ table now operation, Inv table → condition table now operation →
      Inv (table.perform now operation).1)
    {table : PendingRequestTable} {operations : List (ℕ × Operation)} (hstart : Inv table)
    (hmeets : Meets condition table operations) : Inv (table.run operations) := by
  induction operations generalizing table with
  | nil => exact hstart
  | cons operation _ ih =>
    exact ih (hstep _ operation.1 operation.2 hstart hmeets.1) hmeets.2

end PendingRequestTable

end PacketCore.Diameter
