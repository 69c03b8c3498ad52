import PacketCore.Diameter.PendingRuns

/-!
# What one operation can do

Every operation ends in one of the outcomes below.  The invariants of the
table are proved by cases on them, so that no later proof opens an operation.
-/

namespace PacketCore.Diameter

/-- The response hands nothing out and tells of no completion. -/
def Response.Silent : Response → Prop
  | .refused _ | .done | .attempt _ | .marked _ | .decided _ => True
  | .correlated (.completed _) => False
  | .correlated _ => True
  | .tracked _ | .dispatched _ | .completed _ | .snapshotted _ => False

namespace PendingRequestTable

variable (table : PendingRequestTable) (now : ℕ)

/-- The table after an operation, and its response. -/
inductive Outcome : Operation → PendingRequestTable → Response → Prop
  | unchanged {operation response} (hsilent : response.Silent) : Outcome operation table response
  | connected {token firstHopByHop} (habsent : table.connections.find token = none)
      (hfree : table.references token = false) :
      Outcome (.addConnection token firstHopByHop)
        { table with connections := table.connections.insert token (.opened firstHopByHop) } .done
  | closed {token} (hknown : (table.connections.find token).isSome = true) :
      Outcome (.closeConnection token)
        (({ table with connections := table.connections.modify token fun entry =>
            { entry with isOpen := false } }).editAttempts (unsent token) (.abandon now)) .done
  | disconnected {token entry} (hentry : table.connections.find token = some entry)
      (hidle : entry.liveAttempts = 0) :
      Outcome (.retireConnection token)
        { table with connections := table.connections.erase token } .done
  | allocated {operation connection entry fault}
      (hentry : table.connections.find connection = some entry) :
      Outcome operation
        { table with connections := table.connections.insert connection entry.advance }
        (.refused fault)
  | tracked {request connection token facts entry}
      (hadmission : table.admitRequest request token = .ok facts)
      (hentry : table.connections.find connection = some entry)
      (hopen : entry.isOpen = true) (hspace : entry.exhausted = false)
      (hfresh : table.attemptIndex.find ⟨connection, entry.nextHopByHop⟩ = none) :
      Outcome (.track request connection token)
        (({ table with connections :=
            table.connections.insert connection entry.advance }).enterRecord
          (trackedRecord facts request.rawAvps token
            (.prepare 0 connection entry.nextHopByHop false now))
          (.prepare 0 connection entry.nextHopByHop false now)) (.tracked ⟨token, 0⟩)
  | dispatched {token committed record index attempt}
      (hselect : table.selectDispatch token committed = .ok (record, index, attempt)) :
      Outcome (.takeAttemptDispatch token committed)
        (table.editRecord token (·.editAttempt index .dispatch))
        (.dispatched ⟨attempt.attemptId, record.wireMessage attempt⟩)
  | stranded {token committed record index attempt fault}
      (hselect : table.selectDispatch token committed = .ok (record, index, attempt))
      (hclosed : table.connectionOpen attempt.connection = false) :
      Outcome (.takeAttemptDispatch token committed)
        (table.editRecord token (·.editAttempt index (.abandon now))) (.refused fault)
  | written {token id record index attempt} (hfind : table.records.find token = some record)
      (hindex : record.findAttempt id = some index)
      (hattempt : record.attempts[index]? = some attempt)
      (hflight : attempt.disposition = .inFlight) :
      Outcome (.recordAttemptWriteSuccess token id)
        (table.editRecord token (·.editAttempt index (.write now))) (.attempt (attempt.write now))
  | failed {token id failure record index attempt} (hfind : table.records.find token = some record)
      (hindex : record.findAttempt id = some index)
      (hattempt : record.attempts[index]? = some attempt)
      (hfailure : failure.compatible attempt.disposition = true) :
      Outcome (.recordAttemptFailure token id failure)
        (table.editRecord token (·.editAttempt index (.fail failure now)))
        (.attempt (attempt.fail failure now))
  | failedAll {connection failure count} :
      Outcome (.failConnectionAttempts connection failure)
        (table.editAttempts (failing connection failure) (.fail failure now)) (.marked count)
  | failedOver {token connection routability record entry}
      (hfind : table.records.find token = some record) (hpending : record.isPending = true)
      (hlimit : record.attempts.length < table.config.maxAttemptsPerTransaction)
      (hentry : table.connections.find connection = some entry)
      (hopen : entry.isOpen = true) (hspace : entry.exhausted = false)
      (hfresh : table.attemptIndex.find ⟨connection, entry.nextHopByHop⟩ = none) :
      Outcome (.failover token connection routability)
        (({ table with connections :=
            table.connections.insert connection entry.advance }).addAttempt token
          (.prepare record.attempts.length connection entry.nextHopByHop true now))
        (.attempt (.prepare record.attempts.length connection entry.nextHopByHop true now))
  | missed {operation id} :
      Outcome operation
        { table with unmatchedAnswers := saturatingAdd table.unmatchedAnswers 1 }
        (.correlated (.unmatched id))
  | rejected {operation token id reason count} :
      Outcome operation (table.editRecord token ({ · with rejectedAnswerCount := count }))
        (.correlated (.rejected id reason count))
  | late {operation token id kind count} :
      Outcome operation (table.editRecord token ({ · with lateAnswerCount := count }))
        (.correlated (.lateAnswer id kind count))
  | answered {connection answer token record index attempt}
      (hfind : table.records.find token = some record) (hpending : record.isPending = true) :
      Outcome (.correlateAnswer connection answer)
        ((table.editRecord token fun record =>
          { record.editAttempt index (.answer now) with generation := 1 }).complete token .answered)
        (.correlated (.completed (.answered ⟨record.tokenValue, 1⟩ answer attempt)))
  | finished {operation token record kind completion}
      (hfind : table.records.find token = some record) (hpending : record.isPending = true)
      (hcompletion : completion.token = ⟨record.tokenValue, 1⟩) :
      Outcome operation
        ((table.editRecord token ({ · with generation := 1 })).complete token kind)
        (.completed completion)
  | removed {operation token record answer} (hfind : table.records.find token = some record) :
      Outcome operation (table.dropRecord token record) (.decided answer)
  | settled {operation token response} (hsilent : response.Silent)
      (hsuppressed : (table.suppressedDeliveries.find token).isSome) :
      Outcome operation (table.dropSuppressed token) response
  | settledRemoved {operation token record answer}
      (hsuppressed : (table.suppressedDeliveries.find token).isSome)
      (hfind : table.records.find token = some record) :
      Outcome operation ((table.dropSuppressed token).dropRecord token record) (.decided answer)
  | suppressed {operation token completion record}
      (habsent : table.suppressedDeliveries.find token = none)
      (hfind : table.records.find token = some record) (hpending : record.isPending = true) :
      Outcome operation (table.suppress token completion) (.decided true)
  | acknowledged {operation token record} (hfind : table.records.find token = some record)
      (hcompleted : record.isPending = false)
      (hopen : record.completionDeliveryAcknowledged = false) :
      Outcome operation
        ({ table with
          records := table.records.modify token ({ · with completionDeliveryAcknowledged := true })
          unacknowledgedCompletionCount :=
            table.unacknowledgedCompletionCount - 1 }).enforceCompletionRetention .done
  | snapshotted {checkpoint : SnapshotCheckpoint} {next : PendingRequestTable}
      {bytes : List Byte} (hsnapshot : table.snapshot checkpoint = .ok (next, bytes)) :
      Outcome (.snapshot checkpoint) next (.snapshotted bytes)
  | confirmed {checkpoint : SnapshotCheckpoint}
      (hemitted : table.uncommittedSnapshotCheckpoint = some checkpoint)
      (hhead : ∀ committed ∈ table.committedSnapshotCheckpoint,
        committed.epoch = checkpoint.epoch ∧ committed.revision ≤ checkpoint.revision) :
      Outcome (.confirmSnapshotCommitted checkpoint)
        { table with
          committedSnapshotCheckpoint := some checkpoint
          uncommittedSnapshotCheckpoint := none } .done
  | abandoned {checkpoint} :
      Outcome (.abandonUncommittedSnapshot checkpoint)
        { table with uncommittedSnapshotCheckpoint := none } .done

section Inversion

variable {answer : Bool} {connection : ConnectionToken}
  {durable : CompletionDeliveryRecord} {next : PendingRequestTable}
  {record : TransactionRecord} {token : CompletionTokenValue} {ε : Type}

variable {table : PendingRequestTable} {now : ℕ} {operation : Operation}

theorem respond_outcome {α : Type} {fault : ε → Fault} {result : Except ε (PendingRequestTable × α)}
    {response : α → Response} (hok : ∀ next value, result = .ok (next, value) →
      Outcome table now operation next (response value)) :
    Outcome table now operation (respond table fault result response).1
      (respond table fault result response).2 := by
  cases hresult : result with
  | error => exact .unchanged trivial
  | ok pair => exact hok pair.1 pair.2 hresult

theorem acknowledge_outcome {fault : ε → Fault} {result : Except ε PendingRequestTable}
    (hok : ∀ next, result = .ok next → Outcome table now operation next .done) :
    Outcome table now operation (acknowledge table fault result).1
      (acknowledge table fault result).2 := by
  cases hresult : result with
  | error => exact .unchanged trivial
  | ok => exact hok _ hresult

/-- What it takes to get the next identifier of a connection. -/
theorem allocateHopByHop_eq_ok {hopByHopIdentifier : Word 4}
    (hok : table.allocateHopByHop connection = .ok (next, hopByHopIdentifier)) :
    ∃ entry, table.connections.find connection = some entry ∧ entry.isOpen = true ∧
      entry.exhausted = false ∧ hopByHopIdentifier = entry.nextHopByHop ∧
      next = { table with connections := table.connections.insert connection entry.advance } := by
  obtain ⟨entry, hentry, hok⟩ := okOr_bind hok
  obtain ⟨_, hopen, hok⟩ := bind_eq_ok hok
  obtain ⟨_, hspace, hok⟩ := bind_eq_ok hok
  cases hok
  exact ⟨entry, hentry, by simpa using hopen, by simpa using hspace, rfl, rfl⟩

theorem addConnection_outcome (token : ConnectionToken) (firstHopByHop : Word 4)
    (next : PendingRequestTable) (hadd : table.addConnection token firstHopByHop = .ok next) :
    Outcome table now (.addConnection token firstHopByHop) next .done := by
  obtain ⟨_, habsent, hadd⟩ := bind_eq_ok hadd
  obtain ⟨_, _, hadd⟩ := bind_eq_ok hadd
  obtain ⟨_, hfree, hadd⟩ := bind_eq_ok hadd
  cases hadd
  exact .connected (by simpa using habsent) (by simpa using hfree)

theorem closeConnection_outcome (token : ConnectionToken) (next : PendingRequestTable)
    (hclose : table.closeConnection now token = .ok next) :
    Outcome table now (.closeConnection token) next .done := by
  obtain ⟨hknown, hclose⟩ := refuseIf_bind hclose
  cases hclose
  exact .closed (by simpa [Option.isSome_iff_ne_none] using hknown)

theorem retireConnection_outcome (token : ConnectionToken) (next : PendingRequestTable)
    (hok : table.retireConnection token = .ok next) :
    Outcome table now (.retireConnection token) next .done := by
  obtain ⟨_, hentry, hok⟩ := okOr_bind hok
  obtain ⟨_, _, hok⟩ := bind_eq_ok hok
  obtain ⟨hidle, hok⟩ := refuseIf_bind hok
  cases hok
  exact .disconnected hentry (by omega)

theorem track_outcome (request : OwnedMessage) (connection : ConnectionToken)
    (token : CompletionTokenValue) :
    Outcome table now (.track request connection token)
      (report .track (table.track now request connection token) .tracked).1
      (report .track (table.track now request connection token) .tracked).2 := by
  unfold track
  cases hadmission : table.admitRequest request token with
  | error => exact .unchanged trivial
  | ok =>
    cases hallocate : table.allocateHopByHop connection with
    | error => exact .unchanged trivial
    | ok allocation =>
      obtain ⟨_, _⟩ := allocation
      obtain ⟨entry, hentry, hopen, hspace, rfl, rfl⟩ := allocateHopByHop_eq_ok hallocate
      dsimp only
      by_cases hused : (table.attemptIndex.find ⟨connection, entry.nextHopByHop⟩).isSome
      · rw [if_pos hused]
        exact .allocated hentry
      · rw [if_neg hused]
        exact .tracked hadmission hentry hopen hspace (by simpa using hused)

theorem takeAttemptDispatch_outcome (token : CompletionTokenValue)
    (committed : SnapshotCheckpoint) :
    Outcome table now (.takeAttemptDispatch token committed)
      (report .access (table.takeAttemptDispatch now token committed) .dispatched).1
      (report .access (table.takeAttemptDispatch now token committed) .dispatched).2 := by
  unfold takeAttemptDispatch
  cases hselect : table.selectDispatch token committed with
  | error => exact .unchanged trivial
  | ok selected =>
    obtain ⟨_, _, attempt⟩ := selected
    dsimp only
    by_cases hopen : table.connectionOpen attempt.connection
    · rw [if_pos hopen]
      exact .dispatched hselect
    · rw [if_neg hopen]
      exact .stranded hselect (by simpa using hopen)

theorem recordAttemptWriteSuccess_outcome (token : CompletionTokenValue)
    (id : AttemptId) (next : PendingRequestTable) (evidence : AttemptEvidence)
    (hok : table.recordAttemptWriteSuccess now token id = .ok (next, evidence)) :
    Outcome table now (.recordAttemptWriteSuccess token id) next (.attempt evidence) := by
  obtain ⟨_, hfind, hok⟩ := okOr_bind hok
  obtain ⟨_, _, hok⟩ := bind_eq_ok hok
  obtain ⟨_, hindex, hok⟩ := okOr_bind hok
  obtain ⟨attempt, hattempt, hok⟩ := okOr_bind hok
  obtain ⟨hflight, hok⟩ := refuseIf_bind hok
  cases hok
  rw [not_not] at hflight
  exact .written hfind hindex hattempt hflight

theorem recordAttemptFailure_outcome (token : CompletionTokenValue) (id : AttemptId)
    (failure : AttemptFailure) (next : PendingRequestTable) (evidence : AttemptEvidence)
    (hok : table.recordAttemptFailure now token id failure = .ok (next, evidence)) :
    Outcome table now (.recordAttemptFailure token id failure) next (.attempt evidence) := by
  obtain ⟨_, hfind, hok⟩ := okOr_bind hok
  obtain ⟨_, hindex, hok⟩ := okOr_bind hok
  obtain ⟨attempt, hattempt, hok⟩ := okOr_bind hok
  obtain ⟨_, _, hok⟩ := bind_eq_ok hok
  obtain ⟨_, hcompatible, hok⟩ := bind_eq_ok hok
  cases hok
  exact .failed hfind hindex hattempt (by simpa using hcompatible)

/-- What `failover` has checked before it takes an identifier. -/
theorem admitFailover_eq_ok {routability : AlternateRoutability}
    (hok : table.admitFailover token routability = .ok record) :
    table.records.find token = some record ∧ record.isPending = true ∧
      record.attempts.length < table.config.maxAttemptsPerTransaction := by
  obtain ⟨_, hfind, hok⟩ := okOr_bind hok
  obtain ⟨hpending, hok⟩ := refuseIf_bind hok
  obtain ⟨hlimit, hok⟩ := refuseIf_bind hok
  obtain ⟨_, _, hok⟩ := bind_eq_ok hok
  cases hok
  exact ⟨hfind, by simpa using hpending, by omega⟩

theorem failover_outcome (token : CompletionTokenValue)
    (connection : ConnectionToken) (routability : AlternateRoutability) :
    Outcome table now (.failover token connection routability)
      (report .failover (table.failover now token connection routability) .attempt).1
      (report .failover (table.failover now token connection routability) .attempt).2 := by
  unfold failover
  cases hadmission : table.admitFailover token routability with
  | error => exact .unchanged trivial
  | ok =>
    obtain ⟨hfind, hpending, hlimit⟩ := admitFailover_eq_ok hadmission
    cases hallocate : table.allocateHopByHop connection with
    | error => exact .unchanged trivial
    | ok allocation =>
      obtain ⟨_, _⟩ := allocation
      obtain ⟨entry, hentry, hopen, hspace, rfl, rfl⟩ := allocateHopByHop_eq_ok hallocate
      dsimp only
      by_cases hused : (table.attemptIndex.find ⟨connection, entry.nextHopByHop⟩).isSome
      · rw [if_pos hused]
        exact .allocated hentry
      · rw [if_neg hused]
        exact .failedOver hfind hpending hlimit hentry hopen hspace (by simpa using hused)

theorem correlateAttempt_outcome {answer : OwnedMessage} {index : ℕ}
    {attempt : AttemptEvidence} (hfind : table.records.find token = some record) :
    Outcome table now (.correlateAnswer connection answer)
      (table.correlateAttempt now token record index attempt answer).1
      (.correlated (table.correlateAttempt now token record index attempt answer).2) := by
  unfold correlateAttempt
  cases table.rejection record attempt answer with
  | some => exact .rejected
  | none =>
    cases hstate : record.state with
    | pending => exact .answered hfind (by simp [TransactionRecord.isPending, hstate])
    | completed => exact .late

theorem correlateAnswer_outcome (connection : ConnectionToken) (answer : OwnedMessage) :
    Outcome table now (.correlateAnswer connection answer)
      (table.correlateAnswer now connection answer).1
      (.correlated (table.correlateAnswer now connection answer).2) := by
  unfold correlateAnswer
  dsimp only
  cases table.attemptIndex.find ⟨connection, answer.header.hopByHopIdentifier⟩ with
  | none => exact .missed
  | some token =>
    dsimp only
    cases hfind : table.records.find token with
    | none => exact .missed
    | some record =>
      dsimp only
      cases record.findAttempt ⟨connection, answer.header.hopByHopIdentifier⟩ with
      | none => exact .missed
      | some index =>
        dsimp only
        cases record.attempts[index]? with
        | none => exact .missed
        | some => exact correlateAttempt_outcome hfind

theorem finish_outcome {kind : CompletionKind} {make : CompletionToken → ℕ → TransactionCompletion}
    (hmake : ∀ completionToken attempts, (make completionToken attempts).token = completionToken)
    (next : PendingRequestTable) (completion : TransactionCompletion)
    (hok : table.finish token kind make = .ok (next, completion)) :
    Outcome table now operation next (.completed completion) := by
  obtain ⟨_, hfind, hok⟩ := okOr_bind hok
  obtain ⟨hpending, hok⟩ := refuseIf_bind hok
  cases hok
  rw [not_not] at hpending
  exact .finished hfind hpending (hmake _ _)

theorem removeRecord_of_find (hfind : table.records.find token = some record) :
    table.removeRecord token = table.dropRecord token record := by
  rw [removeRecord, hfind]

theorem removeRecord_of_absent (hfind : table.records.find token = none) :
    table.removeRecord token = table := by
  rw [removeRecord, hfind]

theorem retire_outcome (token : CompletionTokenValue) :
    Outcome table now (.retire token) (table.retire token).1 (.decided (table.retire token).2) := by
  unfold retire
  cases hfind : table.records.find token with
  | none => exact .unchanged trivial
  | some =>
    dsimp only
    split
    · exact .unchanged trivial
    · rw [removeRecord_of_find hfind]
      exact .removed hfind

theorem settleDelivery_outcome (hsettle : table.settleDelivery durable = .ok (next, answer)) :
    Outcome table now operation next (.decided answer) := by
  unfold settleDelivery at hsettle
  dsimp only at hsettle
  split at hsettle
  · cases hsettle
    cases hfind : table.records.find durable.token with
    | none =>
      rw [removeRecord_of_absent hfind]
      exact .unchanged trivial
    | some =>
      rw [removeRecord_of_find hfind]
      exact .removed hfind
  · next hsuppressed =>
    have hheld := Option.isSome_of_eq_some hsuppressed
    split at hsettle
    · cases hsettle
      cases hfind : (table.dropSuppressed durable.token).records.find durable.token with
      | none =>
        rw [removeRecord_of_absent hfind]
        exact .settled trivial hheld
      | some =>
        rw [removeRecord_of_find hfind]
        exact .settledRemoved hheld hfind
    · cases hsettle

theorem holdDelivery_outcome (hhold : table.holdDelivery durable = .ok (next, answer)) :
    Outcome table now operation next (.decided answer) := by
  unfold holdDelivery at hhold
  split at hhold
  · split at hhold
    · cases hhold
      exact .unchanged trivial
    · cases hhold
  · next hsuppressed =>
    split at hhold
    · cases hhold
      exact .unchanged trivial
    · next hfind =>
      split at hhold
      · next hpending =>
        cases hhold
        exact .suppressed hsuppressed hfind hpending
      · split at hhold
        · cases hhold
          exact .unchanged trivial
        · cases hhold

theorem reconcileCompletionDelivery_outcome (durable : CompletionDeliveryRecord)
    (next : PendingRequestTable) (answer : Bool)
    (hreconcile : table.reconcileCompletionDelivery durable = .ok (next, answer)) :
    Outcome table now operation next (.decided answer) := by
  obtain ⟨_, _, hreconcile⟩ := bind_eq_ok hreconcile
  split at hreconcile
  · exact settleDelivery_outcome hreconcile
  · exact holdDelivery_outcome hreconcile

theorem acknowledgeRecord_outcome {acknowledged : CompletionDeliveryRecord}
    (hok : table.acknowledgeRecord acknowledged = .ok next) :
    Outcome table now operation next .done := by
  obtain ⟨_, hfind, hok⟩ := okOr_bind hok
  obtain ⟨_, hcompleted, hok⟩ := bind_eq_ok hok
  obtain ⟨_, _, hok⟩ := bind_eq_ok hok
  split at hok
  · cases hok
    exact .unchanged trivial
  · next hopen =>
    cases hok
    exact .acknowledged hfind (by simpa using hcompleted) (by simpa using hopen)

theorem acknowledgeCompletionDelivery_outcome
    (acknowledged : CompletionDeliveryRecord) (next : PendingRequestTable)
    (hacknowledge : table.acknowledgeCompletionDelivery acknowledged = .ok next) :
    Outcome table now operation next .done := by
  iterate 2 obtain ⟨_, _, hacknowledge⟩ := bind_eq_ok hacknowledge
  split at hacknowledge
  · next hsuppressed =>
    split at hacknowledge
    · cases hacknowledge
      exact .settled trivial (Option.isSome_of_eq_some hsuppressed)
    · cases hacknowledge
  · exact acknowledgeRecord_outcome hacknowledge

theorem confirmSnapshotCommitted_outcome (checkpoint : SnapshotCheckpoint)
    (next : PendingRequestTable) (hok : table.confirmSnapshotCommitted checkpoint = .ok next) :
    Outcome table now (.confirmSnapshotCommitted checkpoint) next .done := by
  unfold confirmSnapshotCommitted at hok
  split at hok
  · cases hok
    exact .unchanged trivial
  · obtain ⟨_, hemitted, hok⟩ := okOr_bind hok
    obtain ⟨hsame, hok⟩ := refuseIf_bind hok
    obtain ⟨hhead, hok⟩ := refuseIf_bind hok
    cases hok
    rw [not_not] at hsame
    subst hsame
    apply Outcome.confirmed hemitted
    intro committed hcommitted
    by_contra hbad
    apply hhead
    refine ⟨committed, hcommitted, ?_⟩
    rw [not_and_or, not_le] at hbad
    exact hbad

theorem abandonUncommittedSnapshot_outcome (checkpoint : SnapshotCheckpoint)
    (next : PendingRequestTable)
    (habandon : table.abandonUncommittedSnapshot checkpoint = .ok next) :
    Outcome table now (.abandonUncommittedSnapshot checkpoint) next .done := by
  iterate 2 obtain ⟨_, _, habandon⟩ := bind_eq_ok habandon
  cases habandon
  exact .abandoned

theorem perform_outcome (table : PendingRequestTable) (now : ℕ) (operation : Operation) :
    Outcome table now operation (table.perform now operation).1
      (table.perform now operation).2 := by
  cases operation with
  | addConnection => exact acknowledge_outcome (addConnection_outcome _ _)
  | closeConnection => exact acknowledge_outcome (closeConnection_outcome _)
  | retireConnection => exact acknowledge_outcome (retireConnection_outcome _)
  | track => exact track_outcome _ _ _
  | reconcileCompletionDelivery =>
    exact respond_outcome (reconcileCompletionDelivery_outcome _)
  | reconcileAcknowledged =>
    apply respond_outcome
    intro _ answer hreconcile
    obtain ⟨_, _, hreconcile⟩ := bind_eq_ok hreconcile
    exact reconcileCompletionDelivery_outcome _ _ _ hreconcile
  | acknowledgeCompletionDelivery =>
    exact acknowledge_outcome (acknowledgeCompletionDelivery_outcome _)
  | takeAttemptDispatch => exact takeAttemptDispatch_outcome _ _
  | recordAttemptWriteSuccess _ id =>
    exact respond_outcome (recordAttemptWriteSuccess_outcome _ id)
  | recordAttemptFailure _ id =>
    exact respond_outcome (recordAttemptFailure_outcome _ id _)
  | failConnectionAttempts => exact .failedAll
  | failover => exact failover_outcome _ _ _
  | correlateAnswer => exact correlateAnswer_outcome _ _
  | finishUndeliverable | finishExhausted | finishIndeterminate =>
    exact respond_outcome (finish_outcome fun _ _ => rfl)
  | retire => exact retire_outcome _
  | snapshot => exact respond_outcome fun _ _ hsnapshot => .snapshotted hsnapshot
  | confirmSnapshotCommitted =>
    exact acknowledge_outcome (confirmSnapshotCommitted_outcome _)
  | abandonUncommittedSnapshot =>
    exact acknowledge_outcome (abandonUncommittedSnapshot_outcome _)

end Inversion

end PendingRequestTable

end PacketCore.Diameter
