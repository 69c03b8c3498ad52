import PacketCore.Diameter.PendingRestore

/-!
# Reading a snapshot back

On the bytes of a snapshot, `restore` comes to the outcome of rechecking the
records the snapshot was made of.  When the records pass, the restored table
holds them again, with readings cut to whole microseconds.
-/

namespace PacketCore.Diameter

open Yields List

variable {revision : NonZero 8} {record : TransactionRecord}

section Attempts

theorem fromSnapshotCode_asSnapshotCode (disposition : AttemptDisposition) :
    AttemptDisposition.fromSnapshotCode disposition.asSnapshotCode = .ok disposition := by
  cases disposition <;> rfl

/-- An attempt as it comes back from a snapshot. -/
def AttemptEvidence.restored (revision : NonZero 8) (attemptIndex : ℕ)
    (attempt : AttemptEvidence) : AttemptEvidence where
  attemptIndex := attemptIndex
  connection := attempt.connection
  hopByHopIdentifier := attempt.hopByHopIdentifier
  retransmission := 0 < attemptIndex
  disposition := attempt.disposition
  startedAt := microsOf attempt.startedAt * 1000
  writtenAt := stampRead (stampOf attempt.writtenAt)
  endedAt := stampRead (stampOf attempt.endedAt)
  snapshottedAt := some revision

/-- The checks of one restored attempt. -/
def recheckAttempt (revision : NonZero 8) (attemptIndex : ℕ)
    (attempt : AttemptEvidence) : Except SnapshotRestoreError AttemptEvidence := do
  refuseIf (attempt.disposition = .answered) .invalidRecord
  refuseIf (attempt.restored revision attemptIndex).incoherent .invalidRecord
  return attempt.restored revision attemptIndex

theorem microsOf_lt (reading : ℕ) : microsOf reading < 256 ^ 8 := by
  unfold microsOf
  omega

theorem stampOf_lt (reading : Option ℕ) : stampOf reading < 256 ^ 8 := by
  cases reading with
  | none =>
    unfold stampOf microsSentinelNone
    simp
  | some => exact microsOf_lt _

theorem restoreAttempt_yields (revision : NonZero 8) (attemptIndex : ℕ)
    (attempt : AttemptEvidence) :
    Yields (restoreAttempt revision attemptIndex) (attemptBytes attempt)
      (recheckAttempt revision attemptIndex attempt) := by
  refine field (Reads.nonZero _) (field (Reads.word _) ?_)
  refine field (Reads.number (by cases attempt.disposition <;> decide)) ?_
  refine pass (fromSnapshotCode_asSnapshotCode _) ?_
  apply Yields.guard
  intro _ _
  refine field (Reads.number (microsOf_lt _)) (field (Reads.number (stampOf_lt _)) ?_)
  refine final (Reads.number (stampOf_lt _)) ?_
  apply Yields.guard
  intro _ _
  exact pure _

/-- The checks of the attempts of one restored record. -/
def recheckAttempts (revision : NonZero 8) :
    ℕ → List AttemptEvidence → Except SnapshotRestoreError (List AttemptEvidence)
  | _, [] => .ok []
  | first, attempt :: rest => do
    let restored ← recheckAttempt revision first attempt
    let others ← recheckAttempts revision (first + 1) rest
    return restored :: others

theorem restoreAttempts_yields (revision : NonZero 8) (first : ℕ)
    (attempts : List AttemptEvidence) :
    Yields (restoreAttempts revision attempts.length first)
      (attempts.flatMap attemptBytes) (recheckAttempts revision first attempts) := by
  induction attempts generalizing first with
  | nil => exact pure _
  | cons _ _ ih =>
    apply bind (restoreAttempt_yields _ _ _)
    intro _ _
    exact (ih _).last

/-- The attempts of a record as they come back from a snapshot. -/
def restoredAttempts (revision : NonZero 8) (first : ℕ) :
    List AttemptEvidence → List AttemptEvidence
  | [] => []
  | attempt :: rest =>
    attempt.restored revision first :: restoredAttempts revision (first + 1) rest

theorem recheckAttempts_eq_ok {first : ℕ} {attempts result : List AttemptEvidence} :
    recheckAttempts revision first attempts = .ok result ↔
      result = restoredAttempts revision first attempts ∧
        (∀ attempt ∈ attempts, attempt.disposition ≠ .answered) ∧
        ∀ attempt ∈ restoredAttempts revision first attempts, ¬ attempt.incoherent := by
  induction attempts generalizing first result with
  | nil => simp [recheckAttempts, restoredAttempts, eq_comm]
  | cons _ _ ih =>
    simp only [recheckAttempts, recheckAttempt, restoredAttempts, bind_eq_ok_iff,
      pure_eq_ok, refuseIf_eq_ok, ih, Except.ok.injEq, forall_mem_cons]
    constructor
    · rintro ⟨_, ⟨_, hanswered, _, hcoherent, rfl⟩, _, ⟨rfl, hall, hcoherents⟩, rfl⟩
      exact ⟨rfl, ⟨hanswered, hall⟩, hcoherent, hcoherents⟩
    · rintro ⟨rfl, ⟨hanswered, hall⟩, hcoherent, hcoherents⟩
      exact ⟨_, ⟨(), hanswered, (), hcoherent, rfl⟩, _, ⟨rfl, hall, hcoherents⟩, rfl⟩

@[simp]
theorem length_restoredAttempts (revision : NonZero 8) (first : ℕ)
    (attempts : List AttemptEvidence) :
    (restoredAttempts revision first attempts).length = attempts.length := by
  induction attempts generalizing first with
  | nil => rfl
  | cons _ _ ih => simp [restoredAttempts, ih]

theorem getElem?_restoredAttempts (revision : NonZero 8) (first index : ℕ)
    (attempts : List AttemptEvidence) :
    (restoredAttempts revision first attempts)[index]? =
      attempts[index]?.map (·.restored revision (first + index)) := by
  induction attempts generalizing first index with
  | nil => rfl
  | cons _ _ ih =>
    cases index with
    | zero => rfl
    | succ index =>
      simp only [restoredAttempts, getElem?_cons_succ, ih]
      rw [show first + 1 + index = first + (index + 1) by omega]

theorem map_attemptId_restoredAttempts (revision : NonZero 8) (first : ℕ)
    (attempts : List AttemptEvidence) :
    (restoredAttempts revision first attempts).map (·.attemptId) = attempts.map (·.attemptId) := by
  induction attempts generalizing first with
  | nil => rfl
  | cons _ _ ih =>
    simp only [restoredAttempts, map_cons, ih]
    rfl

end Attempts

section Records

/-- A pending record as it comes back from a snapshot. -/
def TransactionRecord.restored (revision : NonZero 8)
    (record : TransactionRecord) : TransactionRecord where
  tokenValue := record.tokenValue
  generation := record.generation
  commandCode := record.commandCode
  applicationId := record.applicationId
  proxiable := record.proxiable
  endToEndIdentifier := record.endToEndIdentifier
  fixedDestination := record.fixedDestination
  rawAvps := record.rawAvps
  attempts := restoredAttempts revision 0 record.attempts
  restoredBaseline := record.attempts.length
  state := .pending
  completionDeliveryAcknowledged := false
  lateAnswerCount := 0
  rejectedAnswerCount := 0

/-- The checks of one restored record. -/
def recheckRecord (config : PendingRequestTableConfig) (revision : NonZero 8)
    (record : TransactionRecord) : Except SnapshotRestoreError TransactionRecord := do
  refuseIf (record.generation ≠ 0) .invalidRecord
  refuseIf (¬ fitsWire record.commandCode) .invalidRecord
  refuseIf (record.attempts.length = 0) .invalidRecord
  refuseIf (config.maxAttemptsPerTransaction < record.attempts.length) .limitExceeded
  let _ ← recheckAttempts revision 0 record.attempts
  refuseIf (config.maxMessageLen < record.rawAvps.length) .limitExceeded
  checkRestored config record.facts record.rawAvps
  return record.restored revision

/-- The widths of the fields that a snapshot writes for a record. -/
structure TransactionRecord.Fits (record : TransactionRecord) : Prop where
  generation : record.generation < 256 ^ 8
  attempts : record.attempts.length < 256 ^ 2
  rawAvps : record.rawAvps.length < 256 ^ 4

theorem recordFlags_lt (record : TransactionRecord) : recordFlags record < 4 := by
  unfold recordFlags
  cases record.fixedDestination <;> cases record.proxiable <;> decide

theorem recordFlags_facts (record : TransactionRecord) :
    decide (recordFlags record / 2 % 2 = 1) = record.proxiable ∧
      decide (recordFlags record % 2 = 1) = record.fixedDestination := by
  unfold recordFlags
  cases record.fixedDestination <;> cases record.proxiable <;> decide

theorem restoreRecord_yields (config : PendingRequestTableConfig)
    (revision : NonZero 8) (hfits : record.Fits) :
    Yields (restoreRecord config revision) (recordBytes record)
      (recheckRecord config revision record) := by
  obtain ⟨hproxiable, hfixed⟩ := recordFlags_facts _
  refine Yields.field (Reads.nonZero _) (Yields.field (Reads.number hfits.generation) ?_)
  apply Yields.guard
  intro _ _
  refine Yields.field (Reads.word _) (Yields.field (Reads.word _) ?_)
  apply Yields.guard
  intro _ _
  refine Yields.field (Reads.word _) (Yields.field (Reads.number ?_) ?_)
  · have := recordFlags_lt record
    omega
  refine Yields.unrefused (Nat.not_le.mpr (recordFlags_lt _)) ?_
  refine Yields.field (Reads.number hfits.attempts) ?_
  apply Yields.guard
  intro _ _
  apply Yields.guard
  intro _ _
  apply Yields.bind (restoreAttempts_yields _ 0 _)
  intro attempts hattempts
  obtain ⟨rfl, _, _⟩ := recheckAttempts_eq_ok.mp hattempts
  refine Yields.field (Reads.number hfits.rawAvps) ?_
  apply Yields.guard
  intro _ _
  refine Yields.final (Reads.take rfl) ?_
  rw [hproxiable, hfixed]
  apply Yields.guard
  intro _ _
  rw [length_restoredAttempts]
  exact Yields.pure _

theorem length_attemptBytes (attempt : AttemptEvidence) : (attemptBytes attempt).length = 37 := by
  simp [attemptBytes, NonZero.bytes, length_bigEndian]

theorem length_recordBytes (record : TransactionRecord) :
    (recordBytes record).length = 43 + record.attempts.length * 37 + record.rawAvps.length := by
  have hattempts : (record.attempts.flatMap attemptBytes).length = record.attempts.length * 37 := by
    simp [length_attemptBytes]
  simp only [recordBytes, length_append, NonZero.bytes, Word.length_bytes,
    length_bigEndian, hattempts]
  omega

/-- The size was computed right. -/
theorem length_snapshotBytes (checkpoint : SnapshotCheckpoint) (pending : List TransactionRecord) :
    (snapshotBytes checkpoint pending).length = snapshotLen pending := by
  have hrecords : (pending.flatMap recordBytes).length = (pending.map fun record =>
      43 + record.attempts.length * 37 + record.rawAvps.length).sum := by
    rw [length_flatMap]
    simp only [length_recordBytes]
  simp only [snapshotBytes, length_append, NonZero.bytes, Word.length_bytes,
    length_bigEndian, hrecords, snapshotLen]
  omega

end Records

namespace PendingRequestTable

open TransactionRecord

variable {table next : PendingRequestTable} {revision : NonZero 8}
  {records : List TransactionRecord}

/-- Recheck and index records one after the other. -/
def reindex (revision : NonZero 8) : List TransactionRecord →
    PendingRequestTable → Except SnapshotRestoreError PendingRequestTable
  | [], table => .ok table
  | record :: rest, table => do
    let restored ← recheckRecord table.config revision record
    let table ← table.indexRestoredRecord restored
    reindex revision rest { table with pendingCount := table.pendingCount + 1 }

theorem restoreRecords_yields (revision : NonZero 8)
    (hfits : ∀ record ∈ records, record.Fits) (table : PendingRequestTable) :
    Yields (restoreRecords revision records.length table)
      (records.flatMap recordBytes) (reindex revision records table) := by
  induction records generalizing table with
  | nil => exact pure _
  | cons _ _ ih =>
    apply bind (restoreRecord_yields _ _ (hfits _ (by simp)))
    intro _ _
    apply Yields.guard
    intro _ _
    exact ih (fun other hother => hfits _ (by simp [hother])) _

/-- On the bytes of a snapshot, `restore` rechecks and indexes its records. -/
theorem restore_snapshotBytes (checkpoint : SnapshotCheckpoint)
    (config : PendingRequestTableConfig) (hfits : ∀ record ∈ records, record.Fits)
    (hcount : records.length ≤ config.maxPendingTransactions)
    (hlen : snapshotLen records ≤ config.maxSnapshotBytes) :
    restore (snapshotBytes checkpoint records) checkpoint config =
      reindex checkpoint.revision records (restoring config checkpoint) := by
  have hbound := config.pendingBound.2
  have hread : Yields (readSnapshot checkpoint config) (snapshotBytes checkpoint records)
      (reindex checkpoint.revision records (restoring config checkpoint)) := by
    refine field (Reads.number (by decide)) (unrefused (by simp) ?_)
    refine field (Reads.number (by decide)) (unrefused (by simp) ?_)
    refine field (Reads.nonZero _) (unrefused (by simp) ?_)
    refine field (Reads.nonZero _) (unrefused (lt_irrefl _) ?_)
    refine unrefused (lt_irrefl _) (field (Reads.number (by omega)) ?_)
    refine unrefused (by omega) ?_
    exact restoreRecords_yields _ hfits _
  have hrun := hread []
  rw [append_nil] at hrun
  have hsize : refuseIf (config.maxSnapshotBytes < (snapshotBytes checkpoint records).length)
      SnapshotRestoreError.limitExceeded = .ok () := by
    rw [refuseIf_eq_ok, length_snapshotBytes]
    omega
  unfold restore
  rw [hsize, hrun]
  cases reindex checkpoint.revision records (restoring config checkpoint) with
  | error => rfl
  | ok => rfl

theorem reindex_eq_ok (hok : reindex revision records table = .ok next) :
    next.config = table.config ∧
      next.committedSnapshotCheckpoint = table.committedSnapshotCheckpoint ∧
      ∀ token record, next.records.find token = some record ↔
        table.records.find token = some record ∨
          ∃ saved ∈ records, saved.tokenValue = token ∧ record = saved.restored revision := by
  induction records generalizing table with
  | nil =>
    cases hok
    simp
  | cons saved _ ih =>
    obtain ⟨restored, hrecheck, hok⟩ := bind_eq_ok hok
    obtain ⟨_, hindex, hok⟩ := bind_eq_ok hok
    iterate 7 obtain ⟨_, _, hrecheck⟩ := bind_eq_ok hrecheck
    cases hrecheck
    obtain ⟨habsent, _, _, _, _, _, rfl⟩ := indexRestoredRecord_eq_ok hindex
    obtain ⟨hconfig, hcommitted, hfind⟩ := ih hok
    refine ⟨hconfig, hcommitted, ?_⟩
    intro token record
    change table.records.find saved.tokenValue = none at habsent
    rw [hfind]
    change (table.records.insert saved.tokenValue (saved.restored revision)).find token =
      some record ∨ _ ↔ _
    by_cases htoken : token = saved.tokenValue
    · subst htoken
      simp [habsent, eq_comm]
    · simp [htoken, Ne.symm htoken]

end PendingRequestTable

end PacketCore.Diameter
