import PacketCore.Diameter.PendingRestore

/-!
# Exact indexes over whole runs

From a new or restored table, any operations leave the indexes, the counters
and the bounds exact, provided no request is tracked under the End-to-End
identifier of a completed record that is still retained.
-/

namespace PacketCore.Diameter.PendingRequestTable

open TransactionRecord

/-- The number of retained records that pass a test. -/
def countWhere (table : PendingRequestTable) (test : TransactionRecord → Bool) : ℕ :=
  (table.records.keys.filter fun token => (table.records.find token).any test).card

/-- Every index, counter and bound says what it is meant to say. -/
structure IndexesExact (table : PendingRequestTable) : Prop where
  pendingEndToEnd : ∀ id token, table.pendingEndToEnd.find id = some token ↔
    ∃ record, table.records.find token = some record ∧ record.isPending = true ∧
      record.endToEndIdentifier = id
  endToEndUnique : ∀ left right leftRecord rightRecord,
    table.records.find left = some leftRecord → leftRecord.isPending = true →
    table.records.find right = some rightRecord → rightRecord.isPending = true →
    leftRecord.endToEndIdentifier = rightRecord.endToEndIdentifier → left = right
  trackRefuses : ∀ token record, table.records.find token = some record →
    record.isPending = true → ∀ now request connection other completion,
    request.header.endToEndIdentifier = record.endToEndIdentifier →
    (table.track now request connection other).2 ≠ .ok completion
  attemptIndex : ∀ id token, table.attemptIndex.find id = some token ↔
    ∃ record, table.records.find token = some record ∧
      ∃ attempt ∈ record.attempts, attempt.attemptId = id
  pendingCount : table.pendingCount = table.countWhere (·.isPending)
  completedCount : table.completedCount = table.countWhere fun record => !record.isPending
  unacknowledgedCompletionCount : table.unacknowledgedCompletionCount =
    (table.countWhere fun record =>
      !record.isPending && !record.completionDeliveryAcknowledged) +
      table.suppressedDeliveries.keys.card
  liveAttempts : ∀ connection entry, table.connections.find connection = some entry →
    entry.liveAttempts = table.records.total fun record =>
      record.attempts.countP (·.connection = connection)
  pendingBound : table.pendingCount + table.unacknowledgedCompletionCount ≤
    table.config.maxPendingTransactions
  retainedBound :
    (table.countWhere fun record => !record.isPending && record.completionDeliveryAcknowledged) ≤
      table.config.maxRetainedCompletions

variable {table : PendingRequestTable}

theorem total_eq_countWhere {weight : TransactionRecord → ℕ} {test : TransactionRecord → Bool}
    (hweight : ∀ record, weight record = (test record).toNat) :
    table.records.total weight = table.countWhere test := by
  unfold Table.total countWhere
  rw [Finset.card_filter]
  apply Finset.sum_congr rfl
  intro token _
  unfold Table.weightAt
  cases table.records.find token with
  | none => rfl
  | some record =>
    simp only [Option.map_some, hweight]
    rcases Bool.eq_false_or_eq_true (test record) with htest | htest <;> simp [htest]

theorem total_pendingWeight (table : PendingRequestTable) :
    table.records.total pendingWeight = table.countWhere (·.isPending) := by
  apply total_eq_countWhere
  intro record
  unfold pendingWeight
  cases record.isPending <;> rfl

theorem Paired.trackRefuses (hpaired : table.Paired) {token : CompletionTokenValue}
    {record : TransactionRecord} (hfind : table.records.find token = some record)
    (hpending : record.isPending = true) (now : ℕ) (request : OwnedMessage)
    (connection : ConnectionToken) (other : CompletionTokenValue) (completion : CompletionToken)
    (hsame : request.header.endToEndIdentifier = record.endToEndIdentifier) :
    (table.track now request connection other).2 ≠ .ok completion := by
  unfold track
  cases hadmission : table.admitRequest request other with
  | error => simp
  | ok =>
    obtain ⟨_, _, hinspect, hunused⟩ := admitRequest_eq_ok hadmission
    have hindex := (hpaired.indexed _ _).mpr ⟨record, hfind, hpending, rfl⟩
    rw [inspectRequest_endToEnd hinspect, hsame, hindex] at hunused
    cases hunused

theorem indexesExact {table : PendingRequestTable} (hsound : table.Sound)
    (hpaired : table.Paired) : table.IndexesExact where
  pendingEndToEnd := hpaired.indexed
  endToEndUnique left right leftRecord rightRecord hleft _ hright _ :=
    hpaired.unique _ _ _ _ hleft hright
  trackRefuses _ _ hfind hpending := hpaired.trackRefuses hfind hpending
  attemptIndex id token := by
    rw [hsound.linked.indexed]
    simp [attemptIds]
  pendingCount := by
    rw [hsound.counted.pending]
    exact total_pendingWeight _
  completedCount := by
    rw [hsound.counted.completed]
    apply total_eq_countWhere
    intro record
    unfold completedWeight
    cases record.isPending <;> rfl
  unacknowledgedCompletionCount := by
    rw [hsound.counted.unacknowledged]
    congr 1
    apply total_eq_countWhere
    intro record
    unfold unacknowledgedWeight
    cases record.isPending <;> cases record.completionDeliveryAcknowledged <;> rfl
  liveAttempts connection entry hentry := by
    rw [hsound.linked.live _ _ hentry]
    congr 1
    funext record
    simp only [attemptsOn, attemptIds, List.countP_map]
    rfl
  pendingBound := hsound.bounded.pending
  retainedBound := by
    refine le_of_eq_of_le ?_ hsound.bounded.retained
    symm
    apply total_eq_countWhere
    intro record
    unfold acknowledgedWeight
    cases record.isPending <;> cases record.completionDeliveryAcknowledged <;> rfl

/-- After any operations that do not reuse the End-to-End identifier of a
retained completed record, every index, counter and bound is exact. -/
theorem indexes_exact_of_fresh {table : PendingRequestTable} (hstart : Starts table)
    {operations : List (ℕ × Operation)} (hfresh : Meets Fresh table operations) :
    IndexesExact (table.run operations) := by
  obtain ⟨hsound, hpaired, _⟩ := hstart.exact
  let Exact : PendingRequestTable → Prop := fun table => table.Sound ∧ table.Paired
  have hinvariant : Exact (table.run operations) := by
    refine Meets.invariant ?_ ⟨hsound, hpaired⟩ hfresh
    rintro before now operation ⟨hsound, hpaired⟩ hoperation
    have heffect := (perform_outcome before now operation).effect
    exact ⟨hsound.effect heffect, hpaired.effect hoperation heffect⟩
  exact indexesExact hinvariant.1 hinvariant.2

section Sample

/-- A small table. -/
def sampleConfig : PendingRequestTableConfig where
  maxPendingTransactions := 4
  maxRetainedCompletions := 4
  maxAttemptsPerTransaction := 4
  maxConnections := 4
  maxMessageLen := 64
  maxSnapshotBytes := 4096
  pendingBound := by decide
  completionBound := by decide
  attemptBound := by decide
  connectionBound := by decide
  messageBound := by decide
  snapshotBound := by decide

def sampleEpoch : NonZero 16 := ⟨1, by decide⟩

def sampleConnection : ConnectionToken := ⟨1, by decide⟩

/-- A request with one Origin-Host AVP. -/
def sampleRequest (endToEndIdentifier : Word 4) : OwnedMessage where
  header := {
    version := 1
    length := 32
    flags := .request true false
    commandCode := 316
    applicationId := 16777251
    hopByHopIdentifier := 0
    endToEndIdentifier := endToEndIdentifier }
  rawAvps := [0, 0, 1, 8, 64, 0, 0, 9, 97, 0, 0, 0]

def sampleToken (value : Word 16) (hpositive : 0 < value.val) : CompletionTokenValue :=
  ⟨value, hpositive⟩

/-- A completed transaction whose delivery is acknowledged, and a newer one. -/
def sampleRun (endToEndIdentifier : Word 4) : List (ℕ × Operation) := [
  (0, .addConnection sampleConnection 1),
  (0, .track (sampleRequest 7) sampleConnection (sampleToken 1 (by decide))),
  (0, .finishExhausted (sampleToken 1 (by decide))),
  (0, .acknowledgeCompletionDelivery ⟨sampleEpoch, sampleToken 1 (by decide), .acknowledged⟩),
  (0, .track (sampleRequest endToEndIdentifier) sampleConnection (sampleToken 2 (by decide))),
  (0, .retire (sampleToken 1 (by decide)))]

theorem indexes_exact_of_fresh_sample :
    Meets Fresh (new sampleConfig sampleEpoch) (sampleRun 8) ∧
      IndexesExact ((new sampleConfig sampleEpoch).run (sampleRun 8)) := by
  have hfresh : Meets Fresh (new sampleConfig sampleEpoch) (sampleRun 8) := by decide +kernel
  exact ⟨hfresh, indexes_exact_of_fresh (.new _ _) hfresh⟩

/-- Retiring the older record clears the entry of the newer one, so that a third
request under the same identifier is tracked. -/
theorem retire_clears_reused_entry :
    let table := (new sampleConfig sampleEpoch).run (sampleRun 7)
    (table.records.find (sampleToken 2 (by decide))).map
        (fun record => (record.isPending, record.endToEndIdentifier)) = some (true, 7) ∧
      table.pendingEndToEnd.find 7 = none ∧
      (table.track 0 (sampleRequest 7) sampleConnection (sampleToken 3 (by decide))).2 =
        .ok ⟨sampleToken 3 (by decide), 0⟩ ∧
      ¬ IndexesExact table := by
  have hrun : (((new sampleConfig sampleEpoch).run (sampleRun 7)).records.find
      (sampleToken 2 (by decide))).map
        (fun record => (record.isPending, record.endToEndIdentifier)) = some (true, 7) ∧
      ((new sampleConfig sampleEpoch).run (sampleRun 7)).pendingEndToEnd.find 7 = none ∧
      (((new sampleConfig sampleEpoch).run (sampleRun 7)).track 0 (sampleRequest 7)
        sampleConnection (sampleToken 3 (by decide))).2 =
        .ok ⟨sampleToken 3 (by decide), 0⟩ := by
    decide +kernel
  obtain ⟨hpending, hcleared, htracked⟩ := hrun
  refine ⟨hpending, hcleared, htracked, ?_⟩
  intro hexact
  obtain ⟨record, hfind, hstate⟩ := Option.map_eq_some_iff.mp hpending
  simp only [Prod.mk.injEq] at hstate
  have hentry := (hexact.pendingEndToEnd 7 _).mpr ⟨record, hfind, hstate.1, hstate.2⟩
  rw [hcleared] at hentry
  cases hentry

end Sample

end PacketCore.Diameter.PendingRequestTable
