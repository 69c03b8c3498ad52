import PacketCore.Diameter.PendingIndexes

/-!
# Every operation keeps the indexes exact

The edits that are not quiet: a record completes, enters, gets an attempt, is
acknowledged or handed over, and connections come and go.
-/

namespace PacketCore.Diameter.PendingRequestTable

open TransactionRecord List

/-- The attempt index, the counters and the bounds. -/
structure Sound (table : PendingRequestTable) : Prop where
  linked : table.Linked
  counted : table.Counted
  bounded : table.Bounded

variable {table next : PendingRequestTable} {token : CompletionTokenValue}
  {record : TransactionRecord}

theorem Quiet.sound (hquiet : Quiet table next) (hsound : table.Sound) : next.Sound :=
  ⟨hquiet.linked hsound.linked, hquiet.counted hsound.counted, hquiet.bounded hsound.bounded⟩

theorem Sound.dropRecord (hsound : table.Sound)
    (hfind : table.records.find token = some record) : (table.dropRecord token record).Sound :=
  ⟨hsound.linked.dropRecord hfind, hsound.counted.dropRecord hfind, hsound.bounded.dropRecord hfind⟩

/-- Retention restores the bound on acknowledged records. -/
theorem sound_enforce (hlinked : table.Linked) (hcounted : table.Counted)
    (hpending : table.pendingCount + table.unacknowledgedCompletionCount ≤
      table.config.maxPendingTransactions) : table.enforceCompletionRetention.Sound :=
  ⟨hlinked.enforce, hcounted.enforce, bounded_enforce hcounted hpending⟩

variable {connection : ConnectionToken} {facts : RequestFacts}
  {request : OwnedMessage} {edit : TransactionRecord → TransactionRecord}

variable (table) in
theorem Quiet.refl : Quiet table table :=
  ⟨rfl, fun _ => rel_refl SameShape.refl _, rfl, rfl, rfl, fun _ => rfl, rfl, rfl, rfl⟩

theorem quiet_editRecord (hedit : ∀ record, SameShape record (edit record)) :
    Quiet table (table.editRecord token edit) :=
  { Quiet.refl table with records := rel_modify SameShape.refl _ _ fun _ _ => hedit _ }

theorem quiet_editAttempts (test : AttemptEvidence → Bool)
    {edit : AttemptEvidence → AttemptEvidence}
    (hedit : ∀ attempt, (edit attempt).attemptId = attempt.attemptId) :
    Quiet table (table.editAttempts test edit) :=
  { Quiet.refl table with records := rel_mapValues _ fun _ => sameShape_editAttempts _ _ hedit }

@[simp]
theorem liveAttempts_advance (entry : ConnectionEntry) :
    entry.advance.liveAttempts = entry.liveAttempts := by
  unfold ConnectionEntry.advance
  split <;> rfl

/-- Taking an identifier is quiet. -/
theorem quiet_advance {entry : ConnectionEntry}
    (hentry : table.connections.find connection = some entry) :
    Quiet table
      { table with connections := table.connections.insert connection entry.advance } := by
  refine { Quiet.refl table with live := ?_ }
  intro other
  rw [Table.find_insert]
  by_cases hother : other = connection
  · rw [if_pos hother, hother, hentry, Option.map_some, Option.map_some, liveAttempts_advance]
  · rw [if_neg hother]

theorem Quiet.trans {last : PendingRequestTable} (hleft : Quiet table next)
    (hright : Quiet next last) : Quiet table last where
  config := hright.config.trans hleft.config
  records := by
    intro token
    have hfirst := hleft.records token
    have hsecond := hright.records token
    generalize table.records.find token = left at hfirst ⊢
    generalize next.records.find token = middle at hfirst hsecond
    generalize last.records.find token = right at hsecond ⊢
    cases hfirst with
    | none => exact hsecond
    | some hfirst =>
      cases hsecond with
      | some hsecond =>
        exact .some ⟨hfirst.tokenValue.trans hsecond.tokenValue,
          hfirst.endToEndIdentifier.trans hsecond.endToEndIdentifier,
          hfirst.attemptIds.trans hsecond.attemptIds,
          hfirst.isPending.trans hsecond.isPending,
          hfirst.acknowledged.trans hsecond.acknowledged⟩
  suppressed := hright.suppressed.trans hleft.suppressed
  attemptIndex := hright.attemptIndex.trans hleft.attemptIndex
  pendingEndToEnd := hright.pendingEndToEnd.trans hleft.pendingEndToEnd
  live connection := (hright.live _).trans (hleft.live _)
  pendingCount := hright.pendingCount.trans hleft.pendingCount
  unacknowledged := hright.unacknowledged.trans hleft.unacknowledged
  completedCount := hright.completedCount.trans hleft.completedCount

theorem quiet_close (connection : ConnectionToken) (now : ℕ) :
    let closed := { table with connections := table.connections.modify connection fun entry =>
      { entry with isOpen := false } }
    Quiet table (closed.editAttempts (unsent connection) (.abandon now)) := by
  intro closed
  have hclosed : Quiet table closed := by
    refine { Quiet.refl table with live := ?_ }
    intro other
    rw [Table.find_modify]
    by_cases hother : other = connection
    · subst hother
      rw [if_pos rfl, Option.map_map]
      rfl
    · rw [if_neg hother]
  exact hclosed.trans (quiet_editAttempts _ fun _ => rfl)

theorem quiet_snapshot {checkpoint : SnapshotCheckpoint} {bytes : List Byte}
    (hsnapshot : table.snapshot checkpoint = .ok (next, bytes)) : Quiet table next := by
  iterate 6 obtain ⟨_, _, hsnapshot⟩ := bind_eq_ok hsnapshot
  cases hsnapshot
  refine { Quiet.refl table with records := rel_mapValues _ ?_ }
  intro _
  split
  · exact sameShape_editAttempts _ _ fun _ => rfl
  · exact SameShape.refl _

section Completion

/-- The table in which a record has just completed, before retention. -/
def completing (table : PendingRequestTable) (token : CompletionTokenValue)
    (record : TransactionRecord) (kind : CompletionKind) : PendingRequestTable :=
  { table with
    completionSequence := saturatingAdd table.completionSequence 1
    records := table.records.modify token (.settle kind (saturatingAdd table.completionSequence 1))
    pendingCount := table.pendingCount - 1
    unacknowledgedCompletionCount := saturatingAdd table.unacknowledgedCompletionCount 1
    completedCount := saturatingAdd table.completedCount 1
    pendingEndToEnd := table.pendingEndToEnd.erase record.endToEndIdentifier }

theorem Counted.awaiting_modify (hcounted : table.Counted)
    (hfind : table.records.find token = some record) (hdone : (edit record).isPending = false)
    (other : CompletionTokenValue) (kept : TransactionRecord)
    (hkept : (table.records.modify token edit).find other = some kept)
    (hpending : kept.isPending = true) : kept.completionDeliveryAcknowledged = false := by
  rw [Table.find_modify] at hkept
  split at hkept
  · rw [hfind] at hkept
    cases hkept
    rw [hdone] at hpending
    cases hpending
  · exact hcounted.awaiting _ _ hkept hpending

variable (kind : CompletionKind)

theorem Linked.completing (hlinked : table.Linked) : (table.completing token record kind).Linked :=
  @Linked.congr _ (table.completing token record kind) hlinked
    (rel_modify (fun _ => ⟨rfl, rfl⟩) _ _ fun _ _ => ⟨rfl, rfl⟩) rfl fun _ => rfl

variable (hfind : table.records.find token = some record)
include hfind

theorem complete_eq : table.complete token kind =
    (table.completing token record kind).enforceCompletionRetention := by
  simp only [complete, completing, hfind]

/-- One record moves from the pending count to the unacknowledged one. -/
theorem Sound.completing_counted (hsound : table.Sound) (hpending : record.isPending = true) :
    (table.completing token record kind).Counted ∧
      (table.completing token record kind).pendingCount +
        (table.completing token record kind).unacknowledgedCompletionCount ≤
        table.config.maxPendingTransactions := by
  obtain ⟨_, hcounted, _, _⟩ := hsound
  have hopen := hcounted.awaiting _ _ hfind hpending
  let edit : TransactionRecord → TransactionRecord :=
    settle kind (saturatingAdd table.completionSequence 1)
  have hdone : (edit record).isPending = false := rfl
  have hkept : (edit record).completionDeliveryAcknowledged = false := hopen
  have hpendingTotal := Table.total_modify edit pendingWeight hfind
  have hcompletedTotal := Table.total_modify edit completedWeight hfind
  have hopenTotal := Table.total_modify edit unacknowledgedWeight hfind
  simp only [pendingWeight, completedWeight, unacknowledgedWeight, hpending, hdone, hkept,
    reduceCtorEq, or_self, true_or, if_true, if_false] at hpendingTotal hcompletedTotal hopenTotal
  have hsplit := total_completed table.records
  have hmax := table.config.pendingBound.2
  have hkeep := table.config.completionBound.2
  have hpendingCount := hcounted.pending
  have hcompletedCount := hcounted.completed
  have hopenCount := hcounted.unacknowledged
  have hopenNext : saturatingAdd table.unacknowledgedCompletionCount 1 =
      table.unacknowledgedCompletionCount + 1 := saturatingAdd_eq (by omega)
  have hcompletedNext : saturatingAdd table.completedCount 1 = table.completedCount + 1 :=
    saturatingAdd_eq (by omega)
  refine ⟨⟨?_, ?_, ?_, ?_⟩, ?_⟩
  · change table.pendingCount - 1 = (table.records.modify token edit).total pendingWeight
    omega
  · change saturatingAdd table.completedCount 1 =
      (table.records.modify token edit).total completedWeight
    omega
  · change saturatingAdd table.unacknowledgedCompletionCount 1 =
      (table.records.modify token edit).total unacknowledgedWeight +
        table.suppressedDeliveries.keys.card
    omega
  · exact hcounted.awaiting_modify hfind hdone
  · change table.pendingCount - 1 + saturatingAdd table.unacknowledgedCompletionCount 1 ≤ _
    omega

theorem Sound.complete (hsound : table.Sound) (hpending : record.isPending = true) :
    (table.complete token kind).Sound := by
  obtain ⟨hcounted, hbound⟩ := hsound.completing_counted _ hfind hpending
  rw [complete_eq _ hfind]
  exact sound_enforce (hsound.linked.completing _) hcounted hbound

theorem Paired.complete (hpaired : table.Paired) : (table.complete token kind).Paired := by
  rw [complete_eq _ hfind]
  apply Paired.enforce
  let edit : TransactionRecord → TransactionRecord :=
    settle kind (saturatingAdd table.completionSequence 1)
  have hsame : ∀ other, Option.Rel
      (fun left right : TransactionRecord =>
        left.endToEndIdentifier = right.endToEndIdentifier)
      (table.records.find other) ((table.records.modify token edit).find other) := by
    apply rel_modify
    · intro _
      rfl
    · intro _ _
      rfl
  constructor
  · intro id other
    change (table.pendingEndToEnd.erase record.endToEndIdentifier).find id = some other ↔
      ∃ kept, (table.records.modify token edit).find other = some kept ∧ _
    rw [Table.find_erase, Table.find_modify]
    by_cases hother : other = token
    · subst hother
      rw [if_pos rfl, hfind]
      constructor
      · intro hindex
        split at hindex
        · cases hindex
        · next hid =>
          obtain ⟨kept, hkept, _, hkeptId⟩ := (hpaired.indexed id _).mp hindex
          rw [hfind, Option.some.injEq] at hkept
          exact absurd (hkeptId.symm.trans (hkept ▸ rfl)) hid
      · rintro ⟨_, ⟨⟩, ⟨⟩, _⟩
    · rw [if_neg hother]
      by_cases hid : id = record.endToEndIdentifier
      · rw [if_pos hid]
        constructor
        · rintro ⟨⟩
        · rintro ⟨kept, hkept, _, hkeptId⟩
          exact absurd (hpaired.unique _ _ _ _ hkept hfind (hkeptId.trans hid)) hother
      · rw [if_neg hid]
        exact hpaired.indexed id _
  · intro left right _ _ hleft hright hids
    obtain ⟨_, holdLeft, hleftId⟩ :=
      @find_of_rel _ _ _ _ (table.completing token record kind) hsame hleft
    obtain ⟨_, holdRight, hrightId⟩ :=
      @find_of_rel _ _ _ _ (table.completing token record kind) hsame hright
    apply hpaired.unique _ _ _ _ holdLeft holdRight
    rw [hleftId, hrightId, hids]

end Completion

section Entry

variable {attempt : AttemptEvidence}

theorem live_linkAttempt (token : CompletionTokenValue) (connection : ConnectionToken) :
    ((table.linkAttempt attempt token).connections.find connection).map
      (·.liveAttempts) = (table.connections.find connection).map fun entry =>
        entry.liveAttempts + if attempt.connection = connection then 1 else 0 := by
  unfold linkAttempt
  rw [Table.find_modify]
  by_cases hconnection : connection = attempt.connection
  · subst hconnection
    rw [if_pos rfl, Option.map_map]
    simp only [if_true]
    rfl
  · rw [if_neg hconnection]
    simp [Ne.symm hconnection]

/-- A record that got one more attempt, or a new record with its first one. -/
theorem Linked.link (hlinked : table.Linked) (old : List AttemptId)
    (hkey : record.tokenValue = token)
    (hfresh : table.attemptIndex.find attempt.attemptId = none)
    (hold : ∀ id, table.attemptIndex.find id = some token ↔ id ∈ old) (hnodup : old.Nodup)
    (hcount : ∀ connection, table.records.weightAt (attemptsOn connection) token =
      old.countP (·.connection = connection))
    (hids : record.attemptIds = old ++ [attempt.attemptId])
    (hrecords : next.records = table.records.insert token record)
    (hindex : next.attemptIndex = table.attemptIndex.insert attempt.attemptId token)
    (hlive : ∀ connection, (next.connections.find connection).map
      (·.liveAttempts) = (table.connections.find connection).map fun entry =>
        entry.liveAttempts + if attempt.connection = connection then 1 else 0) :
    next.Linked where
  keyed := by
    intro other kept hkept
    rw [hrecords, Table.find_insert] at hkept
    split at hkept
    · next hother =>
      cases hkept
      exact hkey.trans hother.symm
    · exact hlinked.keyed _ _ hkept
  indexed := by
    intro id other
    rw [hindex, hrecords, Table.find_insert, Table.find_insert]
    by_cases hother : other = token
    · subst hother
      rw [if_pos rfl]
      simp only [Option.some.injEq, exists_eq_left', hids, mem_append,
        mem_singleton, ← hold]
      by_cases hid : id = attempt.attemptId <;> simp [hid]
    · rw [if_neg hother, ← hlinked.indexed]
      by_cases hid : id = attempt.attemptId
      · subst hid
        simp [hfresh, Ne.symm hother]
      · rw [if_neg hid]
  distinct := by
    intro other kept hkept
    rw [hrecords, Table.find_insert] at hkept
    split at hkept
    · cases hkept
      rw [hids]
      apply hnodup.append (nodup_singleton _)
      rw [disjoint_singleton]
      intro hmem
      rw [(hold _).mpr hmem] at hfresh
      cases hfresh
    · exact hlinked.distinct _ _ hkept
  live := by
    intro connection entry hentry
    have hnew := hlive connection
    rw [hentry] at hnew
    obtain ⟨_, hbefore, hsum⟩ := Option.map_eq_some_iff.mp hnew.symm
    have htotal := Table.total_insert table.records (attemptsOn connection) token record
    have hrecord : attemptsOn connection record =
        old.countP (·.connection = connection) +
          if attempt.connection = connection then 1 else 0 := by
      unfold attemptsOn
      rw [hids, countP_append]
      by_cases hconnection : attempt.connection = connection <;>
        simp [AttemptEvidence.attemptId]
    have hstart := hlinked.live _ _ hbefore
    dsimp only at hsum
    rw [hcount] at htotal
    rw [hrecords]
    omega

section

variable (habsent : table.records.find record.tokenValue = none)
  (hpending : record.isPending = true)
include habsent hpending

theorem Sound.enter_counted (attempt : AttemptEvidence) (hsound : table.Sound)
    (hopen : record.completionDeliveryAcknowledged = false)
    (hroom : table.pendingCount + table.unacknowledgedCompletionCount <
      table.config.maxPendingTransactions) :
    (table.enterRecord record attempt).Counted ∧ (table.enterRecord record attempt).Bounded := by
  obtain ⟨_, hcounted, _, hretained⟩ := hsound
  have hzero : ∀ weight, table.records.weightAt weight record.tokenValue = 0 :=
    fun weight => Table.weightAt_of_absent habsent
  have htotal := fun weight => Table.total_insert table.records weight record.tokenValue record
  have hpendingTotal := htotal pendingWeight
  have hcompletedTotal := htotal completedWeight
  have hopenTotal := htotal unacknowledgedWeight
  have hkeptTotal := htotal acknowledgedWeight
  simp only [hzero, pendingWeight, completedWeight, unacknowledgedWeight,
    acknowledgedWeight, hpending, hopen] at hpendingTotal hcompletedTotal hopenTotal hkeptTotal
  refine ⟨⟨?_, ?_, ?_, ?_⟩, ?_, ?_⟩
  · exact (congrArg _ hcounted.pending).trans hpendingTotal.symm
  · exact hcounted.completed.trans hcompletedTotal.symm
  · exact hcounted.unacknowledged.trans (congrArg (· + _) hopenTotal.symm)
  · intro other kept hkept hkeptPending
    change (table.records.insert record.tokenValue record).find other = some kept at hkept
    rw [Table.find_insert] at hkept
    split at hkept
    · cases hkept
      exact hopen
    · exact hcounted.awaiting _ _ hkept hkeptPending
  · change table.pendingCount + 1 + table.unacknowledgedCompletionCount ≤ _
    have hconfig : (table.enterRecord record attempt).config = table.config := rfl
    rw [hconfig]
    omega
  · exact hkeptTotal.trans_le hretained

theorem Sound.enterRecord (hsound : table.Sound)
    (hopen : record.completionDeliveryAcknowledged = false)
    (hattempts : record.attempts = [attempt])
    (hfresh : table.attemptIndex.find attempt.attemptId = none)
    (hroom : table.pendingCount + table.unacknowledgedCompletionCount <
      table.config.maxPendingTransactions) : (table.enterRecord record attempt).Sound := by
  obtain ⟨hcounted, hbounded⟩ := hsound.enter_counted habsent hpending _ hopen hroom
  refine ⟨?_, hcounted, hbounded⟩
  refine hsound.linked.link [] rfl hfresh ?_ nodup_nil ?_ ?_ rfl rfl
    (live_linkAttempt record.tokenValue)
  · intro _
    rw [hsound.linked.indexed, habsent]
    simp
  · simp [Table.weightAt_of_absent habsent]
  · simp [attemptIds, hattempts]

theorem Paired.enterRecord (attempt : AttemptEvidence) (hpaired : table.Paired)
    (hnew : ∀ token kept, table.records.find token = some kept →
      kept.endToEndIdentifier ≠ record.endToEndIdentifier) :
    (table.enterRecord record attempt).Paired where
  indexed := by
    intro id other
    change (table.pendingEndToEnd.insert record.endToEndIdentifier record.tokenValue).find id =
      some other ↔ ∃ kept,
        (table.records.insert record.tokenValue record).find other = some kept ∧ _
    rw [Table.find_insert, Table.find_insert]
    by_cases hother : other = record.tokenValue
    · subst hother
      rw [if_pos rfl]
      simp only [Option.some.injEq, exists_eq_left', hpending]
      by_cases hid : id = record.endToEndIdentifier
      · simp [hid]
      · rw [if_neg hid, hpaired.indexed, habsent]
        simp [Ne.symm hid]
    · rw [if_neg hother, ← hpaired.indexed]
      by_cases hid : id = record.endToEndIdentifier
      · rw [if_pos hid]
        constructor
        · rintro ⟨⟩
          exact absurd rfl hother
        · intro hindex
          obtain ⟨kept, hkept, _, hsame⟩ := (hpaired.indexed id _).mp hindex
          exact absurd (hsame.trans hid) (hnew _ _ hkept)
      · rw [if_neg hid]
  unique := by
    intro left right leftRecord rightRecord hleft hright hsame
    change (table.records.insert record.tokenValue record).find left = some leftRecord at hleft
    change (table.records.insert record.tokenValue record).find right = some rightRecord at hright
    rw [Table.find_insert] at hleft hright
    split at hleft
    · next hleftToken =>
      cases hleft
      split at hright
      · next hrightToken => exact hleftToken.trans hrightToken.symm
      · exact absurd hsame.symm (hnew _ _ hright)
    · split at hright
      · cases hright
        exact absurd hsame (hnew _ _ hleft)
      · exact hpaired.unique _ _ _ _ hleft hright hsame

end

theorem records_addAttempt (hfind : table.records.find token = some record) :
    (table.addAttempt token attempt).records =
      table.records.insert token (record.push attempt) := by
  apply Table.ext_find
  intro _
  simp only [addAttempt, linkAttempt, editRecord, Table.find_modify,
    Table.find_insert, hfind, Option.map_some]

/-- One more attempt changes no counter of the table. -/
theorem Sound.addAttempt (hsound : table.Sound) (hfind : table.records.find token = some record)
    (hfresh : table.attemptIndex.find attempt.attemptId = none) :
    (table.addAttempt token attempt).Sound := by
  have hgrown : ∀ weight : TransactionRecord → ℕ, weight (record.push attempt) = weight record →
      (table.addAttempt token attempt).records.total weight = table.records.total weight := by
    intro weight _
    have htotal := Table.total_insert table.records weight token (record.push attempt)
    rw [Table.weightAt_of_find hfind] at htotal
    rw [records_addAttempt hfind]
    omega
  have hlinked : (table.addAttempt token attempt).Linked := by
    have hkey : (record.push attempt).tokenValue = token := hsound.linked.keyed _ record hfind
    refine hsound.linked.link _ hkey hfresh ?_
      (hsound.linked.distinct _ _ hfind) ?_ ?_ (records_addAttempt hfind) rfl
      (live_linkAttempt _)
    · intro _
      rw [hsound.linked.indexed, hfind]
      simp
    · intro _
      rw [Table.weightAt_of_find hfind]
      rfl
    · simp [attemptIds, push]
  refine ⟨hlinked, ⟨?_, ?_, ?_, ?_⟩, ?_, ?_⟩
  · exact hsound.counted.pending.trans (hgrown _ rfl).symm
  · exact hsound.counted.completed.trans (hgrown _ rfl).symm
  · exact hsound.counted.unacknowledged.trans (congrArg (· + _) (hgrown _ rfl).symm)
  · intro _ _ hkept hpending
    rw [records_addAttempt hfind, Table.find_insert] at hkept
    split at hkept
    · cases hkept
      exact hsound.counted.awaiting _ record hfind hpending
    · exact hsound.counted.awaiting _ _ hkept hpending
  · exact hsound.bounded.pending
  · exact (hgrown _ rfl).trans_le hsound.bounded.retained

theorem Paired.addAttempt (hpaired : table.Paired) : (table.addAttempt token attempt).Paired :=
  @Paired.congr _ (table.addAttempt token attempt) hpaired
    (rel_modify (fun _ => ⟨rfl, rfl⟩) _ _ fun _ _ => ⟨rfl, rfl⟩) rfl

end Entry

section Deliveries

theorem Sound.dropSuppressed (hsound : table.Sound)
    (hsuppressed : (table.suppressedDeliveries.find token).isSome) :
    (table.dropSuppressed token).Sound := by
  obtain ⟨hlinked, hcounted, hbounded⟩ := hsound
  refine ⟨{ hlinked with }, { hcounted with unacknowledged := ?_ }, ?_, hbounded.retained⟩
  · have hcard : (table.suppressedDeliveries.erase token).keys.card + 1 = _ :=
      Finset.card_erase_add_one ((Table.mem_keys_iff _ _).mpr hsuppressed)
    have hcount := hcounted.unacknowledged
    change table.unacknowledgedCompletionCount - 1 = table.records.total unacknowledgedWeight +
      (table.suppressedDeliveries.erase token).keys.card
    omega
  · have hbound := hbounded.pending
    exact (Nat.add_le_add_left (Nat.sub_le _ _) _).trans hbound

theorem Paired.dropSuppressed (hpaired : table.Paired) : (table.dropSuppressed token).Paired :=
  ⟨hpaired.indexed, hpaired.unique⟩

variable (completion : CompletionToken)

theorem suppress_eq (hfind : table.records.find token = some record) :
    table.suppress token completion =
      { table.dropRecord token record with
        suppressedDeliveries := table.suppressedDeliveries.insert token completion
        unacknowledgedCompletionCount :=
          saturatingAdd (table.dropRecord token record).unacknowledgedCompletionCount 1 } := by
  simp only [suppress, removeRecord_of_find hfind, suppressedDeliveries_dropRecord]

/-- A pending record becomes a suppressed delivery. -/
theorem Sound.suppress (hsound : table.Sound)
    (habsent : table.suppressedDeliveries.find token = none)
    (hfind : table.records.find token = some record)
    (hpending : record.isPending = true) : (table.suppress token completion).Sound := by
  have hdropped := hsound.dropRecord hfind
  have hcard : (table.suppressedDeliveries.insert token completion).keys.card =
      table.suppressedDeliveries.keys.card + 1 := by
    exact Finset.card_insert_of_notMem (Table.not_mem_keys.mpr habsent)
  have hunchanged : (table.dropRecord token record).unacknowledgedCompletionCount =
      table.unacknowledgedCompletionCount := by
    rw [unacknowledged_dropRecord]
    simp [unacknowledgedWeight, hpending]
  have hless : (table.dropRecord token record).pendingCount + 1 = table.pendingCount := by
    have hcount := hsound.counted.pending
    have hone : pendingWeight record = 1 := by simp [pendingWeight, hpending]
    have hle : pendingWeight record ≤ table.records.total pendingWeight :=
      Table.weight_le_total hfind
    rw [pendingCount_dropRecord]
    omega
  have hbound := hsound.bounded.pending
  have hmax := table.config.pendingBound.2
  have hnext : saturatingAdd (table.dropRecord token record).unacknowledgedCompletionCount 1 =
      table.unacknowledgedCompletionCount + 1 := by
    rw [hunchanged]
    exact saturatingAdd_eq (by omega)
  have hcount := hdropped.counted.unacknowledged
  rw [suppressedDeliveries_dropRecord] at hcount
  rw [suppress_eq _ hfind]
  refine ⟨{ hdropped.linked with }, { hdropped.counted with unacknowledged := ?_ }, ?_,
    hdropped.bounded.retained⟩
  · dsimp only
    omega
  · dsimp only
    rw [config_dropRecord]
    omega

theorem Paired.suppress (hpaired : table.Paired) (hfind : table.records.find token = some record) :
    (table.suppress token completion).Paired := by
  have hdropped := hpaired.dropRecord hfind
  rw [suppress_eq _ hfind]
  exact ⟨hdropped.indexed, hdropped.unique⟩

/-- The table in which a completion has just been acknowledged, before retention. -/
def acknowledging (table : PendingRequestTable) (token : CompletionTokenValue) :
    PendingRequestTable :=
  { table with
    records := table.records.modify token ({ · with completionDeliveryAcknowledged := true })
    unacknowledgedCompletionCount := table.unacknowledgedCompletionCount - 1 }

theorem Sound.acknowledge (hsound : table.Sound)
    (hfind : table.records.find token = some record) (hcompleted : record.isPending = false)
    (hopen : record.completionDeliveryAcknowledged = false) :
    (table.acknowledging token).enforceCompletionRetention.Sound := by
  let edit : TransactionRecord → TransactionRecord :=
    ({ · with completionDeliveryAcknowledged := true })
  have hstill : (edit record).isPending = false := hcompleted
  have hdone : (edit record).completionDeliveryAcknowledged = true := rfl
  have hpendingTotal := Table.total_modify edit pendingWeight hfind
  have hcompletedTotal := Table.total_modify edit completedWeight hfind
  have hopenTotal := Table.total_modify edit unacknowledgedWeight hfind
  simp only [pendingWeight, completedWeight, unacknowledgedWeight, hcompleted,
    hopen, hstill, hdone, reduceCtorEq, or_self, or_true, if_true, if_false,
    add_left_inj] at hpendingTotal hcompletedTotal hopenTotal
  have hcount := hsound.counted.unacknowledged
  have hcounted : (table.acknowledging token).Counted := by
    refine ⟨hsound.counted.pending.trans hpendingTotal.symm,
      hsound.counted.completed.trans hcompletedTotal.symm, ?_, ?_⟩
    · change table.unacknowledgedCompletionCount - 1 =
        (table.records.modify token edit).total unacknowledgedWeight +
          table.suppressedDeliveries.keys.card
      omega
    · exact hsound.counted.awaiting_modify hfind hstill
  have hlinked : (table.acknowledging token).Linked :=
    @Linked.congr _ (table.acknowledging token) hsound.linked
      (rel_modify (fun _ => ⟨rfl, rfl⟩) _ _ fun _ _ => ⟨rfl, rfl⟩) rfl
      fun _ => rfl
  have hbound : table.pendingCount + (table.unacknowledgedCompletionCount - 1) ≤
      table.config.maxPendingTransactions :=
    (Nat.add_le_add_left (Nat.sub_le _ _) _).trans hsound.bounded.pending
  exact sound_enforce hlinked hcounted hbound

theorem Paired.acknowledge (hpaired : table.Paired) :
    (table.acknowledging token).enforceCompletionRetention.Paired := by
  apply Paired.enforce
  exact @Paired.congr _ (table.acknowledging token) hpaired
    (rel_modify (fun _ => ⟨rfl, rfl⟩) _ _ fun _ _ => ⟨rfl, rfl⟩) rfl

end Deliveries

/-- A connection that no retained attempt refers to. -/
theorem total_attemptsOn_eq_zero (hfree : table.references connection = false) :
    table.records.total (attemptsOn connection) = 0 := by
  apply Table.total_eq_zero
  intro token record hfind
  unfold attemptsOn
  rw [countP_eq_zero]
  intro _ hid hconnection
  obtain ⟨attempt, hattempt, rfl⟩ := mem_map.mp hid
  unfold references at hfree
  rw [decide_eq_false_iff_not] at hfree
  exact hfree ⟨token, Table.mem_keys_of_find hfind, record, hfind, attempt,
    hattempt, of_decide_eq_true hconnection⟩

section Steps

variable {now : ℕ} {operation : Operation} {response : Response}

/-- What `track` has checked before it takes an identifier. -/
theorem admitRequest_eq_ok (hok : table.admitRequest request token = .ok facts) :
    table.records.find token = none ∧
      table.pendingCount + table.unacknowledgedCompletionCount <
        table.config.maxPendingTransactions ∧
      inspectRequest request table.config.maxMessageLen = .ok facts ∧
      table.pendingEndToEnd.find facts.endToEndIdentifier = none := by
  obtain ⟨hunused, hok⟩ := refuseIf_bind hok
  obtain ⟨hroom, hok⟩ := refuseIf_bind hok
  obtain ⟨_, hinspect, hok⟩ := bind_eq_ok hok
  obtain ⟨hendToEnd, hok⟩ := refuseIf_bind hok
  cases hok
  rw [not_or] at hunused
  exact ⟨by simpa using hunused.1, by omega, hinspect, by simpa using hendToEnd⟩

theorem inspectRequest_endToEnd {maxMessageLen : ℕ}
    (hinspect : inspectRequest request maxMessageLen = .ok facts) :
    facts.endToEndIdentifier = request.header.endToEndIdentifier := by
  iterate 6 obtain ⟨_, _, hinspect⟩ := bind_eq_ok hinspect
  cases hinspect
  rfl

theorem sameShape_answer (index now : ℕ) (record : TransactionRecord) :
    SameShape record { record.editAttempt index (.answer now) with generation := 1 } := by
  have hshape := sameShape_editAttempt record index
    (show ∀ attempt : AttemptEvidence, (attempt.answer now).attemptId = attempt.attemptId from
      fun _ => rfl)
  exact { hshape with }

/-- A pending record after a quiet edit of it. -/
theorem find_editRecord (hfind : table.records.find token = some record) :
    (table.editRecord token edit).records.find token = some (edit record) := by
  simp [editRecord, hfind]

/-- What an operation does to the indexes: most are quiet, possibly before one
edit that is not. -/
inductive Effect (table : PendingRequestTable) (operation : Operation) : PendingRequestTable → Prop
  | quiet {next : PendingRequestTable} (hquiet : Quiet table next) : Effect table operation next
  | reconnected {connections : Table ConnectionToken ConnectionEntry}
      (hlive : ∀ connection entry, connections.find connection = some entry →
        table.connections.find connection = some entry ∨
          entry.liveAttempts = 0 ∧ table.references connection = false) :
      Effect table operation { table with connections := connections }
  | entered {middle} {request : OwnedMessage} {connection : ConnectionToken}
      {token : CompletionTokenValue} {facts : RequestFacts} {attempt : AttemptEvidence}
      (htrack : operation = .track request connection token)
      (hquiet : Quiet table middle) (hrecords : middle.records = table.records)
      (hadmission : table.admitRequest request token = .ok facts)
      (hfresh : middle.attemptIndex.find attempt.attemptId = none) :
      Effect table operation
        (middle.enterRecord (trackedRecord facts request.rawAvps token attempt) attempt)
  | grown {middle} {token : CompletionTokenValue} {record : TransactionRecord}
      {attempt : AttemptEvidence} (hquiet : Quiet table middle)
      (hfind : middle.records.find token = some record)
      (hfresh : middle.attemptIndex.find attempt.attemptId = none) :
      Effect table operation (middle.addAttempt token attempt)
  | completed {middle} {token : CompletionTokenValue} {record : TransactionRecord}
      {kind : CompletionKind} (hquiet : Quiet table middle)
      (hfind : middle.records.find token = some record) (hpending : record.isPending = true) :
      Effect table operation (middle.complete token kind)
  | removed {token : CompletionTokenValue} {record : TransactionRecord}
      (hfind : table.records.find token = some record) :
      Effect table operation (table.dropRecord token record)
  | settled {token : CompletionTokenValue}
      (hsuppressed : (table.suppressedDeliveries.find token).isSome) :
      Effect table operation (table.dropSuppressed token)
  | settledRemoved {token : CompletionTokenValue} {record : TransactionRecord}
      (hsuppressed : (table.suppressedDeliveries.find token).isSome)
      (hfind : table.records.find token = some record) :
      Effect table operation ((table.dropSuppressed token).dropRecord token record)
  | suppressed {token : CompletionTokenValue} {completion : CompletionToken}
      {record : TransactionRecord} (habsent : table.suppressedDeliveries.find token = none)
      (hfind : table.records.find token = some record) (hpending : record.isPending = true) :
      Effect table operation (table.suppress token completion)
  | acknowledged {token : CompletionTokenValue} {record : TransactionRecord}
      (hfind : table.records.find token = some record) (hcompleted : record.isPending = false)
      (hopen : record.completionDeliveryAcknowledged = false) :
      Effect table operation (table.acknowledging token).enforceCompletionRetention

theorem quiet_editAttempt {index : ℕ} {edit : AttemptEvidence → AttemptEvidence}
    (hedit : ∀ attempt, (edit attempt).attemptId = attempt.attemptId) :
    Quiet table (table.editRecord token (·.editAttempt index edit)) := by
  apply quiet_editRecord
  intro _
  exact sameShape_editAttempt _ _ hedit

theorem Outcome.effect (houtcome : Outcome table now operation next response) :
    Effect table operation next := by
  cases houtcome with
  | unchanged | missed | confirmed | abandoned =>
    exact .quiet { Quiet.refl table with }
  | connected _ hfree =>
    apply Effect.reconnected
    intro connection entry hentry
    rw [Table.find_insert] at hentry
    split at hentry
    · next hsame =>
      cases hentry
      exact .inr ⟨rfl, hsame ▸ hfree⟩
    · exact .inl hentry
  | closed => exact .quiet (quiet_close _ _)
  | disconnected =>
    apply Effect.reconnected
    intro connection entry hkept
    rw [Table.find_erase] at hkept
    split at hkept
    · cases hkept
    · exact .inl hkept
  | allocated hentry => exact .quiet (quiet_advance hentry)
  | tracked hadmission hentry _ _ hfresh =>
    exact .entered rfl (quiet_advance hentry) rfl hadmission hfresh
  | dispatched | stranded | written | failed =>
    apply Effect.quiet
    apply quiet_editAttempt
    intro _
    rfl
  | failedAll =>
    apply Effect.quiet
    apply quiet_editAttempts
    intro _
    rfl
  | failedOver hfind _ _ hentry _ _ hfresh =>
    exact .grown (quiet_advance hentry) hfind hfresh
  | rejected | late =>
    apply Effect.quiet
    apply quiet_editRecord
    intro record
    exact ⟨rfl, rfl, rfl, rfl, rfl⟩
  | answered hfind hpending =>
    exact .completed (quiet_editRecord (sameShape_answer _ _)) (find_editRecord hfind) hpending
  | finished hfind hpending =>
    refine .completed (quiet_editRecord ?_) (find_editRecord hfind) hpending
    intro record
    exact ⟨rfl, rfl, rfl, rfl, rfl⟩
  | removed hfind => exact .removed hfind
  | settled _ hsuppressed => exact .settled hsuppressed
  | settledRemoved hsuppressed hfind => exact .settledRemoved hsuppressed hfind
  | suppressed habsent hfind hpending => exact .suppressed habsent hfind hpending
  | acknowledged hfind hcompleted hopen => exact .acknowledged hfind hcompleted hopen
  | snapshotted hsnapshot => exact .quiet (quiet_snapshot hsnapshot)

/-- Every operation keeps the attempt index, the counters and the bounds. -/
theorem Sound.effect (hsound : table.Sound) (heffect : Effect table operation next) :
    next.Sound := by
  cases heffect with
  | quiet hquiet => exact hquiet.sound hsound
  | reconnected hlive =>
    refine ⟨{ hsound.linked with live := ?_ }, { hsound.counted with }, { hsound.bounded with }⟩
    intro _ _ hentry
    rcases hlive _ _ hentry with hkept | ⟨hzero, hfree⟩
    · exact hsound.linked.live _ _ hkept
    · rw [hzero, total_attemptsOn_eq_zero hfree]
  | entered _ hquiet hrecords hadmission hfresh =>
    obtain ⟨habsent, hroom, _, _⟩ := admitRequest_eq_ok hadmission
    refine (hquiet.sound hsound).enterRecord ?_ rfl rfl rfl hfresh ?_
    · rw [hrecords]
      exact habsent
    · rw [hquiet.pendingCount, hquiet.unacknowledged, hquiet.config]
      exact hroom
  | grown hquiet hfind hfresh => exact (hquiet.sound hsound).addAttempt hfind hfresh
  | completed hquiet hfind hpending => exact (hquiet.sound hsound).complete _ hfind hpending
  | removed hfind => exact hsound.dropRecord hfind
  | settled hsuppressed => exact hsound.dropSuppressed hsuppressed
  | settledRemoved hsuppressed hfind => exact (hsound.dropSuppressed hsuppressed).dropRecord hfind
  | suppressed habsent hfind hpending => exact hsound.suppress _ habsent hfind hpending
  | acknowledged hfind hcompleted hopen => exact hsound.acknowledge hfind hcompleted hopen

/-- The operation does not track a request under the End-to-End identifier of a
retained completed record. -/
def Fresh (table : PendingRequestTable) (_ : ℕ) : Operation → Prop
  | .track request _ _ => ∀ token record, table.records.find token = some record →
      record.isPending = false → record.endToEndIdentifier ≠ request.header.endToEndIdentifier
  | _ => True

instance (table : PendingRequestTable) (now : ℕ) (operation : Operation) :
    Decidable (table.Fresh now operation) :=
  match operation with
  | .track request _ _ =>
    Table.decidableForallFind table.records fun _ record => record.isPending = false →
      record.endToEndIdentifier ≠ request.header.endToEndIdentifier
  | .addConnection .. | .closeConnection .. | .retireConnection ..
  | .reconcileCompletionDelivery .. | .reconcileAcknowledged ..
  | .acknowledgeCompletionDelivery .. | .takeAttemptDispatch .. | .recordAttemptWriteSuccess ..
  | .recordAttemptFailure .. | .failConnectionAttempts .. | .failover .. | .correlateAnswer ..
  | .finishUndeliverable .. | .finishExhausted .. | .finishIndeterminate .. | .retire ..
  | .snapshot .. | .confirmSnapshotCommitted .. | .abandonUncommittedSnapshot .. =>
    .isTrue trivial

/-- Every operation that is fresh in this sense keeps the End-to-End index exact. -/
theorem Paired.effect (hpaired : table.Paired) (hfresh : table.Fresh now operation)
    (heffect : Effect table operation next) : next.Paired := by
  cases heffect with
  | quiet hquiet => exact hquiet.paired hpaired
  | reconnected => exact ⟨hpaired.indexed, hpaired.unique⟩
  | entered htrack hquiet hrecords hadmission =>
    subst htrack
    obtain ⟨habsent, _, hinspect, hunused⟩ := admitRequest_eq_ok hadmission
    refine (hquiet.paired hpaired).enterRecord ?_ rfl _ ?_
    · rw [hrecords]
      exact habsent
    · intro _ record hfind hsame
      rw [hrecords] at hfind
      -- a pending record would be in the index, a completed one is excluded
      by_cases hpending : record.isPending = true
      · have hindex := (hpaired.indexed _ _).mpr ⟨record, hfind, hpending, rfl⟩
        rw [hsame] at hindex
        exact absurd (hindex.symm.trans hunused) (by simp)
      · apply hfresh _ _ hfind (by simpa using hpending)
        exact hsame.trans (inspectRequest_endToEnd hinspect)
  | grown hquiet => exact (hquiet.paired hpaired).addAttempt
  | completed hquiet hfind => exact (hquiet.paired hpaired).complete _ hfind
  | removed hfind => exact hpaired.dropRecord hfind
  | settled => exact hpaired.dropSuppressed
  | settledRemoved _ hfind => exact hpaired.dropSuppressed.dropRecord hfind
  | suppressed _ hfind => exact hpaired.suppress _ hfind
  | acknowledged => exact hpaired.acknowledge

end Steps

end PacketCore.Diameter.PendingRequestTable
