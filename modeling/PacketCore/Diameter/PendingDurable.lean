import PacketCore.Diameter.PendingStored
import PacketCore.Diameter.PendingReuse

/-!
# Emitted snapshots restore

In every run whose stamps are in order and whose requests do not reuse the
End-to-End identifier of a retained completed record, every snapshot the table
emits is accepted by `restore`, and the restored table has exactly the pending
records of the table it was taken from.
-/

namespace PacketCore.Diameter

open List

namespace TransactionRecord

variable {record : TransactionRecord} {index : ℕ} {attempt : AttemptEvidence}

/-- The attempt that is handed out next has not been handed out before. -/
theorem nextDispatch_spec (hnext : record.nextDispatch = some index)
    (hattempt : record.attempts[index]? = some attempt) : attempt.disposition = .prepared := by
  obtain ⟨_, hposition, rfl⟩ := Option.map_eq_some_iff.mp hnext
  obtain ⟨hbound, htest, _⟩ := findIdx?_eq_some_iff_getElem.mp hposition
  rw [length_reverse] at hbound
  rw [getElem_reverse, decide_eq_true_eq] at htest
  rw [getElem?_eq_getElem (by omega), Option.some.injEq] at hattempt
  exact (hattempt ▸ htest).1

theorem findAttempt_spec {id : AttemptId} (hfind : record.findAttempt id = some index)
    (hattempt : record.attempts[index]? = some attempt) : attempt.attemptId = id := by
  obtain ⟨hbound, htest, _⟩ := findIdx?_eq_some_iff_getElem.mp hfind
  rw [getElem?_eq_getElem hbound, Option.some.injEq] at hattempt
  rw [hattempt, decide_eq_true_eq] at htest
  exact htest

end TransactionRecord

variable {attempt : AttemptEvidence} {bytes : List Byte}
  {checkpoint : SnapshotCheckpoint} {index : ℕ} {kind : CompletionKind}

namespace PendingRequestTable

open TransactionRecord

variable {table next : PendingRequestTable} {now : ℕ} {operation : Operation}
  {response : Response} {token : CompletionTokenValue} {record : TransactionRecord}

/-- The operation is accepted and writes its clock reading on this attempt of
the record under `token`. -/
def Stamps (table : PendingRequestTable) (operation : Operation)
    (token : CompletionTokenValue) (attempt : AttemptEvidence) : Prop :=
  match operation with
  | .closeConnection connection =>
    (table.connections.find connection).isSome = true ∧ unsent connection attempt = true
  | .takeAttemptDispatch target committed => token = target ∧
      (table.selectDispatch target committed).toOption.map (·.2.2) = some attempt ∧
      table.connectionOpen attempt.connection = false
  | .recordAttemptWriteSuccess target id =>
    token = target ∧ attempt.attemptId = id ∧ attempt.disposition = .inFlight
  | .recordAttemptFailure target id failure =>
    token = target ∧ attempt.attemptId = id ∧ failure.compatible attempt.disposition = true
  | .failConnectionAttempts connection failure => failing connection failure attempt = true
  | _ => False

/-- What the operation stamps on an attempt of a pending record is not before
the readings the attempt has, and is not the stamp of an absent reading. -/
def Timely (table : PendingRequestTable) (now : ℕ) (operation : Operation) : Prop :=
  ∀ token record attempt, table.records.find token = some record → record.isPending = true →
    attempt ∈ record.attempts → table.Stamps operation token attempt →
    attempt.startedAt ≤ now ∧ (∀ written ∈ attempt.writtenAt, written ≤ now) ∧
      now / 1000 < 2 ^ 64 - 1

instance (table : PendingRequestTable) (operation : Operation) (token : CompletionTokenValue)
    (attempt : AttemptEvidence) : Decidable (table.Stamps operation token attempt) :=
  match operation with
  | .closeConnection _ => inferInstanceAs (Decidable (_ ∧ _))
  | .failConnectionAttempts _ _ => inferInstanceAs (Decidable (_ = true))
  | .takeAttemptDispatch _ _ | .recordAttemptWriteSuccess _ _ | .recordAttemptFailure _ _ _ =>
    inferInstanceAs (Decidable (_ ∧ _ ∧ _))
  | .addConnection .. | .retireConnection .. | .track .. | .reconcileCompletionDelivery ..
  | .reconcileAcknowledged .. | .acknowledgeCompletionDelivery .. | .failover ..
  | .correlateAnswer .. | .finishUndeliverable .. | .finishExhausted ..
  | .finishIndeterminate .. | .retire .. | .snapshot .. | .confirmSnapshotCommitted ..
  | .abandonUncommittedSnapshot .. => .isFalse id

instance (table : PendingRequestTable) (now : ℕ) (operation : Operation) :
    Decidable (table.Timely now operation) :=
  decidable_of_iff (∀ token record, table.records.find token = some record →
      record.isPending = true → ∀ attempt ∈ record.attempts, table.Stamps operation token attempt →
        attempt.startedAt ≤ now ∧ (∀ written ∈ attempt.writtenAt, written ≤ now) ∧
          now / 1000 < 2 ^ 64 - 1)
    ⟨fun hall _ _ _ hfind hpending => hall _ _ hfind hpending _,
      fun hall _ _ hfind hpending _ => hall _ _ _ hfind hpending⟩

/-- Every pending record can be restored from a snapshot. -/
def Stored (table : PendingRequestTable) : Prop :=
  ∀ token record, table.records.find token = some record →
    record.isPending = true → Restorable table.config record

theorem selectDispatch_eq_ok {committed : SnapshotCheckpoint}
    (hok : table.selectDispatch token committed = .ok (record, index, attempt)) :
    table.records.find token = some record ∧ record.attempts[index]? = some attempt ∧
      attempt.disposition = .prepared := by
  obtain ⟨_, hok⟩ := refuseIf_bind hok
  obtain ⟨_, hfind, hok⟩ := okOr_bind hok
  obtain ⟨_, hok⟩ := refuseIf_bind hok
  obtain ⟨_, hposition, hok⟩ := okOr_bind hok
  obtain ⟨_, hselected, hok⟩ := okOr_bind hok
  obtain ⟨_, hok⟩ := refuseIf_bind hok
  cases hok
  exact ⟨hfind, hselected, nextDispatch_spec hposition hselected⟩

theorem Stored.editRecord {edit : TransactionRecord → TransactionRecord}
    (hstored : table.Stored) (hedit : ∀ record, table.records.find token = some record →
      (edit record).isPending = true → record.isPending = true ∧
        (Restorable table.config record → Restorable table.config (edit record))) :
    (table.editRecord token edit).Stored := by
  intro _ record hfind hpending
  simp only [PendingRequestTable.editRecord, Table.find_modify] at hfind
  split at hfind
  · obtain ⟨_, hold, rfl⟩ := Option.map_eq_some_iff.mp hfind
    obtain ⟨hwas, hkeep⟩ := hedit _ hold hpending
    exact hkeep (hstored _ _ hold hwas)
  · exact hstored _ _ hfind hpending

theorem Stored.editAttempt {edit : AttemptEvidence → AttemptEvidence}
    (hstored : table.Stored) (hfind : table.records.find token = some record)
    (hattempt : record.attempts[index]? = some attempt)
    (hplace : ∀ attempt, (edit attempt).attemptIndex = attempt.attemptIndex ∧
      (edit attempt).retransmission = attempt.retransmission)
    (hedit : record.isPending = true → attempt ∈ record.attempts → attempt.Storable →
      (edit attempt).Storable) : (table.editRecord token (·.editAttempt index edit)).Stored := by
  apply hstored.editRecord
  intro _ hfound hpending
  cases hfind.symm.trans hfound
  refine ⟨hpending, fun hrestorable => hrestorable.editAttempt hplace ?_⟩
  intro _ hselected
  cases hattempt.symm.trans hselected
  have hmem := mem_of_getElem? hattempt
  exact hedit hpending hmem (hrestorable.storable _ hmem)

/-- Editing selected attempts of every record in place. -/
theorem Stored.editAttempts {test : AttemptEvidence → Bool}
    {edit : AttemptEvidence → AttemptEvidence} (hstored : table.Stored)
    (hplace : ∀ attempt, (edit attempt).attemptIndex = attempt.attemptIndex ∧
      (edit attempt).retransmission = attempt.retransmission)
    (hedit : ∀ token record attempt, table.records.find token = some record →
      record.isPending = true → attempt ∈ record.attempts → attempt.Storable →
      test attempt = true → (edit attempt).Storable) : (table.editAttempts test edit).Stored := by
  intro token record hfind hpending
  obtain ⟨_, hold, rfl⟩ := Option.map_eq_some_iff.mp hfind
  have hrestorable := hstored _ _ hold hpending
  apply hrestorable.editAttempts hplace
  intro attempt hattempt htest
  exact hedit _ _ _ hold hpending hattempt (hrestorable.storable _ hattempt) htest

theorem Stored.subset (hstored : table.Stored) (hconfig : next.config = table.config)
    (hsubset : ∀ token record, next.records.find token = some record →
      record.isPending = true → table.records.find token = some record) : next.Stored := by
  intro token record hfind hpending
  rw [hconfig]
  exact hstored _ _ (hsubset _ _ hfind hpending) hpending

theorem Stored.dropRecord (hstored : table.Stored) : (table.dropRecord token record).Stored := by
  apply hstored.subset config_dropRecord
  intro _ _ hkept _
  rw [records_dropRecord] at hkept
  exact (find_erase_eq_some.mp hkept).2

/-- The retention loop only removes records. -/
theorem find_enforce
    (hfind : table.enforceCompletionRetention.records.find token = some record) :
    table.records.find token = some record := by
  let Within : PendingRequestTable → Prop := fun later =>
    later.records.find token = some record → table.records.find token = some record
  have hwithin : Within table.enforceCompletionRetention := by
    refine evictCompletions_induction ?_ _ (fun hfound => hfound)
    intro later _ _ _ hlater _ _ _ hfound
    apply hlater
    simp only [records_dropRecord] at hfound
    exact (find_erase_eq_some.mp hfound).2
  exact hwithin hfind

theorem config_enforce : table.enforceCompletionRetention.config = table.config :=
  (evictCompletions_frame _ _ _).1

/-- A completed record is no longer pending, and no other record changes. -/
theorem find_complete {other : CompletionTokenValue} {completed : TransactionRecord}
    (hold : table.records.find token = some completed)
    (hfind : (table.complete token kind).records.find other = some record)
    (hpending : record.isPending = true) :
    other ≠ token ∧ table.records.find other = some record := by
  have hbefore := find_enforce hfind
  simp only [Table.find_modify] at hbefore
  split at hbefore
  · rw [hold] at hbefore
    cases hbefore
    cases hpending
  · next hother => exact ⟨hother, hbefore⟩

/-- Completing a record leaves only pending records that were there. -/
theorem Stored.complete {edit : TransactionRecord → TransactionRecord}
    (hstored : table.Stored) (hfind : table.records.find token = some record) :
    ((table.editRecord token edit).complete token kind).Stored := by
  apply hstored.subset
  · rw [complete_eq _ (find_editRecord hfind), config_enforce]
    rfl
  · intro _ _ hkept hpending
    obtain ⟨hother, hbefore⟩ := find_complete (find_editRecord hfind) hkept hpending
    simpa [PendingRequestTable.editRecord, hother] using hbefore

/-- A request that is tracked can be restored. -/
theorem restorable_trackedRecord {request : OwnedMessage} {connection : ConnectionToken}
    {facts : RequestFacts} {hopByHopIdentifier : Word 4}
    (hadmission : table.admitRequest request token = .ok facts) :
    Restorable table.config (trackedRecord facts request.rawAvps token
      (.prepare 0 connection hopByHopIdentifier false now)) where
  generation := rfl
  nonempty := by simp [trackedRecord]
  limit := table.config.attemptBound.1
  positions := by
    intro index attempt hattempt
    cases index with
    | zero =>
      cases hattempt
      exact ⟨rfl, rfl⟩
    | succ => simp [trackedRecord] at hattempt
  storable := by
    intro attempt hattempt
    obtain rfl := mem_singleton.mp hattempt
    exact AttemptEvidence.storable_prepare _ _ _ _ _
  inspected := checkRestored_of_inspectRequest (admitRequest_eq_ok hadmission).2.2.1

/-- Every operation whose stamps are in order keeps the pending records
restorable. -/
theorem Stored.outcome (hstored : table.Stored) (htimely : table.Timely now operation)
    (houtcome : Outcome table now operation next response) : next.Stored := by
  cases houtcome with
  | unchanged | connected | disconnected | allocated | missed | settled | confirmed | abandoned =>
    exact hstored
  | closed hknown =>
    refine @Stored.editAttempts { table with connections := _ } _ _ hstored (fun _ => ⟨rfl, rfl⟩) ?_
    intro token record attempt hfind hpending hattempt hstorable htest
    obtain ⟨hstarted, _, hnow⟩ := htimely _ _ _ hfind hpending hattempt ⟨hknown, htest⟩
    exact hstorable.abandon hstarted hnow (of_decide_eq_true htest).2
  | tracked hadmission =>
    intro other record hfind hpending
    change (table.records.insert _ _).find other = some record at hfind
    rw [Table.find_insert] at hfind
    split at hfind
    · cases hfind
      exact @restorable_trackedRecord table now _ _ _ _ _ hadmission
    · exact hstored _ _ hfind hpending
  | dispatched hselect =>
    obtain ⟨hfind, hattempt, hprepared⟩ := selectDispatch_eq_ok hselect
    refine hstored.editAttempt hfind hattempt (fun _ => ⟨rfl, rfl⟩) ?_
    intro _ _ hstorable
    exact hstorable.dispatch hprepared
  | stranded hselect hclosed =>
    obtain ⟨hfind, hattempt, hprepared⟩ := selectDispatch_eq_ok hselect
    refine hstored.editAttempt hfind hattempt (fun _ => ⟨rfl, rfl⟩) ?_
    intro hpending hmem hstorable
    obtain ⟨hstarted, _, hnow⟩ := htimely _ _ _ hfind hpending hmem
      ⟨rfl, by rw [hselect]; rfl, hclosed⟩
    exact hstorable.abandon hstarted hnow hprepared
  | written hfind hindex hattempt hflight =>
    refine hstored.editAttempt hfind hattempt (fun _ => ⟨rfl, rfl⟩) ?_
    intro hpending hmem hstorable
    obtain ⟨hstarted, _, hnow⟩ := htimely _ _ _ hfind hpending hmem
      ⟨rfl, findAttempt_spec hindex hattempt, hflight⟩
    exact hstorable.write hstarted hnow hflight
  | failed hfind hindex hattempt hfailure =>
    refine hstored.editAttempt hfind hattempt (fun _ => ⟨rfl, rfl⟩) ?_
    intro hpending hmem hstorable
    obtain ⟨hstarted, hwritten, hnow⟩ := htimely _ _ _ hfind hpending hmem
      ⟨rfl, findAttempt_spec hindex hattempt, hfailure⟩
    exact hstorable.fail hstarted hnow hfailure hwritten
  | failedAll =>
    refine hstored.editAttempts (fun _ => ⟨rfl, rfl⟩) ?_
    intro token record attempt hfind hpending hattempt hstorable htest
    obtain ⟨hstarted, hwritten, hnow⟩ := htimely _ _ _ hfind hpending hattempt htest
    exact hstorable.fail hstarted hnow (of_decide_eq_true htest).2 hwritten
  | failedOver hfind hpending hlimit =>
    refine @Stored.editRecord { table with connections := _ } _ _ hstored ?_
    intro record hrecord _
    cases hfind.symm.trans hrecord
    exact ⟨hpending, fun hrestorable => hrestorable.push hlimit⟩
  | rejected | late =>
    apply hstored.editRecord
    intro record _ hpending
    exact ⟨hpending, fun hrestorable => { hrestorable with }⟩
  | answered hfind | finished hfind => exact hstored.complete hfind
  | removed => exact hstored.dropRecord
  | settledRemoved => exact @Stored.dropRecord (table.dropSuppressed _) _ _ hstored
  | suppressed _ hfind =>
    rw [suppress_eq _ hfind]
    exact hstored.dropRecord
  | acknowledged hfind hcompleted =>
    refine hstored.subset ?_ ?_
    · rw [config_enforce]
    · intro other record hkept hpending
      have hbefore := find_enforce hkept
      simp only [Table.find_modify, hfind] at hbefore
      split at hbefore
      · cases hbefore
        exact absurd hpending (by simpa [isPending] using hcompleted)
      · exact hbefore
  | snapshotted hsnapshot =>
    iterate 6 obtain ⟨_, _, hsnapshot⟩ := bind_eq_ok hsnapshot
    cases hsnapshot
    intro token record hfind hpending
    obtain ⟨_, hold, rfl⟩ := Option.map_eq_some_iff.mp hfind
    split at hpending
    · next hwas =>
      rw [if_pos hwas]
      have hrestorable := hstored _ _ hold hwas
      apply hrestorable.editAttempts
      · intro _
        exact ⟨rfl, rfl⟩
      · intro attempt hattempt _
        exact (hrestorable.storable _ hattempt).snapshot _
    · next hwas => exact absurd hpending hwas

theorem indexRestoredAttempts_ok {attempts : List AttemptEvidence}
    {index : Table AttemptId CompletionTokenValue} (hnodup : (attempts.map (·.attemptId)).Nodup)
    (habsent : ∀ id ∈ attempts.map (·.attemptId), index.find id = none) :
    ∃ result, attempts.foldlM (indexRestoredAttempt token) index = .ok result := by
  induction attempts generalizing index with
  | nil => exact ⟨index, rfl⟩
  | cons attempt _ ih =>
    rw [map_cons, nodup_cons] at hnodup
    have hfirst : indexRestoredAttempt token index attempt =
        .ok (index.insert attempt.attemptId token) := by
      unfold indexRestoredAttempt
      rw [refuseIf_of_not (by simp [habsent _ _]), ok_bind]
      rfl
    rw [foldlM_cons, hfirst]
    apply ih hnodup.2
    intro id hid
    have hother : id ≠ attempt.attemptId := fun hsame => hnodup.1 (hsame ▸ hid)
    rw [Table.find_insert, if_neg hother]
    exact habsent id (by simp [hid])

theorem reindex_ok {revision : NonZero 8} {records : List TransactionRecord}
    (hrestorable : ∀ record ∈ records, Restorable table.config record)
    (htokens : (records.map (·.tokenValue)).Nodup)
    (hendToEnds : (records.map (·.endToEndIdentifier)).Nodup)
    (hids : (records.flatMap attemptIds).Nodup)
    (habsent : ∀ record ∈ records, table.records.find record.tokenValue = none)
    (hunused : ∀ record ∈ records, table.pendingEndToEnd.find record.endToEndIdentifier = none)
    (hnew : ∀ record ∈ records, ∀ id ∈ record.attemptIds, table.attemptIndex.find id = none) :
    ∃ restored, reindex revision records table = .ok restored := by
  induction records generalizing table with
  | nil => exact ⟨table, rfl⟩
  | cons record _ ih =>
    rw [map_cons, nodup_cons] at htokens hendToEnds
    rw [flatMap_cons, nodup_append'] at hids
    have hfirst := hrestorable record (by simp)
    have hsame : (record.restored revision).attempts.map (·.attemptId) = record.attemptIds :=
      map_attemptId_restoredAttempts _ 0 _
    obtain ⟨attemptIndex, hindex⟩ := @indexRestoredAttempts_ok record.tokenValue
      (record.restored revision).attempts table.attemptIndex
      (by rw [hsame]; exact hids.1) (by rw [hsame]; exact hnew _ (by simp))
    have hindexed : table.indexRestoredRecord (record.restored revision) = .ok { table with
        attemptIndex := attemptIndex
        pendingEndToEnd := table.pendingEndToEnd.insert record.endToEndIdentifier record.tokenValue
        records := table.records.insert record.tokenValue (record.restored revision) } := by
      have hclear : ¬ ((table.records.find (record.restored revision).tokenValue).isSome ∨
          (table.pendingEndToEnd.find (record.restored revision).endToEndIdentifier).isSome) := by
        simp [restored, habsent _ _, hunused _ _]
      unfold indexRestoredRecord
      rw [refuseIf_of_not hclear]
      change (record.restored revision).attempts.foldlM (indexRestoredAttempt record.tokenValue)
        table.attemptIndex >>= _ = _
      rw [hindex]
      rfl
    have hfind := (indexRestoredAttempts_eq_ok hindex).2.2
    unfold reindex
    rw [hfirst.recheck, ok_bind, hindexed]
    apply ih
    · exact (forall_mem_cons.mp hrestorable).2
    · exact htokens.2
    · exact hendToEnds.2
    · exact hids.2.1
    · intro other hother
      have htoken : other.tokenValue ≠ record.tokenValue :=
        fun hsame => htokens.1 (hsame ▸ mem_map_of_mem hother)
      simp [htoken, habsent other (by simp [hother])]
    · intro other hother
      have hidentifier : other.endToEndIdentifier ≠ record.endToEndIdentifier :=
        fun hsame => hendToEnds.1 (hsame ▸ mem_map_of_mem hother)
      simp [hidentifier, hunused other (by simp [hother])]
    · intro other hother id hid
      have hapart : id ∉ record.attemptIds :=
        fun hmem => hids.2.2 hmem (mem_flatMap.mpr ⟨other, hother, hid⟩)
      rw [hfind, hsame, if_neg hapart]
      exact hnew _ (by simp [hother]) id hid

theorem mem_pendingRecords :
    record ∈ table.pendingRecords ↔
      ∃ token, table.records.find token = some record ∧ record.isPending = true := by
  simp only [pendingRecords, mem_filterMap, Option.filter_eq_some_iff, mem_ascending]
  constructor
  · rintro ⟨token, -, hfilter⟩
    exact ⟨token, hfilter⟩
  · rintro ⟨token, hfind, hpending⟩
    exact ⟨token, Table.mem_keys_of_find hfind, hfind, hpending⟩

theorem Linked.mem_pendingRecords (hlinked : table.Linked)
    (hmem : record ∈ table.pendingRecords) :
    table.records.find record.tokenValue = some record ∧ record.isPending = true := by
  obtain ⟨_, hfind, hpending⟩ := PendingRequestTable.mem_pendingRecords.mp hmem
  rw [hlinked.keyed _ _ hfind]
  exact ⟨hfind, hpending⟩

theorem Linked.nodup_pendingRecords (hlinked : table.Linked) : table.pendingRecords.Nodup := by
  apply List.Nodup.filterMap _ (nodup_ascending _)
  intro _ _ _ hleft hright
  rw [Option.mem_def, Option.filter_eq_some_iff] at hleft hright
  exact (hlinked.keyed _ _ hleft.1).symm.trans (hlinked.keyed _ _ hright.1)

theorem Linked.nodup_tokens (hlinked : table.Linked) :
    (table.pendingRecords.map (·.tokenValue)).Nodup := by
  apply List.Nodup.map_on _ hlinked.nodup_pendingRecords
  intro _ hleft _ hright hsame
  have hfirst := (hlinked.mem_pendingRecords hleft).1
  rw [hsame] at hfirst
  exact Option.some.inj (hfirst.symm.trans (hlinked.mem_pendingRecords hright).1)

theorem Paired.nodup_endToEnds (hpaired : table.Paired) (hlinked : table.Linked) :
    (table.pendingRecords.map (·.endToEndIdentifier)).Nodup := by
  apply List.Nodup.map_on _ hlinked.nodup_pendingRecords
  intro _ hleft _ hright hsame
  have hfirst := (hlinked.mem_pendingRecords hleft).1
  have hsecond := (hlinked.mem_pendingRecords hright).1
  rw [hpaired.unique _ _ _ _ hfirst hsecond hsame] at hfirst
  exact Option.some.inj (hfirst.symm.trans hsecond)

theorem Linked.nodup_attemptIds (hlinked : table.Linked) :
    (table.pendingRecords.flatMap attemptIds).Nodup := by
  rw [nodup_flatMap]
  constructor
  · intro _ hrecord
    exact hlinked.distinct _ _ (hlinked.mem_pendingRecords hrecord).1
  · apply List.Nodup.pairwise_of_forall_ne hlinked.nodup_pendingRecords
    intro left hleft right hright hne id hinLeft hinRight
    have hfirst := (hlinked.mem_pendingRecords hleft).1
    have hsecond := (hlinked.mem_pendingRecords hright).1
    have howner := (hlinked.indexed id _).mpr ⟨left, hfirst, hinLeft⟩
    have hother := (hlinked.indexed id _).mpr ⟨right, hsecond, hinRight⟩
    rw [Option.some.inj (howner.symm.trans hother)] at hfirst
    exact hne (Option.some.inj (hfirst.symm.trans hsecond))

/-- No more records than the pending count. -/
theorem Sound.length_pendingRecords (hsound : table.Sound) :
    table.pendingRecords.length ≤ table.config.maxPendingTransactions := by
  have hcount : table.pendingRecords.length ≤ table.countWhere (·.isPending) := by
    rw [← length_map, ← toFinset_card_of_nodup hsound.linked.nodup_tokens]
    apply Finset.card_le_card
    intro _ htoken
    obtain ⟨_, hrecord, rfl⟩ := mem_map.mp (mem_toFinset.mp htoken)
    obtain ⟨hfind, hpending⟩ := hsound.linked.mem_pendingRecords hrecord
    exact Finset.mem_filter.mpr ⟨Table.mem_keys_of_find hfind, by simp [hfind, hpending]⟩
  have htotal := total_pendingWeight table
  have hpending := hsound.counted.pending
  have hbound := hsound.bounded.pending
  omega

/-- What a snapshot that is emitted was made of. -/
theorem snapshot_eq_ok (hok : table.snapshot checkpoint = .ok (next, bytes)) :
    bytes = snapshotBytes checkpoint table.pendingRecords ∧
      snapshotLen table.pendingRecords ≤ table.config.maxSnapshotBytes ∧
      (∀ previous ∈ table.snapshotCheckpoint, previous.revision < checkpoint.revision) ∧
      table.uncommittedSnapshotCheckpoint = none ∧
      next = { table.markSnapshotted checkpoint.revision with
        snapshotCheckpoint := some checkpoint
        uncommittedSnapshotCheckpoint := some checkpoint } := by
  obtain ⟨hsettled, hok⟩ := refuseIf_bind hok
  iterate 2 obtain ⟨_, _, hok⟩ := bind_eq_ok hok
  obtain ⟨hadvanced, hok⟩ := refuseIf_bind hok
  obtain ⟨_, _, hok⟩ := bind_eq_ok hok
  obtain ⟨hsize, hok⟩ := refuseIf_bind hok
  cases hok
  push Not at hadvanced
  exact ⟨rfl, by omega, hadvanced, by simpa using hsettled, rfl⟩

/-- The two records stand for the same request and the same attempts. -/
structure SameTransaction (left right : TransactionRecord) : Prop where
  tokenValue : left.tokenValue = right.tokenValue
  rawAvps : left.rawAvps = right.rawAvps
  facts : left.facts = right.facts
  attempts : left.attempts.map (fun attempt => (attempt.attemptIndex,
      attempt.attemptId, attempt.retransmission, attempt.disposition)) =
    right.attempts.map (fun attempt => (attempt.attemptIndex, attempt.attemptId,
      attempt.retransmission, attempt.disposition))

/-- The restored table has exactly the pending records of the other one. -/
structure SamePending (table restored : PendingRequestTable) : Prop where
  kept : ∀ token record, table.records.find token = some record → record.isPending = true →
    ∃ saved, restored.records.find token = some saved ∧ saved.isPending = true ∧
      SameTransaction record saved
  only : ∀ token saved, restored.records.find token = some saved →
    ∃ record, table.records.find token = some record ∧ record.isPending = true ∧
      SameTransaction record saved

/-- A restorable record comes back as the same transaction. -/
theorem sameTransaction_restored {config : PendingRequestTableConfig}
    (revision : NonZero 8) (hrestorable : Restorable config record) :
    SameTransaction record (record.restored revision) where
  tokenValue := rfl
  rawAvps := rfl
  facts := rfl
  attempts := by
    apply ext_getElem?
    intro index
    simp only [restored, getElem?_map, getElem?_restoredAttempts]
    cases hattempt : record.attempts[index]? with
    | none => rfl
    | some =>
      obtain ⟨hindex, hretransmission⟩ := hrestorable.positions _ _ hattempt
      simp [AttemptEvidence.restored, AttemptEvidence.attemptId, hindex, hretransmission]

/-- A snapshot of a table whose pending records are restorable restores. -/
theorem Stored.restores (hsound : table.Sound) (hpaired : table.Paired)
    (hstored : table.Stored) (hsnapshot : table.snapshot checkpoint = .ok (next, bytes)) :
    ∃ restored, restore bytes checkpoint table.config = .ok restored ∧
      SamePending table restored := by
  obtain ⟨rfl, hsize, _⟩ := snapshot_eq_ok hsnapshot
  have hrecords : ∀ record ∈ table.pendingRecords, Restorable table.config record := by
    intro record hrecord
    obtain ⟨hfind, hpending⟩ := hsound.linked.mem_pendingRecords hrecord
    exact hstored _ _ hfind hpending
  obtain ⟨restored, hreindex⟩ := @reindex_ok (restoring table.config checkpoint)
    checkpoint.revision table.pendingRecords hrecords hsound.linked.nodup_tokens
    (hpaired.nodup_endToEnds hsound.linked) hsound.linked.nodup_attemptIds
    (fun _ _ => rfl) (fun _ _ => rfl) (fun _ _ _ _ => rfl)
  have hrestore := restore_snapshotBytes checkpoint _
    (fun record hrecord => (hrecords _ hrecord).request.2.2) hsound.length_pendingRecords hsize
  have hfind := (reindex_eq_ok hreindex).2.2
  refine ⟨restored, hrestore.trans hreindex, ⟨?_, ?_⟩⟩
  · intro token record hrecord hpending
    have hmem := PendingRequestTable.mem_pendingRecords.mpr ⟨token, hrecord, hpending⟩
    refine ⟨record.restored checkpoint.revision, ?_, rfl,
      sameTransaction_restored _ (hrecords _ hmem)⟩
    exact (hfind _ _).mpr (.inr ⟨record, hmem, hsound.linked.keyed _ _ hrecord, rfl⟩)
  · intro token _ hsaved
    rcases (hfind _ _).mp hsaved with hbefore | ⟨record, hmem, rfl, rfl⟩
    · cases hbefore
    · obtain ⟨hrecord, hpending⟩ := hsound.linked.mem_pendingRecords hmem
      exact ⟨record, hrecord, hpending, sameTransaction_restored _ (hrecords _ hmem)⟩

/-- In every run whose stamps are in order and that does not reuse the
End-to-End identifier of a retained completed record, every snapshot that is
emitted restores to exactly the pending records. -/
theorem snapshot_restores_of_timely (hstart : Starts table) {operations : List (ℕ × Operation)}
    (hmeets : Meets (fun table now operation => table.Timely now operation ∧
      table.Fresh now operation) table operations)
    {checkpoint : SnapshotCheckpoint} {bytes : List Byte}
    (hsnapshot : (table.run operations).snapshot checkpoint = .ok (next, bytes)) :
    ∃ restored, restore bytes checkpoint (table.run operations).config = .ok restored ∧
      SamePending (table.run operations) restored := by
  obtain ⟨hsound, hpaired, hrestorable⟩ := hstart.exact
  let Durable : PendingRequestTable → Prop := fun table =>
    table.Sound ∧ table.Paired ∧ table.Stored
  have hdurable : Durable (table.run operations) := by
    refine Meets.invariant ?_ ⟨hsound, hpaired, fun token record hfind _ =>
      (hrestorable _ _ hfind).1⟩ hmeets
    rintro before now operation ⟨hsound, hpaired, hstored⟩ ⟨htimely, hfresh⟩
    have houtcome := perform_outcome before now operation
    exact ⟨hsound.effect houtcome.effect, hpaired.effect hfresh houtcome.effect,
      hstored.outcome htimely houtcome⟩
  exact hdurable.2.2.restores hdurable.1 hdurable.2.1 hsnapshot

def sampleCheckpoint (revision : NonZero 8) : SnapshotCheckpoint := ⟨sampleEpoch, revision⟩

/-- One request, tracked one second after the start of the clock. -/
def trackingRun : List (ℕ × Operation) := [
  (10 ^ 9, .addConnection sampleConnection 1),
  (10 ^ 9, .track (sampleRequest 7) sampleConnection (sampleToken 1 Nat.one_pos))]

/-- The attempt of that request fails before it is written. -/
def failingAttempt : Operation :=
  .recordAttemptFailure (sampleToken 1 Nat.one_pos) ⟨sampleConnection, 1⟩ .beforeWrite

theorem snapshot_restores_of_timely_sample :
    let operations := trackingRun ++ [(2 * 10 ^ 9, failingAttempt)]
    let table := (new sampleConfig sampleEpoch).run operations
    let checkpoint := sampleCheckpoint ⟨1, by decide⟩
    ∃ next bytes restored, table.snapshot checkpoint = .ok (next, bytes) ∧
      restore bytes checkpoint sampleConfig = .ok restored ∧ SamePending table restored := by
  intro operations table checkpoint
  have hmeets : Meets (fun table now operation => table.Timely now operation ∧
      table.Fresh now operation) (new sampleConfig sampleEpoch) operations := by decide +kernel
  have hok : (table.snapshot checkpoint).toOption.isSome = true := by decide +kernel
  cases hsnapshot : table.snapshot checkpoint with
  | error =>
    rw [hsnapshot] at hok
    cases hok
  | ok emitted =>
    obtain ⟨restored, hrestore, hsame⟩ :=
      snapshot_restores_of_timely (.new _ _) hmeets hsnapshot
    exact ⟨emitted.1, emitted.2, restored, rfl, hrestore, hsame⟩

/-- The snapshot of a process whose clock had run for a second. -/
def earlierSnapshot : List Byte :=
  snapshotBytes (sampleCheckpoint ⟨1, Nat.one_pos⟩)
    ((new sampleConfig sampleEpoch).run trackingRun).pendingRecords

/-- The next snapshot of a restored table is refused as an invalid record. -/
def refusedAgain (operations : List (ℕ × Operation)) (table : PendingRequestTable) : Bool :=
  ((table.run operations).snapshot (sampleCheckpoint ⟨2, by decide⟩)).toOption.any fun emitted =>
    match restore emitted.2 (sampleCheckpoint ⟨2, by decide⟩) (table.run operations).config with
    | .error .invalidRecord => true
    | _ => false

/-- A restored attempt that fails five nanoseconds after the start of the new
clock ends before it started, and the next snapshot does not restore. -/
theorem snapshot_refused_under_new_clock :
    let checkpoint := sampleCheckpoint ⟨2, by decide⟩
    ∃ table later bytes, Starts table ∧
      (table.run [(5, failingAttempt)]).snapshot checkpoint = .ok (later, bytes) ∧
      restore bytes checkpoint (table.run [(5, failingAttempt)]).config =
        .error .invalidRecord := by
  intro checkpoint
  have hrun : (restore earlierSnapshot (sampleCheckpoint ⟨1, by decide⟩)
      sampleConfig).toOption.any (refusedAgain [(5, failingAttempt)]) = true := by
    decide +kernel
  cases hrestore : restore earlierSnapshot (sampleCheckpoint ⟨1, by decide⟩) sampleConfig with
  | error =>
    rw [hrestore] at hrun
    cases hrun
  | ok table =>
    rw [hrestore] at hrun
    change refusedAgain [(5, failingAttempt)] table = true at hrun
    unfold refusedAgain at hrun
    cases hsnapshot : (table.run [(5, failingAttempt)]).snapshot checkpoint with
    | error =>
      rw [hsnapshot] at hrun
      cases hrun
    | ok emitted =>
      rw [hsnapshot, Except.toOption, Option.any_some] at hrun
      split at hrun
      · next hagain => exact ⟨table, emitted.1, emitted.2, .restored hrestore, hsnapshot, hagain⟩
      · cases hrun

end PendingRequestTable

end PacketCore.Diameter
