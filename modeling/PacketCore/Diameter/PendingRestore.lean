import PacketCore.Diameter.PendingExact

/-!
# Restored tables

What `restore` has checked of every record it accepts, whatever bytes it was
given: the record can be written and restored again, and the table it builds is
indexed exactly.
-/

namespace PacketCore.Diameter

/-- The readings of the attempt agree with its disposition and with each other,
and none is mistaken for an absent one in a snapshot. -/
structure AttemptEvidence.Storable (attempt : AttemptEvidence) : Prop where
  unanswered : attempt.disposition ≠ .answered
  coherent : ¬ attempt.incoherent
  written : ∀ reading ∈ attempt.writtenAt, reading / 1000 < 2 ^ 64 - 1
  ended : ∀ reading ∈ attempt.endedAt, reading / 1000 < 2 ^ 64 - 1

/-- A pending record that its own snapshot restores. -/
structure Restorable (config : PendingRequestTableConfig) (record : TransactionRecord) : Prop where
  generation : record.generation = 0
  nonempty : record.attempts ≠ []
  limit : record.attempts.length ≤ config.maxAttemptsPerTransaction
  positions : ∀ index attempt, record.attempts[index]? = some attempt →
    attempt.attemptIndex = index ∧ attempt.retransmission = decide (0 < index)
  storable : ∀ attempt ∈ record.attempts, attempt.Storable
  inspected : checkRestored config record.facts record.rawAvps = .ok ()

variable {attempts : List AttemptEvidence} {config : PendingRequestTableConfig}
  {count : ℕ} {input rest : List Byte} {revision : NonZero 8}

section Records

theorem stampRead_lt {micros reading : ℕ} (hstamp : reading ∈ stampRead micros)
    (hmicros : micros < 2 ^ 64) : reading / 1000 < 2 ^ 64 - 1 := by
  unfold stampRead microsSentinelNone at hstamp
  split at hstamp
  · cases hstamp
  · cases hstamp
    omega

theorem number_lt {ε : Type} {short : ε} {width value : ℕ}
    (hread : (Reader.number short width).run input = .ok (value, rest)) : value < 256 ^ width := by
  obtain ⟨_, _, htake, hread⟩ := run_bind_eq_ok hread
  cases hread
  simp only [Reader.take, StateT.run] at htake
  split at htake
  · next hlength =>
    cases htake
    have hvalue := fromBigEndian_lt (input.take width)
    rwa [List.length_take, Nat.min_eq_left hlength] at hvalue
  · cases htake

/-- An attempt that `restore` accepts, at its position. -/
theorem restoreAttempt_eq_ok {attemptIndex : ℕ} {attempt : AttemptEvidence}
    (hread : (restoreAttempt revision attemptIndex).run input = .ok (attempt, rest)) :
    attempt.attemptIndex = attemptIndex ∧ attempt.retransmission = decide (0 < attemptIndex) ∧
      attempt.Storable := by
  obtain ⟨_, _, _, hread⟩ := run_bind_eq_ok hread
  obtain ⟨_, _, _, hread⟩ := run_bind_eq_ok hread
  obtain ⟨_, _, _, hread⟩ := run_bind_eq_ok hread
  obtain ⟨_, _, hread⟩ := run_guard_eq_ok hread
  obtain ⟨_, hanswered, hread⟩ := run_guard_eq_ok hread
  obtain ⟨_, _, _, hread⟩ := run_bind_eq_ok hread
  obtain ⟨_, _, hwritten, hread⟩ := run_bind_eq_ok hread
  obtain ⟨_, _, hended, hread⟩ := run_bind_eq_ok hread
  obtain ⟨_, hcoherent, hread⟩ := run_guard_eq_ok hread
  cases hread
  rw [refuseIf_eq_ok] at hanswered hcoherent
  refine ⟨rfl, rfl, hanswered, hcoherent, ?_, ?_⟩
  · intro reading hreading
    exact stampRead_lt hreading (number_lt hwritten)
  · intro reading hreading
    exact stampRead_lt hreading (number_lt hended)

theorem restoreAttempts_eq_ok {first : ℕ}
    (hread : (restoreAttempts revision count first).run input = .ok (attempts, rest)) :
    attempts.length = count ∧
      (∀ index attempt, attempts[index]? = some attempt →
        attempt.attemptIndex = first + index ∧
          attempt.retransmission = decide (0 < first + index)) ∧
      ∀ attempt ∈ attempts, attempt.Storable := by
  induction count generalizing first input attempts with
  | zero =>
    cases hread
    simp
  | succ _ ih =>
    obtain ⟨attempt, _, hfirst, hread⟩ := run_bind_eq_ok hread
    obtain ⟨_, _, hothers, hread⟩ := run_bind_eq_ok hread
    cases hread
    obtain ⟨hposition, hretransmission, hstorable⟩ := restoreAttempt_eq_ok hfirst
    obtain ⟨hlength, hpositions, hall⟩ := ih hothers
    refine ⟨by simp [hlength], ?_, ?_⟩
    · intro index other hother
      cases index with
      | zero =>
        cases hother
        exact ⟨hposition, hretransmission⟩
      | succ index =>
        have hlater := hpositions _ _ hother
        rwa [show first + 1 + index = first + (index + 1) by omega] at hlater
    · intro other hother
      rcases List.mem_cons.mp hother with rfl | hother
      · exact hstorable
      · exact hall _ hother

/-- A record that `restore` accepts is pending and can be restored again. -/
theorem restoreRecord_eq_ok {record : TransactionRecord}
    (hread : (restoreRecord config revision).run input = .ok (record, rest)) :
    Restorable config record ∧ record.isPending = true ∧
      record.completionDeliveryAcknowledged = false := by
  obtain ⟨_, _, _, hread⟩ := run_bind_eq_ok hread
  obtain ⟨_, _, _, hread⟩ := run_bind_eq_ok hread
  obtain ⟨_, hgeneration, hread⟩ := run_guard_eq_ok hread
  obtain ⟨_, _, _, hread⟩ := run_bind_eq_ok hread
  obtain ⟨_, _, _, hread⟩ := run_bind_eq_ok hread
  obtain ⟨_, _, hread⟩ := run_guard_eq_ok hread
  obtain ⟨_, _, _, hread⟩ := run_bind_eq_ok hread
  obtain ⟨_, _, _, hread⟩ := run_bind_eq_ok hread
  obtain ⟨_, _, hread⟩ := run_guard_eq_ok hread
  obtain ⟨_, _, _, hread⟩ := run_bind_eq_ok hread
  obtain ⟨_, hcount, hread⟩ := run_guard_eq_ok hread
  obtain ⟨_, hlimit, hread⟩ := run_guard_eq_ok hread
  obtain ⟨attempts, _, hattempts, hread⟩ := run_bind_eq_ok hread
  obtain ⟨_, _, _, hread⟩ := run_bind_eq_ok hread
  obtain ⟨_, _, hread⟩ := run_guard_eq_ok hread
  obtain ⟨_, _, _, hread⟩ := run_bind_eq_ok hread
  obtain ⟨_, hinspected, hread⟩ := run_guard_eq_ok hread
  cases hread
  rw [refuseIf_eq_ok] at hgeneration hcount hlimit
  obtain ⟨hlength, hpositions, hstorable⟩ := restoreAttempts_eq_ok hattempts
  refine ⟨⟨not_not.mp hgeneration, ?_, ?_, ?_, hstorable, hinspected⟩, rfl, rfl⟩
  · rintro hempty
    change attempts = [] at hempty
    rw [hempty] at hlength
    exact hcount hlength.symm
  · change attempts.length ≤ _
    omega
  · intro _ _ hattempt
    simpa using hpositions _ _ hattempt

end Records

namespace PendingRequestTable

open TransactionRecord

variable {table next : PendingRequestTable} {record : TransactionRecord}

theorem indexRestoredAttempts_eq_ok {token : CompletionTokenValue}
    {index result : Table AttemptId CompletionTokenValue}
    (hindex : attempts.foldlM (indexRestoredAttempt token) index = .ok result) :
    (attempts.map (·.attemptId)).Nodup ∧
      (∀ id ∈ attempts.map (·.attemptId), index.find id = none) ∧
      ∀ id, result.find id =
        if id ∈ attempts.map (·.attemptId) then some token else index.find id := by
  induction attempts generalizing index with
  | nil =>
    cases hindex
    simp
  | cons attempt rest ih =>
    obtain ⟨_, hfirst, hrest⟩ := bind_eq_ok hindex
    obtain ⟨_, hnew, hfirst⟩ := bind_eq_ok hfirst
    cases hfirst
    obtain ⟨hnodup, habsent, hresult⟩ := ih hrest
    have hfresh : attempt.attemptId ∉ rest.map (·.attemptId) := by
      intro hmem
      have hnone := habsent _ hmem
      simp at hnone
    refine ⟨List.nodup_cons.mpr ⟨hfresh, hnodup⟩, ?_, ?_⟩
    · intro id hid
      rcases List.mem_cons.mp hid with rfl | hid
      · simpa using hnew
      · have hnone := habsent id hid
        rw [Table.find_insert] at hnone
        split at hnone
        · cases hnone
        · exact hnone
    · intro id
      rw [hresult]
      by_cases hid : id = attempt.attemptId <;> simp [hid]

theorem indexRestoredRecord_eq_ok (hok : table.indexRestoredRecord record = .ok next) :
    table.records.find record.tokenValue = none ∧
      table.pendingEndToEnd.find record.endToEndIdentifier = none ∧
      record.attemptIds.Nodup ∧ (∀ id ∈ record.attemptIds, table.attemptIndex.find id = none) ∧
      ∃ attemptIndex : Table AttemptId CompletionTokenValue,
        (∀ id, attemptIndex.find id =
          if id ∈ record.attemptIds then some record.tokenValue else table.attemptIndex.find id) ∧
        next = { table with
          attemptIndex := attemptIndex
          pendingEndToEnd :=
            table.pendingEndToEnd.insert record.endToEndIdentifier record.tokenValue
          records := table.records.insert record.tokenValue record } := by
  obtain ⟨hunused, hok⟩ := refuseIf_bind hok
  obtain ⟨attemptIndex, hattempts, hok⟩ := bind_eq_ok hok
  cases hok
  rw [not_or] at hunused
  obtain ⟨hnodup, habsent, hfind⟩ := indexRestoredAttempts_eq_ok hattempts
  exact ⟨by simpa using hunused.1, by simpa using hunused.2, hnodup, habsent,
    attemptIndex, hfind, rfl⟩

/-- What every restored record preserves, the restore loop preserves. -/
theorem restoreRecords_induction {Inv : ℕ → PendingRequestTable → Prop}
    (hstep : ∀ count table record next, Inv (count + 1) table → Restorable table.config record →
      record.isPending = true → record.completionDeliveryAcknowledged = false →
      table.indexRestoredRecord record = .ok next →
      Inv count { next with pendingCount := next.pendingCount + 1 }) (hstart : Inv count table)
    (hread : (restoreRecords revision count table).run input = .ok (next, rest)) : Inv 0 next := by
  induction count generalizing table input with
  | zero =>
    cases hread
    exact hstart
  | succ _ ih =>
    obtain ⟨record, _, hrecord, hread⟩ := run_bind_eq_ok hread
    obtain ⟨_, hindex, hread⟩ := run_guard_eq_ok hread
    obtain ⟨hrestorable, hpending, hopen⟩ := restoreRecord_eq_ok hrecord
    exact ih (hstep _ _ _ _ hstart hrestorable hpending hopen hindex) hread

/-- The table in the middle of a restore, with `count` records to come. -/
structure Restoring (count : ℕ) (table : PendingRequestTable) : Prop where
  sound : table.Sound
  paired : table.Paired
  connections : table.connections = .empty
  unacknowledged : table.unacknowledgedCompletionCount = 0
  room : table.pendingCount + count ≤ table.config.maxPendingTransactions
  restorable : ∀ token record, table.records.find token = some record →
    Restorable table.config record ∧ record.isPending = true

theorem Restoring.new (config : PendingRequestTableConfig) (checkpoint : SnapshotCheckpoint)
    {count : ℕ} (hcount : count ≤ config.maxPendingTransactions) :
    Restoring count (restoring config checkpoint) where
  sound := by
    refine ⟨⟨?_, ?_, ?_, ?_⟩, ⟨rfl, rfl, rfl, ?_⟩, ⟨Nat.zero_le _, Nat.zero_le _⟩⟩ <;>
      simp [restoring, PendingRequestTable.new]
  paired := by
    constructor <;> simp [restoring, PendingRequestTable.new]
  connections := rfl
  unacknowledged := rfl
  room := by
    change 0 + count ≤ config.maxPendingTransactions
    omega
  restorable := by simp [restoring, PendingRequestTable.new]

theorem Restoring.step (hrestoring : Restoring (count + 1) table)
    (hrestorable : Restorable table.config record) (hpending : record.isPending = true)
    (hopen : record.completionDeliveryAcknowledged = false)
    (hindex : table.indexRestoredRecord record = .ok next) :
    Restoring count { next with pendingCount := next.pendingCount + 1 } := by
  obtain ⟨habsent, hunused, hnodup, hnew, attemptIndex, hfind, rfl⟩ :=
    indexRestoredRecord_eq_ok hindex
  obtain ⟨attempt, _⟩ := List.exists_mem_of_ne_nil _ hrestorable.nonempty
  have hsound := hrestoring.sound
  have hroom := hrestoring.room
  have hzero := hrestoring.unacknowledged
  obtain ⟨hcounted, hbounded⟩ := hsound.enter_counted habsent hpending attempt hopen (by omega)
  have hpaired := hrestoring.paired.enterRecord habsent hpending attempt <| by
    intro token kept hkept hsame
    have hkeptPending := (hrestoring.restorable _ _ hkept).2
    have hentry := (hrestoring.paired.indexed _ _).mpr ⟨kept, hkept, hkeptPending, rfl⟩
    rw [hsame, hunused] at hentry
    cases hentry
  refine ⟨⟨⟨?_, ?_, ?_, ?_⟩, { hcounted with }, ⟨hbounded.pending, hbounded.retained⟩⟩,
    ⟨hpaired.indexed, hpaired.unique⟩, hrestoring.connections, hzero, ?_, ?_⟩
  · intro token kept hkept
    rw [Table.find_insert] at hkept
    split at hkept
    · next htoken =>
      cases hkept
      exact htoken.symm
    · exact hsound.linked.keyed _ _ hkept
  · intro id token
    rw [hfind, Table.find_insert]
    by_cases htoken : token = record.tokenValue
    · subst htoken
      have hnone : ∀ owner, table.attemptIndex.find id = some owner →
          owner ≠ record.tokenValue := by
        rintro owner howner rfl
        obtain ⟨kept, hkept, _⟩ := (hsound.linked.indexed id _).mp howner
        rw [habsent] at hkept
        cases hkept
      by_cases hid : id ∈ record.attemptIds
      · simp [hid]
      · simp only [hid, if_true, Option.some.injEq, exists_eq_left', iff_false]
        intro howner
        exact hnone _ howner rfl
    · rw [if_neg htoken, ← hsound.linked.indexed]
      by_cases hid : id ∈ record.attemptIds
      · rw [hnew id hid]
        simp [Ne.symm htoken]
      · rw [if_neg hid]
  · intro token kept hkept
    rw [Table.find_insert] at hkept
    split at hkept
    · cases hkept
      exact hnodup
    · exact hsound.linked.distinct _ _ hkept
  · intro _ _ hentry
    rw [hrestoring.connections] at hentry
    cases hentry
  · dsimp only
    omega
  · intro token kept hkept
    rw [Table.find_insert] at hkept
    split at hkept
    · cases hkept
      exact ⟨hrestorable, hpending⟩
    · exact hrestoring.restorable _ _ hkept

/-- A table that `restore` accepts is indexed exactly, and every record of it
can be restored again. -/
theorem restore_restoring {bytes : List Byte} {expected : SnapshotCheckpoint}
    (hok : restore bytes expected config = .ok table) : Restoring 0 table := by
  obtain ⟨_, _, hok⟩ := bind_eq_ok hok
  obtain ⟨⟨_, _⟩, hread, hok⟩ := bind_eq_ok hok
  obtain ⟨_, _, hok⟩ := bind_eq_ok hok
  cases hok
  obtain ⟨_, _, _, hread⟩ := run_bind_eq_ok hread
  obtain ⟨_, _, hread⟩ := run_guard_eq_ok hread
  obtain ⟨_, _, _, hread⟩ := run_bind_eq_ok hread
  obtain ⟨_, _, hread⟩ := run_guard_eq_ok hread
  obtain ⟨epoch, _, _, hread⟩ := run_bind_eq_ok hread
  obtain ⟨_, _, hread⟩ := run_guard_eq_ok hread
  obtain ⟨revision, _, _, hread⟩ := run_bind_eq_ok hread
  obtain ⟨_, _, hread⟩ := run_guard_eq_ok hread
  obtain ⟨_, _, hread⟩ := run_guard_eq_ok hread
  obtain ⟨_, _, _, hread⟩ := run_bind_eq_ok hread
  obtain ⟨_, hcount, hread⟩ := run_guard_eq_ok hread
  rw [refuseIf_eq_ok, not_lt] at hcount
  apply restoreRecords_induction _ (Restoring.new _ ⟨epoch, revision⟩ hcount) hread
  intro _ table _ _ hrestoring hrestorable hpending hopen hindex
  exact hrestoring.step hrestorable hpending hopen hindex

theorem Starts.exact (hstart : Starts table) :
    table.Sound ∧ table.Paired ∧ ∀ token record, table.records.find token = some record →
      Restorable table.config record ∧ record.isPending = true := by
  cases hstart with
  | new config epoch =>
    have hnew := Restoring.new config ⟨epoch, ⟨1, by decide⟩⟩ (Nat.zero_le _)
    have hsound := hnew.sound
    refine ⟨⟨{ hsound.linked with }, { hsound.counted with }, { hsound.bounded with }⟩,
      { hnew.paired with }, ?_⟩
    intro token record hfind
    cases hfind
  | restored hrestore =>
    have hrestored := restore_restoring hrestore
    exact ⟨hrestored.sound, hrestored.paired, hrestored.restorable⟩

end PendingRequestTable

end PacketCore.Diameter
