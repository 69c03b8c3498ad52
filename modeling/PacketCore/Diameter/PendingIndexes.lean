import PacketCore.Diameter.PendingOutcome

/-!
# The indexes and counters of the pending-request table

The attempt index holds the attempts of retained records, the counters equal
the numbers they name, and the live attempts of a connection are the attempts
that refer to it.  These hold after any operations.  The End-to-End index is
exact as long as no request reuses the identifier of a retained completed
record: removing a record clears the entry of its identifier, whoever owns it.
-/

namespace PacketCore.Diameter

open List

namespace TransactionRecord

variable (record : TransactionRecord)

def attemptIds : List AttemptId :=
  record.attempts.map (·.attemptId)

def pendingWeight : ℕ := if record.isPending then 1 else 0

def completedWeight : ℕ := if record.isPending then 0 else 1

/-- Completed, and its delivery not acknowledged. -/
def unacknowledgedWeight : ℕ :=
  if record.isPending ∨ record.completionDeliveryAcknowledged then 0 else 1

/-- Completed, and its delivery acknowledged. -/
def acknowledgedWeight : ℕ :=
  if ¬ record.isPending ∧ record.completionDeliveryAcknowledged then 1 else 0

/-- Attempts of the record on one connection. -/
def attemptsOn (connection : ConnectionToken) (record : TransactionRecord) : ℕ :=
  record.attemptIds.countP (·.connection = connection)

/-- The two records agree on what the indexes and counters read. -/
structure SameShape (left right : TransactionRecord) : Prop where
  tokenValue : left.tokenValue = right.tokenValue
  endToEndIdentifier : left.endToEndIdentifier = right.endToEndIdentifier
  attemptIds : left.attemptIds = right.attemptIds
  isPending : left.isPending = right.isPending
  acknowledged : left.completionDeliveryAcknowledged = right.completionDeliveryAcknowledged

theorem SameShape.refl : SameShape record record :=
  ⟨rfl, rfl, rfl, rfl, rfl⟩

theorem sameShape_editAttempt (index : ℕ) {edit : AttemptEvidence → AttemptEvidence}
    (hedit : ∀ attempt, (edit attempt).attemptId = attempt.attemptId) :
    SameShape record (record.editAttempt index edit) where
  tokenValue := rfl
  endToEndIdentifier := rfl
  attemptIds := by
    apply ext_getElem?
    intro position
    simp only [attemptIds, editAttempt, getElem?_map, getElem?_modify]
    cases record.attempts[position]? with
    | none => rfl
    | some =>
      split
      · simp [hedit]
      · rfl
  isPending := rfl
  acknowledged := rfl

theorem sameShape_editAttempts (test : AttemptEvidence → Bool)
    {edit : AttemptEvidence → AttemptEvidence}
    (hedit : ∀ attempt, (edit attempt).attemptId = attempt.attemptId) :
    SameShape record (record.editAttempts test edit) where
  tokenValue := rfl
  endToEndIdentifier := rfl
  attemptIds := by
    simp only [attemptIds, editAttempts, map_map]
    apply map_congr_left
    intro attempt _
    simp only [Function.comp_apply]
    split
    · rw [hedit]
    · rfl
  isPending := rfl
  acknowledged := rfl

end TransactionRecord

variable {Rel : TransactionRecord → TransactionRecord → Prop}
  {edit : TransactionRecord → TransactionRecord} {record : TransactionRecord}
  {token : CompletionTokenValue} {weight : TransactionRecord → ℕ}

namespace PendingRequestTable

open TransactionRecord

variable {table next : PendingRequestTable}

/-- Attempts are indexed by their identity and counted on their connection. -/
structure Linked (table : PendingRequestTable) : Prop where
  keyed : ∀ token record, table.records.find token = some record → record.tokenValue = token
  indexed : ∀ id token, table.attemptIndex.find id = some token ↔
    ∃ record, table.records.find token = some record ∧ id ∈ record.attemptIds
  distinct : ∀ token record, table.records.find token = some record → record.attemptIds.Nodup
  live : ∀ connection entry, table.connections.find connection = some entry →
    entry.liveAttempts = table.records.total (attemptsOn connection)

/-- The counters equal the numbers they name. -/
structure Counted (table : PendingRequestTable) : Prop where
  pending : table.pendingCount = table.records.total pendingWeight
  completed : table.completedCount = table.records.total completedWeight
  unacknowledged : table.unacknowledgedCompletionCount =
    table.records.total unacknowledgedWeight + table.suppressedDeliveries.keys.card
  awaiting : ∀ token record, table.records.find token = some record →
    record.isPending = true → record.completionDeliveryAcknowledged = false

/-- The configured bounds hold. -/
structure Bounded (table : PendingRequestTable) : Prop where
  pending : table.pendingCount + table.unacknowledgedCompletionCount ≤
    table.config.maxPendingTransactions
  retained : table.records.total acknowledgedWeight ≤ table.config.maxRetainedCompletions

/-- The End-to-End index is exact, and no two retained records share one. -/
structure Paired (table : PendingRequestTable) : Prop where
  indexed : ∀ id token, table.pendingEndToEnd.find id = some token ↔
    ∃ record, table.records.find token = some record ∧ record.isPending = true ∧
      record.endToEndIdentifier = id
  unique : ∀ left right leftRecord rightRecord, table.records.find left = some leftRecord →
    table.records.find right = some rightRecord →
    leftRecord.endToEndIdentifier = rightRecord.endToEndIdentifier → left = right

/-- The edit changes nothing that the indexes and counters are about. -/
structure Quiet (table next : PendingRequestTable) : Prop where
  config : next.config = table.config
  records : ∀ token, Option.Rel SameShape (table.records.find token) (next.records.find token)
  suppressed : next.suppressedDeliveries = table.suppressedDeliveries
  attemptIndex : next.attemptIndex = table.attemptIndex
  pendingEndToEnd : next.pendingEndToEnd = table.pendingEndToEnd
  live : ∀ connection, (next.connections.find connection).map (·.liveAttempts) =
    (table.connections.find connection).map (·.liveAttempts)
  pendingCount : next.pendingCount = table.pendingCount
  unacknowledged : next.unacknowledgedCompletionCount = table.unacknowledgedCompletionCount
  completedCount : next.completedCount = table.completedCount

section Related

variable (hrecords : ∀ token, Option.Rel Rel (table.records.find token) (next.records.find token))

include hrecords

/-- Records of the same tokens, each related to the one it came from. -/
theorem keys_eq_of_rel : next.records.keys = table.records.keys := by
  ext token
  rw [Table.mem_keys_iff, Table.mem_keys_iff]
  have hrel := hrecords token
  generalize table.records.find token = left at hrel ⊢
  generalize next.records.find token = right at hrel ⊢
  cases hrel <;> simp

/-- A weight that related records share has the same total. -/
theorem total_eq_of_rel
    (hweight : ∀ left right, Rel left right → weight left = weight right) :
    next.records.total weight = table.records.total weight := by
  apply Table.total_eq_of_weightAt (keys_eq_of_rel hrecords)
  intro token
  unfold Table.weightAt
  have hrel := hrecords token
  generalize table.records.find token = left at hrel ⊢
  generalize next.records.find token = right at hrel ⊢
  cases hrel with
  | none => rfl
  | some hrel => simp [hweight _ _ hrel]

/-- The record a record came from. -/
theorem find_of_rel (hfind : next.records.find token = some record) :
    ∃ old, table.records.find token = some old ∧ Rel old record := by
  have hrel := hrecords token
  rw [hfind] at hrel
  generalize table.records.find token = left at hrel ⊢
  cases hrel with
  | some hrel => exact ⟨_, rfl, hrel⟩

/-- The record a record became. -/
theorem find_of_rel' (hfind : table.records.find token = some record) :
    ∃ new, next.records.find token = some new ∧ Rel record new := by
  have hrel := hrecords token
  rw [hfind] at hrel
  generalize next.records.find token = right at hrel ⊢
  cases hrel with
  | some hrel => exact ⟨_, rfl, hrel⟩

end Related

theorem rel_mono {Rel' : TransactionRecord → TransactionRecord → Prop}
    {left right : Option TransactionRecord}
    (hmono : ∀ {left right}, Rel left right → Rel' left right)
    (hrel : Option.Rel Rel left right) : Option.Rel Rel' left right := by
  cases hrel with
  | none => exact .none
  | some hrel => exact .some (hmono hrel)

theorem rel_modify (hrefl : ∀ record, Rel record record)
    (records : Table CompletionTokenValue TransactionRecord) (token : CompletionTokenValue)
    (hedit : ∀ record, records.find token = some record → Rel record (edit record))
    (other : CompletionTokenValue) :
    Option.Rel Rel (records.find other) ((records.modify token edit).find other) := by
  rw [Table.find_modify]
  by_cases hother : other = token
  · subst hother
    rw [if_pos rfl]
    cases hfind : records.find other with
    | none => exact .none
    | some => exact .some (hedit _ hfind)
  · rw [if_neg hother]
    cases records.find other with
    | none => exact .none
    | some => exact .some (hrefl _)

theorem rel_mapValues (records : Table CompletionTokenValue TransactionRecord)
    (hedit : ∀ record, Rel record (edit record)) (token : CompletionTokenValue) :
    Option.Rel Rel (records.find token) ((records.mapValues edit).find token) := by
  rw [Table.find_mapValues]
  cases records.find token with
  | none => exact .none
  | some => exact .some (hedit _)

theorem rel_refl (hrefl : ∀ record, Rel record record)
    (found : Option TransactionRecord) : Option.Rel Rel found found := by
  cases found with
  | none => exact .none
  | some => exact .some (hrefl _)

theorem Linked.congr (hlinked : table.Linked)
    (hrecords : ∀ token, Option.Rel
      (fun left right => left.tokenValue = right.tokenValue ∧ left.attemptIds = right.attemptIds)
      (table.records.find token) (next.records.find token))
    (hindex : next.attemptIndex = table.attemptIndex)
    (hlive : ∀ connection, (next.connections.find connection).map (·.liveAttempts) =
      (table.connections.find connection).map (·.liveAttempts)) : next.Linked where
  keyed := by
    intro token record hfind
    obtain ⟨old, hold, htoken, _⟩ := find_of_rel hrecords hfind
    exact htoken ▸ hlinked.keyed _ _ hold
  indexed := by
    intro _ token
    rw [hindex, hlinked.indexed]
    constructor
    · rintro ⟨record, hfind, hid⟩
      obtain ⟨new, hnew, _, hids⟩ := find_of_rel' hrecords hfind
      exact ⟨new, hnew, hids ▸ hid⟩
    · rintro ⟨record, hfind, hid⟩
      obtain ⟨old, hold, _, hids⟩ := find_of_rel hrecords hfind
      exact ⟨old, hold, hids.symm ▸ hid⟩
  distinct := by
    intro token record hfind
    obtain ⟨old, hold, _, hids⟩ := find_of_rel hrecords hfind
    exact hids ▸ hlinked.distinct _ _ hold
  live := by
    intro connection _ hentry
    have hsame := hlive connection
    rw [hentry] at hsame
    obtain ⟨old, hold, hcount⟩ := Option.map_eq_some_iff.mp hsame.symm
    have htotal : next.records.total (attemptsOn connection) =
        table.records.total (attemptsOn connection) :=
      total_eq_of_rel hrecords fun left right hrel => by rw [attemptsOn, attemptsOn, hrel.2]
    rw [htotal, ← hlinked.live _ _ hold, hcount]

section

variable (hquiet : Quiet table next)
include hquiet

theorem Quiet.linked (hlinked : table.Linked) : next.Linked :=
  hlinked.congr
    (fun token => rel_mono (fun hshape => ⟨hshape.tokenValue, hshape.attemptIds⟩)
      (hquiet.records token)) hquiet.attemptIndex hquiet.live

theorem Quiet.total
    (hweight : ∀ left right, SameShape left right → weight left = weight right) :
    next.records.total weight = table.records.total weight :=
  total_eq_of_rel hquiet.records hweight

theorem Quiet.counted (hcounted : table.Counted) : next.Counted where
  pending := by
    rw [hquiet.pendingCount, hcounted.pending]
    exact (hquiet.total fun _ _ hshape => by
      rw [pendingWeight, pendingWeight, hshape.isPending]).symm
  completed := by
    rw [hquiet.completedCount, hcounted.completed]
    exact (hquiet.total fun _ _ hshape => by
      rw [completedWeight, completedWeight, hshape.isPending]).symm
  unacknowledged := by
    rw [hquiet.unacknowledged, hcounted.unacknowledged, hquiet.suppressed, hquiet.total]
    intro _ _ hshape
    rw [unacknowledgedWeight, unacknowledgedWeight, hshape.isPending, hshape.acknowledged]
  awaiting := by
    intro _ _ hfind hpending
    obtain ⟨_, hold, hshape⟩ := find_of_rel hquiet.records hfind
    rw [← hshape.acknowledged]
    exact hcounted.awaiting _ _ hold (hshape.isPending.trans hpending)

theorem Quiet.bounded (hbounded : table.Bounded) : next.Bounded where
  pending := by
    rw [hquiet.pendingCount, hquiet.unacknowledged, hquiet.config]
    exact hbounded.pending
  retained := by
    rw [hquiet.config, hquiet.total]
    · exact hbounded.retained
    · intro _ _ hshape
      rw [acknowledgedWeight, acknowledgedWeight, hshape.isPending, hshape.acknowledged]

end

theorem Paired.congr (hpaired : table.Paired)
    (hrecords : ∀ token, Option.Rel (fun left right : TransactionRecord =>
      left.endToEndIdentifier = right.endToEndIdentifier ∧ left.isPending = right.isPending)
      (table.records.find token) (next.records.find token))
    (hindex : next.pendingEndToEnd = table.pendingEndToEnd) : next.Paired where
  indexed := by
    intro _ token
    rw [hindex, hpaired.indexed]
    constructor
    · rintro ⟨record, hfind, hpending, hid⟩
      obtain ⟨new, hnew, hsame, hstate⟩ := find_of_rel' hrecords hfind
      exact ⟨new, hnew, hstate ▸ hpending, hsame ▸ hid⟩
    · rintro ⟨record, hfind, hpending, hid⟩
      obtain ⟨old, hold, hsame, hstate⟩ := find_of_rel hrecords hfind
      exact ⟨old, hold, hstate.symm ▸ hpending, hsame.symm ▸ hid⟩
  unique := by
    intro left right _ _ hleft hright hids
    obtain ⟨_, holdLeft, hleftId, _⟩ := find_of_rel hrecords hleft
    obtain ⟨_, holdRight, hrightId, _⟩ := find_of_rel hrecords hright
    apply hpaired.unique _ _ _ _ holdLeft holdRight
    rw [hleftId, hrightId, hids]

theorem Quiet.paired (hquiet : Quiet table next) (hpaired : table.Paired) : next.Paired :=
  hpaired.congr
    (fun token => rel_mono (fun hshape => ⟨hshape.endToEndIdentifier, hshape.isPending⟩)
      (hquiet.records token)) hquiet.pendingEndToEnd

theorem foldl_unlinkAttempt (attempts : List AttemptEvidence) (table : PendingRequestTable) :
    attempts.foldl unlinkAttempt table =
      { table with
        attemptIndex := attempts.foldl (fun index attempt => index.erase attempt.attemptId)
          table.attemptIndex
        connections := attempts.foldl (fun connections attempt =>
          connections.modify attempt.connection fun entry =>
            { entry with liveAttempts := entry.liveAttempts - 1 }) table.connections } := by
  induction attempts generalizing table with
  | nil => rfl
  | cons _ _ ih => exact ih _

theorem find_foldl_unindex (attempts : List AttemptEvidence)
    (index : Table AttemptId CompletionTokenValue) (id : AttemptId) :
    (attempts.foldl (fun index attempt => index.erase attempt.attemptId) index).find id =
      if id ∈ attempts.map (·.attemptId) then none else index.find id := by
  induction attempts generalizing index with
  | nil => simp
  | cons attempt rest ih =>
    rw [foldl_cons, ih]
    by_cases hrest : id ∈ rest.map (·.attemptId)
    · simp [hrest]
    · by_cases hid : id = attempt.attemptId <;> simp [hrest]

theorem live_foldl_unlink (attempts : List AttemptEvidence)
    (connections : Table ConnectionToken ConnectionEntry) (connection : ConnectionToken) :
    ((attempts.foldl (fun connections attempt =>
      connections.modify attempt.connection fun entry =>
        { entry with liveAttempts := entry.liveAttempts - 1 }) connections).find connection).map
        (·.liveAttempts) =
      (connections.find connection).map fun entry =>
        entry.liveAttempts - (attempts.map (·.attemptId)).countP (·.connection = connection) := by
  induction attempts generalizing connections with
  | nil => simp
  | cons attempt _ ih =>
    rw [foldl_cons, ih, Table.find_modify, map_cons, countP_cons]
    by_cases hconnection : connection = attempt.connection
    · subst hconnection
      rw [if_pos rfl, Option.map_map]
      congr 1
      funext entry
      simp only [Function.comp_apply, AttemptEvidence.attemptId, decide_true, if_true]
      omega
    · rw [if_neg hconnection]
      have hother : ¬ attempt.attemptId.connection = connection := fun heq => hconnection heq.symm
      simp [hother]

@[simp]
theorem records_dropRecord :
    (table.dropRecord token record).records = table.records.erase token := by
  simp only [dropRecord, foldl_unlinkAttempt]
  split <;> rfl

@[simp]
theorem config_dropRecord : (table.dropRecord token record).config = table.config := by
  simp only [dropRecord, foldl_unlinkAttempt]
  split <;> rfl

@[simp]
theorem suppressedDeliveries_dropRecord :
    (table.dropRecord token record).suppressedDeliveries = table.suppressedDeliveries := by
  simp only [dropRecord, foldl_unlinkAttempt]
  split <;> rfl

@[simp]
theorem pendingEndToEnd_dropRecord :
    (table.dropRecord token record).pendingEndToEnd =
      table.pendingEndToEnd.erase record.endToEndIdentifier := by
  simp only [dropRecord, foldl_unlinkAttempt]
  split <;> rfl

theorem find_attemptIndex_dropRecord (id : AttemptId) :
    (table.dropRecord token record).attemptIndex.find id =
      if id ∈ record.attemptIds then none else table.attemptIndex.find id := by
  have hindex := find_foldl_unindex record.attempts table.attemptIndex id
  simp only [dropRecord, foldl_unlinkAttempt]
  split <;> exact hindex

variable (table token record) in
theorem live_dropRecord (connection : ConnectionToken) :
    ((table.dropRecord token record).connections.find connection).map
      (·.liveAttempts) = (table.connections.find connection).map fun entry =>
        entry.liveAttempts - attemptsOn connection record := by
  have hlive := live_foldl_unlink record.attempts table.connections connection
  simp only [dropRecord, foldl_unlinkAttempt]
  split <;> exact hlive

theorem pendingCount_dropRecord :
    (table.dropRecord token record).pendingCount = table.pendingCount - pendingWeight record := by
  simp only [dropRecord, foldl_unlinkAttempt, pendingWeight]
  split <;> rfl

theorem completedCount_dropRecord :
    (table.dropRecord token record).completedCount =
      table.completedCount - completedWeight record := by
  simp only [dropRecord, foldl_unlinkAttempt, completedWeight]
  split <;> rfl

theorem unacknowledged_dropRecord :
    (table.dropRecord token record).unacknowledgedCompletionCount =
      table.unacknowledgedCompletionCount - unacknowledgedWeight record := by
  simp only [dropRecord, foldl_unlinkAttempt, unacknowledgedWeight]
  cases record.isPending <;> cases record.completionDeliveryAcknowledged <;> rfl

/-- The rows that stay after a record is removed. -/
theorem find_erase_eq_some {other : CompletionTokenValue} {kept : TransactionRecord} :
    (table.records.erase token).find other = some kept ↔
      other ≠ token ∧ table.records.find other = some kept := by
  by_cases hother : other = token <;> simp [hother]

/-- The total over the records that stay. -/
theorem total_erase_of_find (weight : TransactionRecord → ℕ)
    (hfind : table.records.find token = some record) :
    (table.records.erase token).total weight + weight record = table.records.total weight := by
  have htotal := Table.total_erase table.records weight token
  rwa [Table.weightAt_of_find hfind] at htotal

section

variable (hfind : table.records.find token = some record)
include hfind

theorem Linked.dropRecord (hlinked : table.Linked) : (table.dropRecord token record).Linked where
  keyed := by
    intro other kept hkept
    rw [records_dropRecord, find_erase_eq_some] at hkept
    exact hlinked.keyed _ _ hkept.2
  indexed := by
    intro id other
    rw [find_attemptIndex_dropRecord, records_dropRecord]
    by_cases hid : id ∈ record.attemptIds
    · rw [if_pos hid]
      have howner := (hlinked.indexed id _).mpr ⟨record, hfind, hid⟩
      constructor
      · rintro ⟨⟩
      · rintro ⟨kept, hkept, hother⟩
        rw [find_erase_eq_some] at hkept
        have hindex := (hlinked.indexed id _).mpr ⟨kept, hkept.2, hother⟩
        rw [howner, Option.some.injEq] at hindex
        exact absurd hindex.symm hkept.1
    · rw [if_neg hid, hlinked.indexed]
      constructor
      · rintro ⟨kept, hkept, hmem⟩
        refine ⟨kept, find_erase_eq_some.mpr ⟨?_, hkept⟩, hmem⟩
        rintro rfl
        rw [hfind, Option.some.injEq] at hkept
        exact hid (hkept ▸ hmem)
      · rintro ⟨kept, hkept, hmem⟩
        exact ⟨kept, (find_erase_eq_some.mp hkept).2, hmem⟩
  distinct := by
    intro other kept hkept
    rw [records_dropRecord, find_erase_eq_some] at hkept
    exact hlinked.distinct _ _ hkept.2
  live := by
    intro connection _ hentry
    have hlive := live_dropRecord record token table connection
    rw [hentry] at hlive
    obtain ⟨_, hold, hcount⟩ := Option.map_eq_some_iff.mp hlive.symm
    have htotal := total_erase_of_find (attemptsOn connection) hfind
    have hbefore := hlinked.live _ _ hold
    dsimp only at hcount
    rw [records_dropRecord]
    omega

theorem Counted.dropRecord (hcounted : table.Counted) :
    (table.dropRecord token record).Counted where
  pending := by
    have htotal := total_erase_of_find pendingWeight hfind
    have := hcounted.pending
    rw [pendingCount_dropRecord, records_dropRecord]
    omega
  completed := by
    have htotal := total_erase_of_find completedWeight hfind
    have := hcounted.completed
    rw [completedCount_dropRecord, records_dropRecord]
    omega
  unacknowledged := by
    have htotal := total_erase_of_find unacknowledgedWeight hfind
    have := hcounted.unacknowledged
    rw [unacknowledged_dropRecord, records_dropRecord, suppressedDeliveries_dropRecord]
    omega
  awaiting := by
    intro other kept hkept
    rw [records_dropRecord, find_erase_eq_some] at hkept
    exact hcounted.awaiting other kept hkept.2

theorem Bounded.dropRecord (hbounded : table.Bounded) :
    (table.dropRecord token record).Bounded where
  pending := by
    have := hbounded.pending
    rw [pendingCount_dropRecord, unacknowledged_dropRecord, config_dropRecord]
    omega
  retained := by
    have htotal := total_erase_of_find acknowledgedWeight hfind
    have := hbounded.retained
    rw [records_dropRecord, config_dropRecord]
    omega

/-- Only the removed record had its End-to-End identifier. -/
theorem Paired.dropRecord (hpaired : table.Paired) :
    (table.dropRecord token record).Paired where
  indexed := by
    intro id _
    rw [pendingEndToEnd_dropRecord, records_dropRecord, Table.find_erase]
    by_cases hid : id = record.endToEndIdentifier
    · rw [if_pos hid]
      constructor
      · rintro ⟨⟩
      · rintro ⟨kept, hkept, _, hsame⟩
        rw [find_erase_eq_some] at hkept
        exact absurd (hpaired.unique _ _ _ _ hkept.2 hfind (hsame.trans hid)) hkept.1
    · rw [if_neg hid, hpaired.indexed]
      constructor
      · rintro ⟨kept, hkept, hpending, hsame⟩
        refine ⟨kept, find_erase_eq_some.mpr ⟨?_, hkept⟩, hpending, hsame⟩
        rintro rfl
        rw [hfind, Option.some.injEq] at hkept
        exact hid (hsame.symm.trans (hkept ▸ rfl))
      · rintro ⟨kept, hkept, hpending, hsame⟩
        exact ⟨kept, (find_erase_eq_some.mp hkept).2, hpending, hsame⟩
  unique := by
    intro _ _ _ _ hleft hright hsame
    rw [records_dropRecord, find_erase_eq_some] at hleft hright
    exact hpaired.unique _ _ _ _ hleft.2 hright.2 hsame

end

theorem mem_evictable {entry : ℕ ×ₗ CompletionTokenValue} :
    entry ∈ table.evictable ↔ ∃ record kind,
      table.records.find (ofLex entry).2 = some record ∧
        record.state = .completed kind (ofLex entry).1 ∧
        record.completionDeliveryAcknowledged = true := by
  unfold evictable
  rw [Finset.mem_biUnion]
  constructor
  · rintro ⟨_, _, hmem⟩
    split at hmem
    · simp at hmem
    · next record hfind =>
      split at hmem
      · simp at hmem
      · next kind _ hstate =>
        split at hmem
        · next hacknowledged =>
          rw [Finset.mem_singleton] at hmem
          subst hmem
          exact ⟨record, kind, hfind, hstate, hacknowledged⟩
        · simp at hmem
  · rintro ⟨record, kind, hfind, hstate, hacknowledged⟩
    refine ⟨(ofLex entry).2, Table.mem_keys_of_find hfind, ?_⟩
    simp only [hfind, hstate, hacknowledged, if_true, Finset.mem_singleton]
    rfl

/-- What the removal of acknowledged completed records preserves, the retention
loop preserves. -/
theorem evictCompletions_induction {Inv : PendingRequestTable → Prop} {liveUnacknowledged : ℕ}
    (hdrop : ∀ table token record evicted, Inv table → table.records.find token = some record →
      record.isPending = false → record.completionDeliveryAcknowledged = true →
      Inv { table.dropRecord token record with evictedCompletions := evicted })
    (turns : ℕ) (hstart : Inv table) : Inv (evictCompletions liveUnacknowledged turns table) := by
  induction turns generalizing table with
  | zero => exact hstart
  | succ _ ih =>
    unfold evictCompletions
    split
    · split
      · exact hstart
      · next _ holdest =>
        obtain ⟨record, _, hfind, hstate, hacknowledged⟩ :=
          mem_evictable.mp (leastOf_mem holdest)
        rw [removeRecord_of_find hfind]
        apply ih
        exact hdrop _ _ _ _ hstart hfind (by simp [isPending, hstate]) hacknowledged
    · exact hstart

theorem total_acknowledged_eq_zero (hnone : leastOf table.evictable = none) :
    table.records.total acknowledgedWeight = 0 := by
  apply Table.total_eq_zero
  intro token record hfind
  unfold acknowledgedWeight
  split
  · next hacknowledged =>
    obtain ⟨hcompleted, hacknowledged⟩ := hacknowledged
    cases hstate : record.state with
    | pending => exact absurd (by simp [isPending, hstate]) hcompleted
    | completed kind sequence =>
      have hmem : toLex (sequence, token) ∈ table.evictable :=
        mem_evictable.mpr ⟨record, kind, hfind, hstate, hacknowledged⟩
      rw [leastOf_eq_none.mp hnone] at hmem
      simp at hmem
  · rfl

theorem total_completed (records : Table CompletionTokenValue TransactionRecord) :
    records.total completedWeight =
      records.total unacknowledgedWeight + records.total acknowledgedWeight := by
  apply Table.total_add
  intro record
  unfold completedWeight unacknowledgedWeight acknowledgedWeight
  cases record.isPending <;> cases record.completionDeliveryAcknowledged <;> rfl

/-- The retention loop ends with the acknowledged records within their bound:
it never lacks a turn, because every turn removes a record. -/
theorem evictCompletions_retained {liveUnacknowledged turns : ℕ} (hcounted : table.Counted)
    (hlive : liveUnacknowledged = table.records.total unacknowledgedWeight)
    (hturns : table.records.keys.card ≤ turns) :
    (evictCompletions liveUnacknowledged turns table).records.total acknowledgedWeight ≤
      table.config.maxRetainedCompletions := by
  induction turns generalizing table with
  | zero =>
    have hempty : table.records.keys = ∅ := Finset.card_eq_zero.mp (Nat.le_zero.mp hturns)
    simp [evictCompletions, Table.total, hempty]
  | succ _ ih =>
    unfold evictCompletions
    split
    · split
      · next hnone => simp [total_acknowledged_eq_zero hnone]
      · next oldest holdest =>
        obtain ⟨record, _, hfind, _, hacknowledged⟩ :=
          mem_evictable.mp (leastOf_mem holdest)
        have hweight : unacknowledgedWeight record = 0 := by
          simp [unacknowledgedWeight, hacknowledged]
        have htotal := total_erase_of_find unacknowledgedWeight hfind
        have hcard := Finset.card_erase_lt_of_mem (Table.mem_keys_of_find hfind)
        have hdropped := hcounted.dropRecord hfind
        rw [removeRecord_of_find hfind]
        have hrest := @ih { table.dropRecord (ofLex oldest).2 record with
          evictedCompletions :=
            saturatingAdd (table.dropRecord (ofLex oldest).2 record).evictedCompletions 1 }
          { hdropped with }
          (by simp only [records_dropRecord]; omega)
          (by simp only [records_dropRecord, Table.keys_erase]; omega)
        exact hrest.trans_eq (by rw [config_dropRecord])
    · have hcompleted := hcounted.completed
      rw [total_completed] at hcompleted
      omega

variable (table) in
/-- What the loop leaves alone. -/
theorem evictCompletions_frame (liveUnacknowledged turns : ℕ) :
    (evictCompletions liveUnacknowledged turns table).config = table.config ∧
      (evictCompletions liveUnacknowledged turns table).pendingCount = table.pendingCount ∧
      (evictCompletions liveUnacknowledged turns table).unacknowledgedCompletionCount =
        table.unacknowledgedCompletionCount := by
  let Same : PendingRequestTable → Prop := fun next => next.config = table.config ∧
    next.pendingCount = table.pendingCount ∧
    next.unacknowledgedCompletionCount = table.unacknowledgedCompletionCount
  apply @evictCompletions_induction table Same
  · rintro next _ _ _ ⟨hconfig, hpending, hopen⟩ _ hcompleted hacknowledged
    simp only [config_dropRecord, pendingCount_dropRecord, unacknowledged_dropRecord,
      pendingWeight, unacknowledgedWeight, hcompleted, hacknowledged]
    exact ⟨hconfig, hpending, hopen⟩
  · exact ⟨rfl, rfl, rfl⟩

theorem Linked.enforce (hlinked : table.Linked) : table.enforceCompletionRetention.Linked := by
  apply evictCompletions_induction _ _ hlinked
  intro _ _ _ _ hnext hfind _ _
  exact { hnext.dropRecord hfind with }

theorem Counted.enforce (hcounted : table.Counted) : table.enforceCompletionRetention.Counted := by
  apply evictCompletions_induction _ _ hcounted
  intro _ _ _ _ hnext hfind _ _
  exact { hnext.dropRecord hfind with }

theorem Paired.enforce (hpaired : table.Paired) : table.enforceCompletionRetention.Paired := by
  apply evictCompletions_induction _ _ hpaired
  intro _ _ _ _ hnext hfind _ _
  exact { hnext.dropRecord hfind with }

theorem bounded_enforce (hcounted : table.Counted)
    (hpending : table.pendingCount + table.unacknowledgedCompletionCount ≤
      table.config.maxPendingTransactions) : table.enforceCompletionRetention.Bounded where
  pending := by
    obtain ⟨hconfig, hcount, hopen⟩ := evictCompletions_frame _ _ _
    unfold enforceCompletionRetention
    rw [hconfig, hcount, hopen]
    exact hpending
  retained := by
    have hunacknowledged := hcounted.unacknowledged
    unfold enforceCompletionRetention
    rw [(evictCompletions_frame _ _ _).1]
    exact evictCompletions_retained hcounted (by omega) le_rfl

end PendingRequestTable

end PacketCore.Diameter
