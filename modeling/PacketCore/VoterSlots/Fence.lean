import PacketCore.VoterSlots.Replacement
import PacketCore.VoterSlots.RoundTrip

/-!
# Fences of provisional retirements

A durable state follows one log: intents are appended with their log position, a
truncation removes a suffix, and every published table is the fold of the
committed entries up to its cut.  The target of a stored intent stays fenced
until its entry is truncated or a published cut shows that it had no effect; an
entry with effect moves the fence into the table, where it is permanent.
-/

namespace PacketCore.VoterSlots

open Sample List

/-! ## The committed log -/

/-- What an entry asks of the table; other entries do not concern it. -/
inductive LogPayload where
  | control (control : VoterSlotControl)
  | membership (configurations : List (Finset ConsensusNodeId)) (nodes : Finset ConsensusNodeId)
  | other

structure LogEntry where
  id : VoterSlotLogId
  payload : LogPayload

/-- The reservation an intent was appended for. -/
def VoterSlotIntent.entry (intent : VoterSlotIntent) : LogEntry :=
  ⟨intent.logId, .control (.begin intent.request)⟩

section

variable {op : VoterReplacementRecord} {sha256 : Sha256} {table base : VoterSlotTable}
  {node : ConsensusNodeId} {log : List LogEntry} {intent : VoterSlotIntent}

namespace VoterSlotTable

variable {entry : LogEntry} {entries : List LogEntry}

/-- The table after one entry; a refused entry changes nothing. -/
def applyEntry (sha256 : Sha256) (table : VoterSlotTable) (entry : LogEntry) : VoterSlotTable :=
  match entry.payload with
  | .control control => (table.step sha256 (.control control entry.id)).2
  | .membership configurations nodes =>
    (table.step sha256 (.membership configurations nodes entry.id)).2
  | .other => table

/-- The table after a list of entries. -/
def applyEntries (sha256 : Sha256) (table : VoterSlotTable) (entries : List LogEntry) :
    VoterSlotTable :=
  entries.foldl (applyEntry sha256) table

theorem isRetired_applyEntry (hretired : table.isRetired node = true) :
    (applyEntry sha256 table entry).isRetired node = true := by
  unfold applyEntry
  split
  · exact isRetired_step hretired
  · exact isRetired_step hretired
  · exact hretired

theorem isRetired_applyEntries (hretired : table.isRetired node = true) :
    (applyEntries sha256 table entries).isRetired node = true := by
  induction entries generalizing table with
  | nil => exact hretired
  | cons _ _ ih => exact ih (isRetired_applyEntry hretired)

/-- The replacement in progress has retired the incarnation it replaces. -/
theorem Valid.isRetired_target (hvalid : table.Valid) (hop : table.replacement = some op) :
    table.isRetired (VoterSlotIdentity.nodeId
      ⟨op.attestation.slot, op.attestation.expectedIncarnation⟩) = true := by
  have hoperation := hvalid.operation op hop
  obtain ⟨row, hrow, hslot⟩ := hoperation.targetRow
  have hrowValid := hoperation.rowsValid _ hrow
  have hmem : row.1.1 ∈ table.slots := (of_mem_zip (of_mem_zip hrow).1).1
  have hnext := (hrowValid.target hslot).1
  rw [← hrowValid.selected] at hnext
  have hvalue := VoterIncarnation.next_eq_ok hnext
  have hfloor := (hvalid.slotsValid _ hmem).floor
  rw [isRetired_iff]
  refine ⟨_, VoterSlotIdentity.fromNodeId_nodeId _, row.1.1, hmem, hslot, ?_⟩
  change op.attestation.expectedIncarnation.value ≤ row.1.1.retiredThrough.val
  omega

end VoterSlotTable

/-! ## Reservations with effect -/

/-- The committed log has the intent's entry, and it changed the table. -/
def Effective (sha256 : Sha256) (base : VoterSlotTable) (log : List LogEntry)
    (intent : VoterSlotIntent) : Prop :=
  ∃ earlier later, log = earlier ++ intent.entry :: later ∧
    (base.applyEntries sha256 (earlier ++ [intent.entry]) ≠ base.applyEntries sha256 earlier)

/-- What a reservation that changed the table shows. -/
theorem begin_effect {next : VoterSlotTable}
    (happly : (table.applyControl sha256 (.begin intent.request) intent.logId).2 = next)
    (hchanged : next ≠ table) :
    ∃ op, next.replacement = some op ∧ op.attestation = intent.request.attestation ∧
      intent.request.validate sha256 = .ok () ∧
      intent.logId.term ≠ 0 ∧ intent.logId.index ≠ 0 ∧ next.validateSuccessorOf table = .ok () := by
  have hstep : (table.step sha256 (.control (.begin intent.request) intent.logId)).2 = next :=
    happly
  obtain ⟨hproposed, hnext⟩ := VoterSlotTable.step_accepted (by
    by_contra hrefused
    exact hchanged (hstep ▸ VoterSlotTable.step_refused hrefused))
  rw [hstep] at hproposed hnext
  have hsuccessor := hnext.resolve_left hchanged
  have hposition : intent.logId.term ≠ 0 ∧ intent.logId.index ≠ 0 := by
    obtain ⟨_, _, hrest⟩ := bind_eq_ok hproposed
    obtain ⟨_, hposition, _⟩ := bind_eq_ok hrest
    rwa [refuseIf_eq_ok, not_or] at hposition
  change table.controlled sha256 (.begin intent.request) intent.logId = _ at hproposed
  cases (VoterSlotTable.controlled_cases hproposed).2 with
  | beginAgain => exact absurd rfl hchanged
  | begun _ _ _ _ hrequest =>
    exact ⟨_, rfl, rfl, hrequest, hposition.1, hposition.2, hsuccessor⟩

/-- A reservation with effect retires its target in every table at or past its position. -/
theorem Effective.isRetired {bound : Fin (2 ^ 64)} (heffect : Effective sha256 base log intent)
    (hlog : log.Pairwise fun earlier later => earlier.id.index < later.id.index)
    (hbound : intent.logId.index ≤ bound) :
    (base.applyEntries sha256 (log.filter fun entry => entry.id.index ≤ bound)).isRetired
      intent.target = true := by
  obtain ⟨earlier, later, rfl, hchanged⟩ := heffect
  -- the entries before the reservation are all kept by the filter
  have hkept : earlier.filter (fun entry => entry.id.index ≤ bound) = earlier := by
    rw [filter_eq_self]
    intro entry hentry
    have hless := (pairwise_append.mp hlog).2.2 entry hentry intent.entry mem_cons_self
    simpa using hless.le.trans hbound
  have hself : (intent.entry :: later).filter (fun entry => entry.id.index ≤ bound) =
      intent.entry :: later.filter (fun entry => entry.id.index ≤ bound) :=
    filter_cons_of_pos (decide_eq_true hbound)
  rw [filter_append, hkept, hself]
  unfold VoterSlotTable.applyEntries at hchanged ⊢
  rw [foldl_append] at hchanged
  rw [foldl_append, foldl_cons]
  refine VoterSlotTable.isRetired_applyEntries ?_
  obtain ⟨_, hop, hattestation, _, _, _, hsuccessor⟩ := begin_effect rfl hchanged
  have hvalid := VoterSlotTable.valid_of_validate (validateSuccessorOf_iff.mp hsuccessor).1
  have hretired := hvalid.isRetired_target hop
  rw [hattestation] at hretired
  exact hretired

/-! ## Operations of a durable state -/

inductive DurableInput where
  | append (intent : VoterSlotIntent) (before : VoterSlotTable)
  | truncate (firstIndex : Fin (2 ^ 64))
  | applied (cut : VoterSlotLogId)
  | snapshot (cut : VoterSlotLogId)

namespace VoterSlotDurableState

section Operations

variable (sha256 : Sha256) (base : VoterSlotTable) (log : List LogEntry)

/-- The fold of the committed entries up to a cut. -/
def tableAt (cut : VoterSlotLogId) : VoterSlotTable :=
  base.applyEntries sha256 (log.filter fun entry => entry.id.index ≤ cut.index)

/-- The state after one operation. -/
def perform (state : VoterSlotDurableState) : DurableInput → VoterSlotDurableState
  | .append intent before => (state.appendIntentAfterPrefix sha256 intent before).2
  | .truncate firstIndex => state.truncateFrom firstIndex
  | .applied cut => (state.publishApplied (tableAt sha256 base log cut) cut).2
  | .snapshot cut => (state.publishSnapshot (tableAt sha256 base log cut) cut).2

/-- The state after a list of operations. -/
def performAll (state : VoterSlotDurableState) (inputs : List DurableInput) :
    VoterSlotDurableState :=
  inputs.foldl (perform sha256 base log) state

/-- The operation publishes a cut at or past this index. -/
def Publishes (state : VoterSlotDurableState) (index : Fin (2 ^ 64)) (input : DurableInput) :
    Prop :=
  ∃ cut, (input = .applied cut ∨ input = .snapshot cut) ∧ index ≤ cut.index ∧
    (state.publish (tableAt sha256 base log cut) cut).1 = .ok ()

/-- Some operation of the list publishes a cut at or past this index. -/
def PublishedPast (state : VoterSlotDurableState) (index : Fin (2 ^ 64))
    (inputs : List DurableInput) : Prop :=
  ∃ earlier input later, inputs = earlier ++ input :: later ∧
    Publishes sha256 base log (performAll sha256 base log state earlier) index input

end Operations

/-- Some operation of the list truncates this index. -/
def TruncatedFrom (index : Fin (2 ^ 64)) (inputs : List DurableInput) : Prop :=
  ∃ firstIndex, DurableInput.truncate firstIndex ∈ inputs ∧ firstIndex ≤ index

/-! ## What one operation does -/

variable {state : VoterSlotDurableState}

/-- What a publication can do. -/
theorem publish_cases (state : VoterSlotDurableState) (table : VoterSlotTable)
    (cut : VoterSlotLogId) :
    ((state.publish table cut).1 ≠ .ok () ∧ (state.publish table cut).2 = state) ∨
    ((state.publish table cut).1 = .ok () ∧
      table.validateSuccessorOf state.table = .ok () ∧
      (state.publish table cut).2 =
        ⟨table, state.intent.filter fun intent => cut.index < intent.logId.index⟩) := by
  unfold publish
  cases hcheck : table.validateSuccessorOf state.table with
  | error => exact .inl ⟨nofun, rfl⟩
  | ok =>
    by_cases hposition : (cut.term = 0 ∧ (cut.index ≠ 0 ∨ table.revision ≠ 1)) ∨
        tableCutsWithin table cut = false
    · rw [if_pos hposition]
      exact .inl ⟨nofun, rfl⟩
    · rw [if_neg hposition]
      refine .inr ?_
      cases hintent : state.intent with
      | none => exact ⟨rfl, rfl, rfl⟩
      | some intent =>
        by_cases hindex : intent.logId.index ≤ cut.index <;> simp [hindex, Option.filter_some]

/-- What an append can do. -/
theorem append_cases (sha256 : Sha256) (state : VoterSlotDurableState)
    (intent : VoterSlotIntent) (before : VoterSlotTable) :
    (state.appendIntentAfterPrefix sha256 intent before).2 = state ∨
    (state.intent = none ∧
      (state.appendIntentAfterPrefix sha256 intent before).2 = ⟨state.table, some intent⟩ ∧
      before.validateSuccessorOf state.table = .ok () ∧
      (before.applyControl sha256 (.begin intent.request) intent.logId).2 ≠ before) := by
  unfold appendIntentAfterPrefix
  cases hcheck : before.validateSuccessorOf state.table with
  | error => exact .inl rfl
  | ok =>
    cases hintent : state.intent with
    | some =>
      refine .inl ?_
      simp only
      split <;> rfl
    | none =>
      simp only
      split
      · exact .inl rfl
      · next _ happly =>
        split
        · exact .inl rfl
        · refine .inr ⟨trivial, rfl, trivial, ?_⟩
          rwa [happly]

/-- The table moves only to a successor. -/
theorem perform_successor (state : VoterSlotDurableState) (input : DurableInput) :
    (perform sha256 base log state input).table = state.table ∨
      (perform sha256 base log state input).table.validateSuccessorOf state.table = .ok () := by
  have hpublish : ∀ table cut, (state.publish table cut).2.table = state.table ∨
      (state.publish table cut).2.table.validateSuccessorOf state.table = .ok () := by
    intro table cut
    rcases publish_cases _ _ _ with ⟨_, hsame⟩ | ⟨_, hsuccessor, hnext⟩
    · exact .inl (by rw [hsame])
    · exact .inr (by rw [hnext]; exact hsuccessor)
  cases input with
  | append =>
    rcases append_cases _ _ _ _ with hsame | ⟨_, hnext, _⟩
    · exact .inl (congrArg _ hsame)
    · exact .inl ((congrArg _ hnext).trans rfl)
  | truncate firstIndex =>
    refine .inl ?_
    change (state.truncateFrom firstIndex).table = state.table
    unfold truncateFrom
    split <;> rfl
  | applied | snapshot => exact hpublish _ _

theorem isRetired_perform (hretired : state.table.isRetired node = true) (input : DurableInput) :
    (perform sha256 base log state input).table.isRetired node = true := by
  rcases perform_successor _ _ with hsame | hsuccessor
  · rw [hsame]
    exact hretired
  · exact VoterSlotTable.isRetired_successor (validateSuccessorOf_iff.mp hsuccessor).2.2 hretired

theorem isRetired_performAll (hretired : state.table.isRetired node = true)
    (inputs : List DurableInput) :
    (performAll sha256 base log state inputs).table.isRetired node = true := by
  induction inputs generalizing state with
  | nil => exact hretired
  | cons _ _ ih => exact ih (isRetired_perform hretired _)

/-- A stored intent goes only by truncation or by a published cut at or past it,
and no other intent takes its place. -/
theorem intent_perform (hintent : state.intent = some intent) (input : DurableInput) :
    (perform sha256 base log state input).intent = some intent ∨
      ((perform sha256 base log state input).intent = none ∧
        (TruncatedFrom intent.logId.index [input] ∨
          Publishes sha256 base log state intent.logId.index input)) := by
  have hpublish : ∀ cut, (input = .applied cut ∨ input = .snapshot cut) →
      (state.publish (tableAt sha256 base log cut) cut).2.intent = some intent ∨
      ((state.publish (tableAt sha256 base log cut) cut).2.intent = none ∧
        Publishes sha256 base log state intent.logId.index input) := by
    intro cut hinput
    rcases publish_cases _ _ _ with ⟨_, hsame⟩ | ⟨haccepted, _, hnext⟩
    · exact .inl (by rw [hsame, hintent])
    · rw [hnext, hintent]
      by_cases hindex : cut.index < intent.logId.index
      · exact .inl (by simp [hindex])
      · have hpast : decide (cut.index < intent.logId.index) = false := decide_eq_false hindex
        exact .inr ⟨by simp [Option.filter_some, hpast], cut, hinput, not_lt.mp hindex, haccepted⟩
  cases input with
  | append =>
    rcases append_cases _ _ _ _ with hsame | ⟨hnone, _⟩
    · exact .inl ((congrArg _ hsame).trans hintent)
    · rw [hintent] at hnone
      cases hnone
  | truncate firstIndex =>
    change (state.truncateFrom firstIndex).intent = some intent ∨ _
    unfold truncateFrom
    by_cases hindex : firstIndex ≤ intent.logId.index
    · right
      refine ⟨?_, .inl ⟨firstIndex, mem_singleton_self _, hindex⟩⟩
      simp [perform, truncateFrom, hintent, hindex]
    · simp [hintent, hindex]
  | applied => exact (hpublish _ (.inl rfl)).imp_right (And.imp_right .inr)
  | snapshot => exact (hpublish _ (.inr rfl)).imp_right (And.imp_right .inr)

/-! ## Stored states are valid -/

theorem validateIntent_iff :
    validateIntent ⟨table, some intent⟩ sha256 = .ok () ↔
      intent.request.validate sha256 = .ok () ∧ intent.logId.term ≠ 0 ∧ intent.logId.index ≠ 0 ∧
        intent.request.attestation.clusterInstance = table.clusterInstance ∧
        intent.request.attestation.slot ∈ table.slots.map (·.slot) := by
  have hslots : table.slots.all (fun slot => slot.slot ≠ intent.request.attestation.slot) = true ↔
      intent.request.attestation.slot ∉ table.slots.map (·.slot) := by
    simp [all_eq_true]
  unfold validateIntent
  simp only [bind_eq_ok_iff, mapError_eq_ok, refuseIf_eq_ok, hslots, not_or, not_not]
  exact ⟨fun ⟨_, hrequest, hplace⟩ => ⟨hrequest, hplace⟩,
    fun ⟨hrequest, hplace⟩ => ⟨(), hrequest, hplace⟩⟩

/-- An intent that fits a table fits its successors. -/
theorem validateIntent_successor {next : VoterSlotTable} {intent : Option VoterSlotIntent}
    (hsuccessor : Successor next table) (hvalid : validateIntent ⟨table, intent⟩ sha256 = .ok ()) :
    validateIntent ⟨next, intent⟩ sha256 = .ok () := by
  cases intent with
  | none => rfl
  | some =>
    rw [validateIntent_iff] at hvalid ⊢
    rwa [hsuccessor.cluster, hsuccessor.map_slot_eq]

/-- The operation of a valid table is about the table's installation and one of its slots. -/
theorem operation_place (hvalid : table.validate = .ok ()) (hop : table.replacement = some op) :
    op.attestation.clusterInstance = table.clusterInstance ∧
      ∃ record ∈ table.slots, record.slot = op.attestation.slot := by
  have hoperation := (VoterSlotTable.valid_of_validate hvalid).operation op hop
  obtain ⟨row, hrow, hslot⟩ := hoperation.targetRow
  refine ⟨?_, row.1.1, (of_mem_zip (of_mem_zip hrow).1).1, hslot⟩
  obtain ⟨_, _, hok⟩ := bind_eq_ok hvalid
  iterate 4 obtain ⟨_, _, hok⟩ := bind_eq_ok hok
  rw [hop] at hok
  iterate 4 obtain ⟨_, _, hok⟩ := bind_eq_ok hok
  obtain ⟨_, hshape, _⟩ := bind_eq_ok hok
  exact (require_eq_ok.mp hshape).2.2.1

/-- An appended intent passes the check that a restart makes. -/
theorem validateIntent_appended {before : VoterSlotTable}
    (hbefore : before.validateSuccessorOf table = .ok ())
    (hchanged : (before.applyControl sha256 (.begin intent.request) intent.logId).2 ≠ before) :
    validateIntent ⟨table, some intent⟩ sha256 = .ok () := by
  obtain ⟨_, hop, hattestation, hrequest, hterm, hindex, hnext⟩ := begin_effect rfl hchanged
  obtain ⟨hnextValid, _, hnextSuccessor⟩ := validateSuccessorOf_iff.mp hnext
  obtain ⟨_, _, hsuccessor⟩ := validateSuccessorOf_iff.mp hbefore
  obtain ⟨hcluster, _, hrecord, hslot⟩ := operation_place hnextValid hop
  rw [hattestation] at hcluster hslot
  rw [validateIntent_iff, ← hsuccessor.cluster, ← hnextSuccessor.cluster,
    ← hsuccessor.map_slot_eq, ← hnextSuccessor.map_slot_eq]
  exact ⟨hrequest, hterm, hindex, hcluster, hslot ▸ mem_map_of_mem hrecord⟩

/-- What every reachable state keeps. -/
structure Sound (sha256 : Sha256) (state : VoterSlotDurableState) : Prop where
  table : state.table.validate = .ok ()
  intent : state.validateIntent sha256 = .ok ()

theorem Sound.perform (hsound : Sound sha256 state) (input : DurableInput) :
    Sound sha256 (perform sha256 base log state input) := by
  have hdropped : Sound sha256 ⟨state.table, none⟩ := ⟨hsound.table, rfl⟩
  have hpublish : ∀ table cut, Sound sha256 (state.publish table cut).2 := by
    intro table cut
    rcases publish_cases _ _ _ with ⟨_, hsame⟩ | ⟨_, hcheck, hnext⟩
    · rw [hsame]
      exact hsound
    · obtain ⟨hvalid, _, hsuccessor⟩ := validateSuccessorOf_iff.mp hcheck
      rw [hnext]
      refine ⟨hvalid, validateIntent_successor hsuccessor ?_⟩
      cases hfilter : state.intent.filter fun intent => cut.index < intent.logId.index with
      | none => rfl
      | some intent =>
        rw [← (Option.filter_eq_some_iff.mp hfilter).1]
        exact hsound.intent
  cases input with
  | append intent before =>
    change Sound sha256 (state.appendIntentAfterPrefix sha256 intent before).2
    rcases append_cases _ _ _ _ with hsame | ⟨_, hnext, hcheck, hchanged⟩
    · rw [hsame]
      exact hsound
    · rw [hnext]
      exact ⟨hsound.table, validateIntent_appended hcheck hchanged⟩
  | truncate firstIndex =>
    change Sound sha256 (state.truncateFrom firstIndex)
    unfold truncateFrom
    split
    · exact hdropped
    · exact hsound
  | applied | snapshot => exact hpublish _ _

theorem Sound.performAll (hsound : Sound sha256 state) (inputs : List DurableInput) :
    Sound sha256 (performAll sha256 base log state inputs) := by
  induction inputs generalizing state with
  | nil => exact hsound
  | cons _ _ ih => exact ih (hsound.perform _)

/-! ## Fences -/

theorem mem_engineFences_of_intent (hintent : state.intent = some intent)
    (members : Finset ConsensusNodeId) : intent.target ∈ state.engineFences members := by
  simp [engineFences, hintent]

theorem mem_engineFences_of_retired (hretired : state.table.isRetired node = true)
    {members : Finset ConsensusNodeId} (hmember : node ∈ members) :
    node ∈ state.engineFences members := by
  unfold engineFences
  cases state.intent <;> simp [hretired, hmember]

section

variable (heffect : Effective sha256 base log intent)
  (hlog : log.Pairwise fun earlier later => earlier.id.index < later.id.index)
include heffect hlog

/-- A published cut at or past a reservation with effect retires its target. -/
theorem isRetired_of_publishes {input : DurableInput}
    (hpublishes : Publishes sha256 base log state intent.logId.index input) :
    (perform sha256 base log state input).table.isRetired intent.target = true := by
  obtain ⟨cut, hinput, hindex, haccepted⟩ := hpublishes
  have hretired : (tableAt sha256 base log cut).isRetired intent.target = true :=
    heffect.isRetired hlog hindex
  have hperform : perform sha256 base log state input =
      (state.publish (tableAt sha256 base log cut) cut).2 := by
    rcases hinput with rfl | rfl <;> rfl
  rw [hperform]
  rcases publish_cases _ _ _ with ⟨hrefused, _⟩ | ⟨_, _, hnext⟩
  · exact absurd haccepted hrefused
  · rw [hnext]
    exact hretired

theorem isRetired_of_publishedPast {inputs : List DurableInput}
    (hpast : PublishedPast sha256 base log state intent.logId.index inputs) :
    (performAll sha256 base log state inputs).table.isRetired intent.target = true := by
  obtain ⟨earlier, _, later, rfl, hpublishes⟩ := hpast
  rw [performAll, foldl_append]
  exact isRetired_performAll (isRetired_of_publishes heffect hlog hpublishes) _

end

/-- Until something releases it, the intent is stored. -/
theorem intent_performAll (hintent : state.intent = some intent) (inputs : List DurableInput) :
    (performAll sha256 base log state inputs).intent = some intent ∨
      TruncatedFrom intent.logId.index inputs ∨
      PublishedPast sha256 base log state intent.logId.index inputs := by
  induction inputs generalizing state with
  | nil => exact .inl hintent
  | cons input inputs ih =>
    rcases intent_perform hintent input with
      hnext | ⟨_, ⟨firstIndex, hmem, hindex⟩ | hpublishes⟩
    · rcases ih hnext with hlast | ⟨firstIndex, hmem, hindex⟩ | hpast
      · exact .inl hlast
      · exact .inr (.inl ⟨firstIndex, mem_cons_of_mem _ hmem, hindex⟩)
      · obtain ⟨earlier, published, later, rfl, hpublishes⟩ := hpast
        exact .inr (.inr ⟨input :: earlier, published, later, rfl, hpublishes⟩)
    · rw [mem_singleton] at hmem
      exact .inr (.inl ⟨firstIndex, hmem ▸ mem_cons_self, hindex⟩)
    · exact .inr (.inr ⟨[], input, inputs, rfl, hpublishes⟩)

end VoterSlotDurableState

end

open VoterSlotDurableState in
/-- A provisional retirement never loses its fence.  Whatever is appended,
truncated and published after an intent was stored, its target stays fenced,
unless a truncation removed the entry or a published cut shows that the entry had
no effect; the retirement of an entry with effect is permanent, a stored intent
is never exchanged for another, and the state survives being stored. -/
theorem retirement_stays_fenced {postcard : Postcard} {sha256 : Sha256} {base : VoterSlotTable}
    {log : List LogEntry} (hlawful : postcard.Lawful) (hbase : base.validate = .ok ())
    (hlog : log.Pairwise fun earlier later => earlier.id.index < later.id.index)
    (before after : List DurableInput) {stored last : VoterSlotDurableState}
    (hstored : stored = performAll sha256 base log ⟨base, none⟩ before)
    (hlast : last = performAll sha256 base log stored after) :
    (∀ intent, stored.intent = some intent →
      (∀ members, intent.target ∈ members → intent.target ∈ last.engineFences members) ∨
        TruncatedFrom intent.logId.index after ∨
        (PublishedPast sha256 base log stored intent.logId.index after ∧
          ¬ Effective sha256 base log intent)) ∧
    (∀ intent, Effective sha256 base log intent →
      PublishedPast sha256 base log ⟨base, none⟩ intent.logId.index before →
      last.table.isRetired intent.target = true ∧
        ∀ members, intent.target ∈ members → intent.target ∈ last.engineFences members) ∧
    (∀ intent other input, stored.intent = some intent →
      (perform sha256 base log stored input).intent = some other → other = intent) ∧
    ∃ bytes, last.encode postcard sha256 = .ok bytes ∧
      decode postcard sha256 bytes = .ok last := by
  subst hlast
  refine ⟨?_, ?_, ?_, ?_⟩
  · intro intent hintent
    rcases intent_performAll hintent after with hlast | htruncated | hpast
    · exact .inl fun members _ => mem_engineFences_of_intent hlast members
    · exact .inr (.inl htruncated)
    · by_cases heffect : Effective sha256 base log intent
      · have hretired := isRetired_of_publishedPast heffect hlog hpast
        exact .inl fun members hmember => mem_engineFences_of_retired hretired hmember
      · exact .inr (.inr ⟨hpast, heffect⟩)
  · intro intent heffect hpast
    have hretired := isRetired_of_publishedPast heffect hlog hpast
    rw [← hstored] at hretired
    have hlast : (performAll sha256 base log stored after).table.isRetired intent.target = true :=
      isRetired_performAll hretired after
    exact ⟨hlast, fun members hmember => mem_engineFences_of_retired hlast hmember⟩
  · intro intent other input hintent hother
    rcases intent_perform hintent input with hnext | ⟨hnone, _⟩
    · rw [hnext] at hother
      exact (Option.some.inj hother).symm
    · rw [hnone] at hother
      cases hother
  · have hstart : Sound sha256 ⟨base, none⟩ := ⟨hbase, rfl⟩
    have hsound : Sound sha256 (performAll sha256 base log stored after) := by
      rw [hstored]
      exact (hstart.performAll _).performAll _
    exact decode_encode hlawful hsound.table hsound.intent

namespace Sample

def intent : VoterSlotIntent := ⟨cut 1, request 1 0 0 1 0⟩

/-! A serializer of stored values with fields of fixed width. -/

def sized (bytes : List Byte) : List Byte := Writer.u64 bytes.length ++ bytes

def readSized : Reader VoterSlotError (List Byte) := do
  let count ← Input.u64
  Reader.take .invalidRecord count.val

theorem reads_sized {bytes : List Byte} (hlength : bytes.length < 2 ^ 64) :
    Reads readSized (sized bytes) bytes :=
  (Input.reads_u64 ⟨bytes.length, hlength⟩).bind (Reads.take rfl)

def intentBytes (intent : IntentWire) : List Byte :=
  Writer.logId intent.logId ++ (Writer.u64 intent.expectedRevision.val ++
    (intent.expectedConfiguration.clusterId.toList ++
      (intent.expectedConfiguration.configurationId.toList ++
        (Writer.u64 intent.expectedConfiguration.configurationEpoch.value ++
          (Writer.member intent.candidate ++ sized intent.attestation)))))

def readIntent : Reader VoterSlotError IntentWire := do
  let logId ← Input.logId
  let expectedRevision ← Input.u64
  let clusterId ← Input.array 32
  let configurationId ← Input.array 32
  let configurationEpoch ← Input.epoch
  let candidate ← Input.member
  let attestation ← readSized
  return ⟨logId, expectedRevision,
    ⟨clusterId, configurationId, configurationEpoch⟩, candidate, attestation⟩

theorem reads_intent {intent : IntentWire} (hlength : intent.attestation.length < 2 ^ 64) :
    Reads readIntent (intentBytes intent) intent :=
  (Input.reads_logId _).bind <| (Input.reads_u64 _).bind <| (Input.reads_array _).bind <|
    (Input.reads_array _).bind <| (Input.reads_epoch _).bind <|
      (Input.reads_member _).bind (reads_sized hlength).last

def readWire : Reader VoterSlotError Wire := do
  let table ← readSized
  let intent ← Input.optional readIntent
  return ⟨table, intent⟩

def postcard : Postcard where
  toBytes wire := sized wire.table ++ Writer.optional intentBytes wire.intent
  takeFromBytes bytes := (readWire.run bytes).toOption

theorem lawful_postcard : postcard.Lawful where
  takeFromBytes_toBytes := by
    intro wire hsize
    have hintent : Reads (Input.optional readIntent)
        (Writer.optional intentBytes wire.intent) wire.intent := by
      apply Input.reads_optional
      intro inner hinner
      apply reads_intent
      simp only [Wire.size, Option.mem_def.mp hinner, Option.elim_some] at hsize
      omega
    have hwire : Reads readWire (postcard.toBytes wire) wire :=
      (reads_sized (lt_of_le_of_lt (Nat.le_add_right _ _) hsize)).bind hintent.last
    have hrun := hwire []
    rw [append_nil] at hrun
    simp only [postcard] at hrun ⊢
    rw [hrun]
    rfl
  length_toBytes_le := by
    intro wire _
    rcases wire with ⟨table, _ | inner⟩ <;>
      simp [postcard, sized, Writer.optional, intentBytes, Writer.logId,
        Writer.member, Writer.identity, Writer.binding, Wire.size] <;> omega

end Sample

/-- The reservation is appended, applied and followed by a snapshot; the lost voter
stays fenced. -/
theorem retirement_stays_fenced_sample :
    intent.target ∈
      (VoterSlotDurableState.performAll digest genesis [intent.entry]
        (VoterSlotDurableState.performAll digest genesis [intent.entry]
          ⟨genesis, none⟩ [.append intent genesis, .applied (cut 1)])
        [.snapshot (cut 2)]).engineFences {intent.target} := by
  have heffect : Effective digest genesis [intent.entry] intent :=
    ⟨[], [], rfl, by decide +kernel⟩
  have hpast : VoterSlotDurableState.PublishedPast digest genesis
      [intent.entry] ⟨genesis, none⟩ intent.logId.index
      [.append intent genesis, .applied (cut 1)] :=
    ⟨[.append intent genesis], .applied (cut 1), [], rfl, cut 1,
      .inl rfl, le_refl _, by decide +kernel⟩
  have hfenced := (retirement_stays_fenced lawful_postcard
    (show genesis.validate = .ok () from rfl) (pairwise_singleton _ _)
    [.append intent genesis, .applied (cut 1)] [.snapshot (cut 2)] rfl rfl).2.1 _ heffect hpast
  exact hfenced.2 _ (Finset.mem_singleton_self _)

end PacketCore.VoterSlots
