import PacketCore.Library.Run
import PacketCore.VoterSlots.Durable
import PacketCore.VoterSlots.Replacement

/-!
# Snapshots of a run

Every accepted entry leaves a successor of the table before it.  A node that is
far behind compares the table of a snapshot with its own, over many entries at
once.  The receipt of an operation that has ended in between may be overwritten,
but only by receipts at later positions, and this is what carries the check over
a whole run.
-/

namespace PacketCore.VoterSlots

open VoterSlotTable Sample List
open VoterReplacementEvidence (mem_cuts_iff snapshotCut)

variable {sha256 : Sha256} {first table next last : VoterSlotTable} {cut : VoterSlotLogId}

/-! ## Records of two tables -/

section Records

variable {α : Type} {Rel : α → α → Prop}

theorem forall₂_trans {first second third : List α}
    (htrans : ∀ left middle right, Rel left middle → Rel middle right → Rel left right)
    (hleft : Forall₂ Rel first second) (hright : Forall₂ Rel second third) :
    Forall₂ Rel first third := by
  induction hleft generalizing third with
  | nil => exact hright
  | cons hhead _ ih =>
    cases hright with
    | cons hhead' htail' => exact .cons (htrans _ _ _ hhead hhead') (ih htail')

theorem find?_forall₂ {test : α → Bool} {new old : List α} {item : α}
    (hsame : ∀ left right, Rel left right → test left = test right)
    (hrel : Forall₂ Rel new old) (hfind : old.find? test = some item) :
    ∃ found, new.find? test = some found ∧ Rel found item := by
  induction hrel with
  | nil => cases hfind
  | @cons left right _ _ hhead _ ih =>
    rw [find?_cons] at hfind ⊢
    rw [hsame _ _ hhead]
    cases htest : test right with
    | true =>
      rw [htest] at hfind
      cases hfind
      exact ⟨left, rfl, hhead⟩
    | false =>
      rw [htest] at hfind
      exact ih hfind

end Records

variable {slot : SlotId} {input : SlotInput} {id : VoterSlotLogId}
  {op new old : VoterReplacementRecord}
  {incarnation : VoterIncarnation} {receipt : VoterReplacementResult}
  {record : VoterSlotRecord} {rest inputs : List SlotInput}

/-- A change of one slot relates the records pairwise. -/
theorem forall₂_updateSlot {Rel : VoterSlotRecord → VoterSlotRecord → Prop}
    {update : VoterSlotRecord → VoterSlotRecord} (hrefl : ∀ record, Rel record record)
    (hupdate : ∀ record, Rel (update record) record) (records : List VoterSlotRecord) :
    Forall₂ Rel (updateSlot slot update records) records := by
  induction records with
  | nil => exact .nil
  | cons _ _ ih =>
    unfold updateSlot
    split
    · exact .cons (hupdate _) (forall₂_same.mpr fun other _ => hrefl _)
    · exact .cons (hrefl _) ih

/-! ## Positions written by one entry -/

/-- A receipt is kept, or written at `cut`. -/
def ReceiptAt (cut : VoterSlotLogId) (new old : VoterSlotRecord) : Prop :=
  new.lastResult = old.lastResult ∨ ∃ receipt, new.lastResult = some receipt ∧
    receipt.terminal = cut

theorem ReceiptAt.refl (record : VoterSlotRecord) : ReceiptAt cut record record := .inl rfl

theorem mem_cuts_table : id ∈ table.cuts ↔
    (∃ record ∈ table.slots, ∃ receipt, record.lastResult = some receipt ∧ receipt.terminal = id) ∨
    ∃ op, table.replacement = some op ∧ id ∈ op.evidence.prepare :: op.evidence.cuts := by
  unfold cuts
  cases hop : table.replacement <;> simp [mem_filterMap]

/-- Evidence that gains one position `added`. -/
theorem mem_cuts_added {new old : VoterReplacementEvidence} {added : VoterSlotLogId}
    (hid : id ∈ new.prepare :: new.cuts) (hadded : added.Within cut)
    (hprepare : new.prepare = old.prepare)
    (hcuts : ∀ found ∈ new.cuts, found ∈ old.cuts ∨ added = found) :
    id ∈ old.prepare :: old.cuts ∨ id.Within cut := by
  rcases mem_cons.mp hid with rfl | hid
  · exact .inl (hprepare ▸ mem_cons_self)
  · rcases hcuts id hid with hold | rfl
    · exact .inl (mem_cons_of_mem _ hold)
    · exact .inr hadded

/-- A recorded step adds its own position, or one before it. -/
theorem VoterSlotTable.AdvancedStep.cuts {advanced : VoterReplacementRecord}
    {step : VoterReplacementStep} (hadvanced : AdvancedStep op cut step advanced)
    (hid : id ∈ advanced.evidence.prepare :: advanced.evidence.cuts) :
    id ∈ op.evidence.prepare :: op.evidence.cuts ∨ id.Within cut := by
  cases hadvanced with
  | snapshot _ _ hcut | caughtUp _ _ hcut =>
    refine mem_cuts_added hid hcut rfl fun found hfound => ?_
    rw [mem_cuts_iff] at hfound ⊢
    simp only [snapshotCut, Option.map_some, Option.some.injEq] at hfound ⊢
    tauto
  | continuation | fence =>
    refine mem_cuts_added hid (.refl cut) rfl fun found hfound => ?_
    rw [mem_cuts_iff] at hfound ⊢
    simp only [Option.some.injEq] at hfound
    tauto

/-- A membership entry adds its own position. -/
theorem VoterSlotTable.ObservedStep.cuts {observed : VoterReplacementRecord}
    {configurations : List (Finset ConsensusNodeId)}
    (hobserved : ObservedStep op configurations cut observed)
    (hid : id ∈ observed.evidence.prepare :: observed.evidence.cuts) :
    id ∈ op.evidence.prepare :: op.evidence.cuts ∨ id.Within cut := by
  cases hobserved with
  | old | jointAgain | uniformAgain => exact .inl hid
  | learner | joint | uniform =>
    refine mem_cuts_added hid (.refl cut) rfl fun found hfound => ?_
    rw [mem_cuts_iff] at hfound ⊢
    simp only [Option.some.injEq] at hfound
    tauto

section

variable (hproposed : table.proposed sha256 input = .ok next)
include hproposed

/-- An entry writes receipts at its own position. -/
theorem receipts_step : Forall₂ (ReceiptAt input.cut) next.slots table.slots := by
  have hunchanged : Forall₂ (ReceiptAt input.cut) table.slots table.slots :=
    forall₂_same.mpr fun record _ => .refl record
  cases input with
  | control =>
    cases (controlled_cases hproposed).2 with
    | begun =>
      refine forall₂_updateSlot ReceiptAt.refl (fun record => ?_) _
      cases hop : table.replacement with
      | none => exact .inl rfl
      | some => exact .inr ⟨_, rfl, rfl⟩
    | finalized =>
      refine forall₂_updateSlot ReceiptAt.refl (fun record => ?_) _
      exact .inr ⟨_, rfl, rfl⟩
    | beginAgain | finalizeAgain | advanceAgain | advanced | marked => exact hunchanged
  | membership =>
    cases observed_cases hproposed with
    | observed =>
      refine forall₂_updateSlot ReceiptAt.refl (fun record => ?_) _
      exact .inl rfl
    | idle | unchanged => exact hunchanged

/-- What an entry does to the operation's positions. -/
theorem operation_cuts_step (hnew : next.replacement = some new)
    (hid : id ∈ new.evidence.prepare :: new.evidence.cuts) :
    id ∈ table.cuts ∨ id.Within input.cut := by
  have hkept : ∀ op, table.replacement = some op →
      (id ∈ op.evidence.prepare :: op.evidence.cuts ∨ id.Within input.cut) →
      id ∈ table.cuts ∨ id.Within input.cut :=
    fun op hop => Or.imp_left fun hmem => mem_cuts_table.mpr (.inr ⟨op, hop, hmem⟩)
  cases input with
  | control _ cut =>
    cases (controlled_cases hproposed).2 with
    | begun =>
      cases hnew
      -- a fresh operation has only its own position
      rw [mem_cons, mem_cuts_iff] at hid
      obtain rfl : id = cut := by simpa [snapshotCut] using hid
      exact .inr (.refl _)
    | advanced op _ _ _ hop hadvanced =>
      cases hnew
      exact hkept op hop ((advanceOperation_cases hadvanced).cuts hid)
    | finalized => cases hnew
    | beginAgain | finalizeAgain | advanceAgain | marked => exact hkept _ hnew (.inl hid)
  | membership =>
    cases observed_cases hproposed with
    | observed op _ _ hop hobserved =>
      cases hnew
      exact hkept op hop (hobserved.cuts hid)
    | idle | unchanged => exact hkept _ hnew (.inl hid)

/-- Every position of the next table is old, or within that of the entry. -/
theorem cuts_step (hid : id ∈ next.cuts) : id ∈ table.cuts ∨ id.Within input.cut := by
  rcases mem_cuts_table.mp hid with ⟨_, hrecord, receipt, hreceipt, rfl⟩ | ⟨_, hnew, hmem⟩
  · obtain ⟨index, hindex, rfl⟩ := getElem_of_mem hrecord
    have hrel := receipts_step hproposed
    have hindex' : index < table.slots.length := hrel.length_eq ▸ hindex
    rcases hrel.get hindex hindex' with hsame | ⟨_, hwritten, hcut⟩
    · rw [get_eq_getElem] at hsame
      rw [hsame] at hreceipt
      exact .inl (mem_cuts_table.mpr (.inl ⟨_, getElem_mem hindex', receipt, hreceipt, rfl⟩))
    · rw [get_eq_getElem, hreceipt] at hwritten
      cases hwritten
      exact .inr (hcut ▸ .refl _)
  · exact operation_cuts_step hproposed hnew hmem

end

/-! ## Operations that have ended -/

/-- While an operation is active its slot has no receipt that covers it. -/
theorem receipt_lt_active (hvalid : table.Valid) (hop : table.replacement = some op)
    (hrecord : table.slots.find? (fun record => record.slot = op.attestation.slot) = some record)
    (hnext : op.attestation.expectedIncarnation.next = .ok incarnation)
    (hreceipt : record.lastResult = some receipt) :
    receipt.incarnation.value < incarnation.value := by
  have hslot : record.slot = op.attestation.slot := by simpa using find?_some hrecord
  have hmem := mem_of_find?_eq_some hrecord
  have hoperation := hvalid.operation op hop
  obtain ⟨row, hrow, hrowSlot⟩ := hoperation.targetRow
  have hrowValid := hoperation.rowsValid _ hrow
  have hrowMem : row.1.1 ∈ table.slots := (of_mem_zip (of_mem_zip hrow).1).1
  obtain rfl : row.1.1 = record := hvalid.eq_of_slot hrowMem hmem (hrowSlot.trans hslot.symm)
  have hselected := (hrowValid.target hrowSlot).1
  rw [hnext, ← hrowValid.selected] at hselected
  cases hselected
  refine (hvalid.slotsValid _ hmem).receipt _ hreceipt ?_
  simp [isActive, hop, hrowSlot]

/-- A later state of the operation ends with the same receipt. -/
theorem Ends.earlier (hcontinues : Continues new old)
    (hwithin : old.evidence.latest.Within new.evidence.latest)
    (hends : Ends table new receipt incarnation) : Ends table old receipt incarnation where
  covers := hends.covers
  terminal := VoterSlotLogId.follows_strict_of_within hwithin hends.terminal
  fenced := by
    intro hphase
    rw [← hcontinues.successor]
    exact hends.fenced (hphase.trans hcontinues.phase)
  named := by
    intro hsame
    rw [← hcontinues.attestation]
    exact hends.named hsame
  completed := by
    intro hsame hkind
    rw [← hcontinues.successor]
    exact hends.completed hsame hkind
  superseded := fun hsame hkind => hcontinues.phase.trans_lt (hends.superseded hsame hkind)

/-- A receipt at a later position still shows the end of the operation. -/
theorem Ends.later {written : VoterReplacementResult} (hends : Ends table op receipt incarnation)
    (hepoch : table.configurationEpoch.value ≤ next.configurationEpoch.value)
    (hwritten : ReceiptSuccessor written receipt)
    (hterminal : receipt.terminal.Within written.terminal) : Ends next op written incarnation := by
  -- a receipt of the operation's own incarnation has not been overwritten
  have hsame : written.incarnation = incarnation → written = receipt := by
    intro hwrittenSame
    refine hwritten.same (.inr (VoterIncarnation.eq_of_value ?_))
    have hup := hwritten.incarnation
    rw [hwrittenSame] at hup ⊢
    exact le_antisymm hends.covers hup
  refine ⟨hends.covers.trans hwritten.incarnation, ?_,
    fun hphase => (hends.fenced hphase).trans hepoch, ?_, ?_, ?_⟩
  · rw [VoterSlotLogId.follows_strict]
    have hfollows := VoterSlotLogId.follows_strict.mp hends.terminal
    exact ⟨hfollows.1.trans_le hterminal.1, hfollows.2.trans hterminal.2⟩
  · intro hwrittenSame
    obtain rfl := hsame hwrittenSame
    exact hends.named hwrittenSame
  · intro hwrittenSame hkind
    obtain rfl := hsame hwrittenSame
    exact (hends.completed hwrittenSame hkind).trans hepoch
  · intro hwrittenSame hkind
    obtain rfl := hsame hwrittenSame
    exact hends.superseded hwrittenSame hkind

/-- The operation has ended, by a receipt that the positions of `rest` follow. -/
def ResolvedBefore (table : VoterSlotTable) (op : VoterReplacementRecord)
    (rest : List SlotInput) : Prop :=
  ∃ record receipt incarnation,
    table.slots.find? (fun record => record.slot = op.attestation.slot) = some record ∧
    op.attestation.expectedIncarnation.next = .ok incarnation ∧
    record.lastResult = some receipt ∧ Ends table op receipt incarnation ∧
    ∀ input ∈ rest, input.cut.follows receipt.terminal false = true

theorem ResolvedBefore.resolved (hresolved : ResolvedBefore table op rest) : Resolved table op := by
  obtain ⟨record, receipt, incarnation, hrecord, hnext, hreceipt, hends, _⟩ := hresolved
  exact ⟨record, receipt, incarnation, hrecord, hnext, hreceipt, hends⟩

/-- An operation that has ended is not the one in progress. -/
theorem ResolvedBefore.not_active (hresolved : ResolvedBefore table op rest) (hvalid : table.Valid)
    (hnew : table.replacement = some new) : new.attestation ≠ op.attestation := by
  obtain ⟨_, _, _, hrecord, hnext, hreceipt, hends, _⟩ := hresolved
  intro hsame
  rw [← hsame] at hrecord hnext
  exact absurd hends.covers (not_le.mpr (receipt_lt_active hvalid hnew hrecord hnext hreceipt))

theorem ResolvedBefore.tail (hresolved : ResolvedBefore table op (input :: rest)) :
    ResolvedBefore table op rest := by
  obtain ⟨record, receipt, incarnation, hrecord, hnext, hreceipt, hends, hrest⟩ := hresolved
  exact ⟨record, receipt, incarnation, hrecord, hnext, hreceipt, hends,
    (forall_mem_cons.mp hrest).2⟩

/-- The end of an operation is the end of its earlier states. -/
theorem ResolvedBefore.earlier (hresolved : ResolvedBefore table new rest)
    (hcontinues : Continues new old)
    (hwithin : old.evidence.latest.Within new.evidence.latest) : ResolvedBefore table old rest := by
  obtain ⟨record, receipt, incarnation, hrecord, hnext, hreceipt, hends, hrest⟩ := hresolved
  rw [hcontinues.attestation] at hrecord hnext
  exact ⟨record, receipt, incarnation, hrecord, hnext, hreceipt,
    hends.earlier hcontinues hwithin, hrest⟩

section Step

variable (hproposed : table.proposed sha256 input = .ok next) (hsuccessor : Successor next table)
include hproposed hsuccessor

/-- The record of a slot, across one entry. -/
theorem record_step (hrecord : table.slots.find? (fun record => record.slot = slot) = some record) :
    ∃ found, next.slots.find? (fun record => record.slot = slot) = some found ∧
      SlotSuccessor found record ∧ ReceiptAt input.cut found record := by
  have hboth := Forall₂.mp (fun _ _ => And.intro) hsuccessor.slots (receipts_step hproposed)
  refine find?_forall₂ (fun left right hrel => ?_) hboth hrecord
  rw [hrel.1.slot]

variable (hordered : ∀ later ∈ rest, later.cut.follows input.cut false = true)
include hordered

/-- What has ended stays ended. -/
theorem ResolvedBefore.step (hresolved : ResolvedBefore table op (input :: rest)) :
    ResolvedBefore next op rest := by
  obtain ⟨_, receipt, incarnation, hrecord, hnext, hreceipt, hends, hrest⟩ := hresolved
  obtain ⟨hinput, hrest⟩ := forall_mem_cons.mp hrest
  obtain ⟨found, hfound, hslot, hat⟩ := record_step hproposed hsuccessor hrecord
  obtain ⟨written, hwritten, hreceiptSuccessor⟩ := hslot.receipt _ hreceipt
  have hterminal : written = receipt ∨ written.terminal = input.cut := by
    rcases hat with hsame | ⟨_, hother, hcut⟩
    · rw [hwritten, hreceipt] at hsame
      exact .inl (Option.some.inj hsame)
    · rw [hwritten] at hother
      cases hother
      exact .inr hcut
  refine ⟨found, written, incarnation, hfound, hnext, hwritten,
    hends.later hsuccessor.epoch hreceiptSuccessor ?_, ?_⟩
  · rcases hterminal with rfl | hcut
    · exact .refl _
    · rw [hcut]
      exact VoterSlotLogId.within_of_follows hinput
  · rcases hterminal with rfl | hcut
    · exact hrest
    · rw [hcut]
      exact hordered

/-- The operation in progress goes on, or ends at the position of the entry. -/
theorem operation_step (hvalid : table.Valid) (hop : table.replacement = some op)
    (hchecked : next.validateReplacementSuccessor op = .ok ()) :
    (∃ new, next.replacement = some new ∧ Continues new op) ∨ ResolvedBefore next op rest := by
  obtain ⟨hcontinues, hends⟩ := validateReplacementSuccessor_iff.mp hchecked
  by_cases hsame : ∃ new, next.replacement = some new ∧
      new.attestation.requestId = op.attestation.requestId
  · obtain ⟨new, hnew, hid⟩ := hsame
    exact .inl ⟨new, hnew, hcontinues _ hnew hid⟩
  · push Not at hsame
    obtain ⟨found, receipt, incarnation, hfound, hnext, hreceipt, hends⟩ := hends hsame
    refine .inr ⟨found, receipt, incarnation, hfound, hnext, hreceipt, hends, ?_⟩
    -- the receipt is new: the old one does not cover the operation
    obtain ⟨row, hrow, hrowSlot⟩ := (hvalid.operation op hop).targetRow
    have hrowMem : row.1.1 ∈ table.slots := (of_mem_zip (of_mem_zip hrow).1).1
    obtain ⟨record, hrecord⟩ : ∃ record,
        table.slots.find? (fun record => record.slot = op.attestation.slot) = some record := by
      rw [← Option.isSome_iff_exists, find?_isSome]
      exact ⟨row.1.1, hrowMem, by simpa using hrowSlot⟩
    obtain ⟨_, hfound', _, hat⟩ := record_step hproposed hsuccessor hrecord
    rw [hfound] at hfound'
    cases hfound'
    rcases hat with hsame | ⟨_, hwritten, hcut⟩
    · have hless := receipt_lt_active hvalid hop hrecord hnext (hsame ▸ hreceipt)
      exact absurd hends.covers (not_le.mpr hless)
    · rw [hreceipt] at hwritten
      cases hwritten
      rw [hcut]
      exact hordered

end Step

/-! ## Along a run -/

/-- Apply one entry, or fail. -/
def VoterSlotTable.accept (sha256 : Sha256) (table : VoterSlotTable)
    (input : SlotInput) : Except VoterReplacementError VoterSlotTable :=
  match table.step sha256 input with
  | (.ok _, next) => .ok next
  | (.error fault, _) => .error fault

theorem VoterSlotTable.accept_eq_ok (hok : table.accept sha256 input = .ok next) :
    table.proposed sha256 input = .ok next ∧
      (next = table ∨ next.validateSuccessorOf table = .ok ()) := by
  unfold accept at hok
  split at hok
  · next _ _ hstep =>
    cases hok
    have haccepted : (table.step sha256 input).1 = .ok () := by rw [hstep]
    simpa [hstep] using step_accepted haccepted
  · cases hok

/-- What a node that holds `first` knows of a later table, with the entries still
to come. -/
structure Descends (first : VoterSlotTable) (rest : List SlotInput)
    (table : VoterSlotTable) : Prop where
  valid : table.validate = .ok ()
  cluster : table.clusterInstance = first.clusterInstance
  manifest : table.manifestDigest = first.manifestDigest
  epoch : first.configurationEpoch.value ≤ table.configurationEpoch.value
  revision : table = first ∨ first.revision < table.revision
  slots : Forall₂ SlotSuccessor table.slots first.slots
  operation : ∀ old, first.replacement = some old →
    (∃ new, table.replacement = some new ∧ Continues new old) ∨ ResolvedBefore table old rest

namespace Descends

theorem start (hvalid : first.validate = .ok ()) (rest : List SlotInput) :
    Descends first rest first where
  valid := hvalid
  cluster := rfl
  manifest := rfl
  epoch := le_rfl
  revision := .inl rfl
  slots := forall₂_same.mpr fun record _ => .refl record
  operation := fun old hold => .inl ⟨old, hold, .refl old⟩

/-- One entry keeps what the node knows. -/
theorem step (hfirst : first.Valid) (hdescends : Descends first (input :: rest) table)
    (hordered : ∀ later ∈ rest, later.cut.follows input.cut false = true)
    (hok : table.accept sha256 input = .ok next) : Descends first rest next := by
  obtain ⟨hproposed, hcase⟩ := accept_eq_ok hok
  by_cases hsame : next = table
  · subst hsame
    refine { hdescends with operation := fun old hold => ?_ }
    exact (hdescends.operation _ hold).imp_right ResolvedBefore.tail
  · obtain ⟨hnextValid, _, hsuccessor⟩ :=
      validateSuccessorOf_iff.mp (hcase.resolve_left hsame)
    have hvalid := valid_of_validate hdescends.valid
    have hlater : table.revision < next.revision := hsuccessor.revision.resolve_left hsame
    refine ⟨hnextValid, hsuccessor.cluster.trans hdescends.cluster,
      hsuccessor.manifest.trans hdescends.manifest, hdescends.epoch.trans hsuccessor.epoch,
      .inr ?_, forall₂_trans (fun _ _ _ hleft hright => hright.trans hleft) hsuccessor.slots
        hdescends.slots, fun old hold => ?_⟩
    · rcases hdescends.revision with rfl | hless
      · exact hlater
      · exact hless.trans hlater
    · rcases hdescends.operation _ hold with ⟨op, hop, hcontinues⟩ | hresolved
      · have hchecked := hsuccessor.replacement op hop hsame
        rcases operation_step hproposed hsuccessor hordered hvalid hop hchecked with
          ⟨new, hnew, hcontinues'⟩ | hresolved
        · exact .inl ⟨new, hnew, hcontinues.trans hcontinues'⟩
        · have hwithin := hcontinues.evidence.latest_within (hfirst.operation _ hold).evidence
            (hvalid.operation op hop).evidence
          exact .inr (hresolved.earlier hcontinues hwithin)
      · exact .inr (hresolved.step hproposed hsuccessor hordered)

theorem run (hfirst : first.Valid) (hdescends : Descends first inputs table)
    (hordered : inputs.Pairwise fun earlier later => later.cut.follows earlier.cut false = true)
    (hrun : runInputs (accept sha256) inputs table = .ok last) :
    Descends first [] last := by
  induction inputs generalizing table with
  | nil =>
    cases hrun
    exact hdescends
  | cons _ _ ih =>
    obtain ⟨_, hnext, hrest⟩ := bind_eq_ok hrun
    obtain ⟨hinput, hordered⟩ := pairwise_cons.mp hordered
    exact ih (hdescends.step hfirst hinput hnext) hordered hrest

end Descends

/-- The table of a snapshot names, under other claims, the request that the local
table has in progress. -/
def RequestReused (behind ahead : VoterSlotTable) : Prop :=
  ∃ old new, behind.replacement = some old ∧ ahead.replacement = some new ∧
    new.attestation.requestId = old.attestation.requestId ∧ new.attestation ≠ old.attestation

theorem Descends.successor_iff (hvalid : first.validate = .ok ())
    (hdescends : Descends first [] last) :
    last.validateSuccessorOf first = .ok () ↔ ¬ RequestReused first last := by
  rw [validateSuccessorOf_iff]
  constructor
  · rintro ⟨_, _, hsuccessor⟩ ⟨old, new, hold, hnew, hid, hother⟩
    by_cases hsame : last = first
    · subst hsame
      rw [hold] at hnew
      cases hnew
      exact hother rfl
    · have hchecked := hsuccessor.replacement _ hold hsame
      exact hother ((validateReplacementSuccessor_iff.mp hchecked).1 new hnew hid).attestation
  · intro hreused
    refine ⟨hdescends.valid, hvalid, hdescends.cluster, hdescends.manifest,
      hdescends.epoch, hdescends.revision, hdescends.slots, ?_⟩
    intro old hold _
    rw [validateReplacementSuccessor_iff]
    rcases hdescends.operation _ hold with ⟨op, hop, hcontinues⟩ | hresolved
    · refine ⟨fun new hnew _ => ?_, fun hother => ?_⟩
      · rw [hop] at hnew
        cases hnew
        exact hcontinues
      · exact absurd (congrArg _ hcontinues.attestation) (hother op hop)
    · refine ⟨fun new hnew hid => ?_, fun _ => hresolved.resolved⟩
      have hother := hresolved.not_active (valid_of_validate hdescends.valid) hnew
      exact absurd ⟨old, new, hold, hnew, hid, hother⟩ hreused

theorem cuts_run (hrun : runInputs (accept sha256) inputs table = .ok last)
    (hid : id ∈ last.cuts) : id ∈ table.cuts ∨ ∃ input ∈ inputs, id.Within input.cut := by
  induction inputs generalizing table with
  | nil =>
    cases hrun
    exact .inl hid
  | cons input _ ih =>
    obtain ⟨_, hnext, hrest⟩ := bind_eq_ok hrun
    rcases ih hrest with hmem | ⟨later, hlater, hwithin⟩
    · rcases cuts_step (accept_eq_ok hnext).1 hmem with hold | hwithin
      · exact .inl hold
      · exact .inr ⟨input, mem_cons_self, hwithin⟩
    · exact .inr ⟨later, mem_cons_of_mem _ hlater, hwithin⟩

/-- At the position of a table, a snapshot is published exactly when it is a successor. -/
theorem publish_iff (state : VoterSlotDurableState) (hcuts : ∀ id ∈ last.cuts, id.Within cut)
    (hgenesis : cut.term = 0 → cut.index = 0 ∧ last.revision = 1) :
    (state.publish last cut).1 = .ok () ↔ last.validateSuccessorOf state.table = .ok () := by
  have hwithin : tableCutsWithin last cut = true := by simpa [tableCutsWithin] using hcuts
  have hposition : ¬ ((cut.term = 0 ∧ (cut.index ≠ 0 ∨ last.revision ≠ 1)) ∨
      tableCutsWithin last cut = false) := by
    rw [hwithin]
    rintro (⟨hterm, hother⟩ | hfalse)
    · obtain ⟨hindex, hrevision⟩ := hgenesis hterm
      exact hother.elim (absurd hindex) (absurd hrevision)
    · cases hfalse
  unfold VoterSlotDurableState.publish
  cases hcheck : last.validateSuccessorOf state.table with
  | error => simp
  | ok =>
    simp only [if_neg hposition, iff_true]
    split <;> rfl

/-- A snapshot of a run is refused exactly when it names, under other claims, the
request that the local table has in progress.  It makes no difference whether it is
published as a snapshot or as applied entries. -/
theorem snapshot_accepted_iff {inputs : List SlotInput}
    (hvalid : first.validate = .ok ()) (hordered : inputs.Pairwise fun earlier later =>
      earlier.cut.index < later.cut.index ∧ earlier.cut.term ≤ later.cut.term)
    (hrun : runInputs (accept sha256) inputs first = .ok last) :
    (last.validateSuccessorOf first = .ok () ↔ ¬ RequestReused first last) ∧
    ∀ (intent : Option VoterSlotIntent) (cut : VoterSlotLogId),
      (∀ id ∈ first.cuts, id.Within cut) → (∀ input ∈ inputs, input.cut.Within cut) →
      (cut.term = 0 → cut.index = 0 ∧ last.revision = 1) →
      ((VoterSlotDurableState.publishSnapshot ⟨first, intent⟩ last cut).1 = .ok () ↔
        ¬ RequestReused first last) ∧
      ((VoterSlotDurableState.publishApplied ⟨first, intent⟩ last cut).1 = .ok () ↔
        ¬ RequestReused first last) := by
  have hdescends : Descends first [] last := by
    refine (Descends.start hvalid _).run (valid_of_validate hvalid) ?_ hrun
    exact hordered.imp VoterSlotLogId.follows_strict.mpr
  have hsuccessor := hdescends.successor_iff hvalid
  refine ⟨hsuccessor, ?_⟩
  intro intent cut hfirst hinputs hgenesis
  have hcuts : ∀ id ∈ last.cuts, id.Within cut := by
    intro id hid
    rcases cuts_run hrun hid with hold | ⟨input, hinput, hwithin⟩
    · exact hfirst id hold
    · exact hwithin.trans (hinputs _ hinput)
  have hpublish := (publish_iff ⟨first, intent⟩ hcuts hgenesis).trans hsuccessor
  exact ⟨hpublish, hpublish⟩

namespace Sample

/-- A digest that tells the requests below apart. -/
def checksum : Sha256 := fun bytes =>
  List.Vector.replicate 32 (bytes.foldl (fun sum byte => sum * 31 + byte) 7)

/-- Identity of the first configuration. -/
def configuration : ConsensusIdentity :=
  match genesis.currentConfiguration.identity checksum genesis.clusterInstance
      genesis.manifestDigest with
  | .ok identity => identity
  | .error _ => ⟨zeros 32, zeros 32, epoch 0⟩

/-- A request for the first slot, with its digest. -/
def digested (id : Byte) (ordinal : Fin 9) (revision : Fin (2 ^ 64)) : VoterReplacementRequest :=
  let draft := { request id 0 ordinal revision 0 with expectedConfiguration := configuration }
  match voterReplacementRequestDigest checksum draft.expectedRevision draft.expectedConfiguration
      draft.candidate draft.attestation with
  | .ok digest =>
    { draft with attestation := { draft.attestation with requestDigest := digest } }
  | .error _ => draft

def reserves (id : Byte) (ordinal : Fin 9) (revision index : Fin (2 ^ 64)) : SlotInput :=
  .control (.begin (digested id ordinal revision)) (Sample.cut index)

/-- The first request is in progress. -/
def behind : VoterSlotTable := (genesis.step checksum (reserves 1 0 1 1)).2

/-- Two candidates supersede it, and its identity is used again. -/
def reuse : List SlotInput := [reserves 2 1 2 2, reserves 3 2 3 3, reserves 1 3 4 4]

def after (inputs : List SlotInput) : VoterSlotTable :=
  inputs.foldl (fun table input => (table.step checksum input).2) behind

end Sample

/-- The identity of a request that two later ones have superseded is accepted
again, and then a node that still has it in progress refuses the snapshot. -/
theorem snapshot_refused_reused :
    behind.validate = .ok () ∧
    (reuse.Pairwise fun earlier later =>
      earlier.cut.index < later.cut.index ∧ earlier.cut.term ≤ later.cut.term) ∧
    runInputs (accept checksum) reuse behind = .ok (after reuse) ∧
    (after reuse).validateSuccessorOf behind = .error .regression ∧
    (VoterSlotDurableState.publishSnapshot ⟨behind, none⟩ (after reuse)
      (Sample.cut 4)).1 = .error .regression := by
  decide +kernel

/-- A node that holds the reservation accepts the table after the replacement. -/
theorem snapshot_accepted_iff_sample :
    (tableAfter oneReplacement).validateSuccessorOf (tableAfter (oneReplacement.take 1)) = .ok
    () ∧ (VoterSlotDurableState.publishSnapshot ⟨tableAfter (oneReplacement.take 1), none⟩
      (tableAfter oneReplacement) (Sample.cut 9)).1 = .ok () := by
  have hvalid : (tableAfter (oneReplacement.take 1)).validate = .ok () := by decide +kernel
  have hordered : (oneReplacement.drop 1).Pairwise fun earlier later =>
      earlier.cut.index < later.cut.index ∧ earlier.cut.term ≤ later.cut.term := by
    decide +kernel
  have hrun : runInputs (accept digest) (oneReplacement.drop 1)
      (tableAfter (oneReplacement.take 1)) = .ok (tableAfter oneReplacement) := by
    decide +kernel
  obtain ⟨hsuccessor, hpublish⟩ := snapshot_accepted_iff hvalid hordered hrun
  have hfresh : ¬ RequestReused (tableAfter (oneReplacement.take 1))
      (tableAfter oneReplacement) := by
    have hidle : (tableAfter oneReplacement).replacement = none := by decide +kernel
    rintro ⟨_, _, _, hnew, _⟩
    rw [hidle] at hnew
    cases hnew
  refine ⟨hsuccessor.mpr hfresh, ?_⟩
  refine (hpublish _ _ ?_ ?_ ?_).1.mpr hfresh <;> decide +kernel

end PacketCore.VoterSlots
