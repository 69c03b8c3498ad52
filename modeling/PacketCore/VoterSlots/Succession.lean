import PacketCore.VoterSlots.Validity

/-!
# Succession

The successor check as named relations: between two records of a slot, between
two states of one operation, and between an operation and the receipt that ended
it.  The first two compose; the third composes along a run, because receipts are
written at ever later log positions.
-/

namespace PacketCore.VoterSlots

open List

/-! ## Retained evidence -/

variable {α : Type} {new old : VoterReplacementEvidence}
  {phase : VoterReplacementPhase} {table previous : VoterSlotTable}

theorem keeps_iff [DecidableEq α] {new old : Option α} :
    (old.isNone || decide (new = old)) = true ↔ ∀ value ∈ old, new = some value := by
  cases old <;> simp

/-- Evidence keeps every position of an earlier state; only the catch-up marker
may move forward until the fence. -/
structure Retains (new old : VoterReplacementEvidence) (phase : VoterReplacementPhase) : Prop where
  prepare : new.prepare = old.prepare
  snapshot : ∀ snapshot ∈ old.snapshot, new.snapshot = some snapshot
  marker : ∀ marker ∈ old.caughtUp, ∃ moved, new.caughtUp = some moved ∧
    (moved = marker ∨ (phase < .fenced ∧ moved.follows marker false = true))
  learner : ∀ cut ∈ old.learner, new.learner = some cut
  continuation : ∀ cut ∈ old.continuation, new.continuation = some cut
  fence : ∀ cut ∈ old.fence, new.fence = some cut
  joint : ∀ cut ∈ old.joint, new.joint = some cut
  uniform : ∀ cut ∈ old.uniform, new.uniform = some cut

theorem retainsMarker_iff :
    new.retainsMarker old phase = true ↔ ∀ marker ∈ old.caughtUp, ∃ moved,
      new.caughtUp = some moved ∧
        (moved = marker ∨ (phase < .fenced ∧ moved.follows marker false = true)) := by
  unfold VoterReplacementEvidence.retainsMarker
  cases hold : old.caughtUp <;> cases hnew : new.caughtUp <;> simp

theorem retains_iff : new.retains old phase = true ↔ Retains new old phase := by
  unfold VoterReplacementEvidence.retains
  simp only [Bool.and_eq_true, decide_eq_true_eq, retainsMarker_iff, all_cons,
    all_nil, keeps_iff, and_true]
  constructor
  · rintro ⟨⟨⟨hprepare, hsnapshot⟩, hmarker⟩, hlearner, hcontinuation, hfence, hjoint, huniform⟩
    exact ⟨hprepare, hsnapshot, hmarker, hlearner, hcontinuation, hfence, hjoint, huniform⟩
  · intro h
    exact ⟨⟨⟨h.prepare, h.snapshot⟩, h.marker⟩, h.learner, h.continuation,
      h.fence, h.joint, h.uniform⟩

namespace Retains

variable {first second third : VoterReplacementEvidence}
  {phase laterPhase : VoterReplacementPhase}

theorem refl (evidence : VoterReplacementEvidence)
    (phase : VoterReplacementPhase) : Retains evidence evidence phase where
  prepare := rfl
  snapshot := by simp
  marker := fun marker hmarker => ⟨marker, hmarker, .inl rfl⟩
  learner := by simp
  continuation := by simp
  fence := by simp
  joint := by simp
  uniform := by simp

theorem trans (hphase : phase ≤ laterPhase) (hleft : Retains second first phase)
    (hright : Retains third second laterPhase) : Retains third first phase where
  prepare := hright.prepare.trans hleft.prepare
  snapshot := fun _ h => hright.snapshot _ (hleft.snapshot _ h)
  marker := by
    intro marker hmarker
    obtain ⟨_, hmoved, hcase⟩ := hleft.marker _ hmarker
    obtain ⟨last, hlast, hcase'⟩ := hright.marker _ hmoved
    refine ⟨last, hlast, ?_⟩
    rcases hcase with rfl | ⟨hbelow, hfollows⟩
    · exact hcase'.imp_right fun h => ⟨hphase.trans_lt h.1, h.2⟩
    · rcases hcase' with rfl | ⟨_, hfollows'⟩
      · exact .inr ⟨hbelow, hfollows⟩
      · exact .inr ⟨hbelow, VoterSlotLogId.follows_strict_of_within
          (VoterSlotLogId.within_of_follows hfollows) hfollows'⟩
  learner := fun _ h => hright.learner _ (hleft.learner _ h)
  continuation := fun _ h => hright.continuation _ (hleft.continuation _ h)
  fence := fun _ h => hright.fence _ (hleft.fence _ h)
  joint := fun _ h => hright.joint _ (hleft.joint _ h)
  uniform := fun _ h => hright.uniform _ (hleft.uniform _ h)

/-- Every position of the earlier state lies within one of the later state. -/
theorem cut_within (hretains : Retains second first phase)
    {cut : VoterSlotLogId} (hcut : cut ∈ first.prepare :: first.cuts) :
    ∃ kept ∈ second.prepare :: second.cuts, cut.Within kept := by
  rcases mem_cons.mp hcut with rfl | hcut
  · exact ⟨second.prepare, mem_cons_self, hretains.prepare ▸ .refl _⟩
  · have hkept : ∀ kept : VoterSlotLogId, kept ∈ second.cuts → cut.Within kept →
        ∃ kept ∈ second.prepare :: second.cuts, cut.Within kept :=
      fun kept hmem hwithin => ⟨kept, mem_cons_of_mem _ hmem, hwithin⟩
    rw [VoterReplacementEvidence.mem_cuts_iff] at hcut
    simp only [VoterReplacementEvidence.mem_cuts_iff] at hkept
    rcases hcut with hcut | hcut | hcut | hcut | hcut | hcut | hcut
    · obtain ⟨snapshot, hsnapshot, rfl⟩ := Option.map_eq_some_iff.mp hcut
      have hsame : second.snapshotCut = some snapshot.cut := by
        simp [VoterReplacementEvidence.snapshotCut, hretains.snapshot _ hsnapshot]
      exact hkept _ (.inl hsame) (.refl _)
    · exact hkept _ (by simp [hretains.learner _ hcut]) (.refl _)
    · obtain ⟨moved, hmoved, hcase⟩ := hretains.marker _ hcut
      refine hkept moved (by simp [hmoved]) ?_
      rcases hcase with rfl | ⟨_, hfollows⟩
      · exact .refl _
      · exact VoterSlotLogId.within_of_follows hfollows
    · exact hkept _ (by simp [hretains.continuation _ hcut]) (.refl _)
    · exact hkept _ (by simp [hretains.fence _ hcut]) (.refl _)
    · exact hkept _ (by simp [hretains.joint _ hcut]) (.refl _)
    · exact hkept _ (by simp [hretains.uniform _ hcut]) (.refl _)

theorem latest_within (hretains : Retains second first phase) (hfirst : first.Valid phase)
    (hsecond : second.Valid laterPhase) : first.latest.Within second.latest := by
  obtain ⟨_, hkept, hwithin⟩ := hretains.cut_within hfirst.latest.1
  exact hwithin.trans (hsecond.latest.2 _ hkept)

end Retains

/-! ## Slots -/

/-- A receipt is replaced only by a later one. -/
structure ReceiptSuccessor (new old : VoterReplacementResult) : Prop where
  revision : old.revision ≤ new.revision
  incarnation : old.incarnation.value ≤ new.incarnation.value
  epoch : old.configurationEpoch.value ≤ new.configurationEpoch.value
  same : new.revision = old.revision ∨ new.incarnation = old.incarnation → new = old

/-- A slot record is replaced only by a later one of the same slot. -/
structure SlotSuccessor (new old : VoterSlotRecord) : Prop where
  slot : new.slot = old.slot
  floor : old.retiredThrough ≤ new.retiredThrough
  incarnation : old.member.identity.incarnation.value ≤ new.member.identity.incarnation.value
  same : new.member.identity.incarnation = old.member.identity.incarnation →
    new.member = old.member ∧ old.phase ≤ new.phase
  generation : old.member.identity.incarnation.value < new.member.identity.incarnation.value →
    old.member.admissionGeneration < new.member.admissionGeneration
  receipt : ∀ result ∈ old.lastResult, ∃ next, new.lastResult = some next ∧
    ReceiptSuccessor next result

theorem validateReceiptSuccessor_iff {new : Option VoterReplacementResult}
    {old : VoterReplacementResult} :
    VoterSlotTable.validateReceiptSuccessor new old = .ok () ↔
      ∃ next, new = some next ∧ ReceiptSuccessor next old := by
  unfold VoterSlotTable.validateReceiptSuccessor
  simp only [bind_eq_ok_iff, okOr_eq_ok, refuseIf_eq_ok, not_or, not_lt, not_and, not_not]
  constructor
  · rintro ⟨next, hnew, hrevision, hincarnation, hepoch, _⟩
    refine ⟨next, hnew, hrevision, hincarnation, hepoch, ?_⟩
    tauto
  · rintro ⟨next, hnew, hnext⟩
    refine ⟨next, hnew, hnext.revision, hnext.incarnation, hnext.epoch, hnext.same⟩

theorem validateSlotSuccessor_iff {new old : VoterSlotRecord} :
    VoterSlotTable.validateSlotSuccessor new old = .ok () ↔ SlotSuccessor new old := by
  unfold VoterSlotTable.validateSlotSuccessor
  simp only [bind_eq_ok_iff, refuseIf_eq_ok, exists_const, not_or, not_lt, not_and, not_not, not_le]
  constructor
  · rintro ⟨⟨hslot, hfloor, hincarnation, hsame, hgeneration⟩, hreceipt⟩
    refine ⟨hslot, hfloor, hincarnation, hsame, hgeneration, ?_⟩
    intro result hresult
    rw [hresult] at hreceipt
    exact validateReceiptSuccessor_iff.mp hreceipt
  · intro h
    refine ⟨⟨h.slot, h.floor, h.incarnation, h.same, h.generation⟩, ?_⟩
    cases hold : old.lastResult with
    | none => rfl
    | some => exact validateReceiptSuccessor_iff.mpr (h.receipt _ hold)

theorem ReceiptSuccessor.refl (result : VoterReplacementResult) : ReceiptSuccessor result result :=
  ⟨le_rfl, le_rfl, le_rfl, fun _ => rfl⟩

theorem VoterIncarnation.eq_of_value {left right : VoterIncarnation}
    (hvalue : left.value = right.value) : left = right := by
  cases left
  cases right
  simpa using hvalue

theorem ReceiptSuccessor.trans {first second third : VoterReplacementResult}
    (hleft : ReceiptSuccessor second first) (hright : ReceiptSuccessor third second) :
    ReceiptSuccessor third first where
  revision := hleft.revision.trans hright.revision
  incarnation := hleft.incarnation.trans hright.incarnation
  epoch := hleft.epoch.trans hright.epoch
  same := by
    -- equal ends pin the middle, so both steps keep the receipt
    intro hends
    have hmiddle : (third.revision = second.revision ∨ third.incarnation = second.incarnation) ∧
        (second.revision = first.revision ∨ second.incarnation = first.incarnation) := by
      rcases hends with hends | hends
      · have hthird := hright.revision
        rw [hends] at hthird
        have hsecond := le_antisymm hthird hleft.revision
        exact ⟨.inl (hends.trans hsecond.symm), .inl hsecond⟩
      · have hthird := hright.incarnation
        rw [hends] at hthird
        have hsecond := VoterIncarnation.eq_of_value (le_antisymm hthird hleft.incarnation)
        exact ⟨.inr (hends.trans hsecond.symm), .inr hsecond⟩
    rw [hright.same hmiddle.1, hleft.same hmiddle.2]

theorem SlotSuccessor.refl (record : VoterSlotRecord) : SlotSuccessor record record where
  slot := rfl
  floor := le_rfl
  incarnation := le_rfl
  same := fun _ => ⟨rfl, le_rfl⟩
  generation := fun h => absurd h (lt_irrefl _)
  receipt := fun result hresult => ⟨result, hresult, .refl result⟩

theorem SlotSuccessor.trans {first second third : VoterSlotRecord}
    (hleft : SlotSuccessor second first) (hright : SlotSuccessor third second) :
    SlotSuccessor third first where
  slot := hright.slot.trans hleft.slot
  floor := hleft.floor.trans hright.floor
  incarnation := hleft.incarnation.trans hright.incarnation
  same := by
    intro hends
    have hthird := hright.incarnation
    rw [hends] at hthird
    have hsecond := VoterIncarnation.eq_of_value (le_antisymm hthird hleft.incarnation)
    obtain ⟨hmember, hphase⟩ := hleft.same hsecond
    obtain ⟨hmember', hphase'⟩ := hright.same (hends.trans hsecond.symm)
    exact ⟨hmember'.trans hmember, hphase.trans hphase'⟩
  generation := by
    intro hless
    rcases hleft.incarnation.lt_or_eq with hstep | hstep
    · rcases hright.incarnation.lt_or_eq with hstep' | hstep'
      · exact (hleft.generation hstep).trans (hright.generation hstep')
      · rw [(hright.same (VoterIncarnation.eq_of_value hstep'.symm)).1]
        exact hleft.generation hstep
    · rw [← (hleft.same (VoterIncarnation.eq_of_value hstep.symm)).1]
      exact hright.generation (hstep ▸ hless)
  receipt := by
    intro _ hresult
    obtain ⟨_, hnext, hsuccessor⟩ := hleft.receipt _ hresult
    obtain ⟨last, hlast, hsuccessor'⟩ := hright.receipt _ hnext
    exact ⟨last, hlast, hsuccessor.trans hsuccessor'⟩

/-! ## Operations -/

/-- A later state of the same operation. -/
structure Continues (new old : VoterReplacementRecord) : Prop where
  expectedRevision : new.expectedRevision = old.expectedRevision
  attestation : new.attestation = old.attestation
  predecessor : new.predecessor = old.predecessor
  successor : new.successor = old.successor
  phase : old.phase ≤ new.phase
  evidence : Retains new.evidence old.evidence old.phase

theorem Continues.refl (op : VoterReplacementRecord) : Continues op op :=
  ⟨rfl, rfl, rfl, rfl, le_rfl, .refl _ _⟩

theorem Continues.trans {first second third : VoterReplacementRecord}
    (hleft : Continues second first) (hright : Continues third second) :
    Continues third first where
  expectedRevision := hright.expectedRevision.trans hleft.expectedRevision
  attestation := hright.attestation.trans hleft.attestation
  predecessor := hright.predecessor.trans hleft.predecessor
  successor := hright.successor.trans hleft.successor
  phase := hleft.phase.trans hright.phase
  evidence := hleft.evidence.trans hleft.phase hright.evidence

/-- A receipt that shows how an operation ended. -/
structure Ends (table : VoterSlotTable) (op : VoterReplacementRecord)
    (receipt : VoterReplacementResult) (incarnation : VoterIncarnation) : Prop where
  covers : incarnation.value ≤ receipt.incarnation.value
  terminal : receipt.terminal.follows op.evidence.latest false = true
  fenced : .fenced ≤ op.phase → op.successor.epoch.value ≤ table.configurationEpoch.value
  named : receipt.incarnation = incarnation → receipt.requestId = op.attestation.requestId ∧
    receipt.requestDigest = op.attestation.requestDigest
  completed : receipt.incarnation = incarnation → receipt.kind = .completed →
    op.successor.epoch.value ≤ table.configurationEpoch.value
  superseded : receipt.incarnation = incarnation → receipt.kind ≠ .completed → op.phase < .fenced

/-- The slot of an operation carries the receipt of its end, or of a later one. -/
def Resolved (table : VoterSlotTable) (op : VoterReplacementRecord) : Prop :=
  ∃ record receipt incarnation,
    table.slots.find? (fun record => record.slot = op.attestation.slot) = some record ∧
    op.attestation.expectedIncarnation.next = .ok incarnation ∧
    record.lastResult = some receipt ∧ Ends table op receipt incarnation

theorem validateResolved_iff {old : VoterReplacementRecord} :
    table.validateResolved old = .ok () ↔ Resolved table old := by
  unfold VoterSlotTable.validateResolved Resolved
  simp only [bind_eq_ok_iff, okOr_eq_ok, exists_const, refuseIf_eq_ok, not_or,
    not_lt, Bool.not_eq_false, not_and]
  constructor
  · rintro ⟨record, hrecord, incarnation, hincarnation, receipt, hreceipt,
      ⟨hcovers, hterminal, hfenced⟩, hexact⟩
    refine ⟨record, receipt, incarnation, hrecord, hincarnation, hreceipt,
      hcovers, hterminal, hfenced, ?_, ?_, ?_⟩ <;> intro hsame <;>
      simp only [if_pos hsame, bind_eq_ok_iff, exists_const, refuseIf_eq_ok,
        not_or, not_not, not_and, not_lt, not_le] at hexact
    · exact hexact.1
    · exact hexact.2.1
    · exact hexact.2.2
  · rintro ⟨record, receipt, incarnation, hrecord, hincarnation, hreceipt, hends⟩
    refine ⟨record, hrecord, incarnation, hincarnation, receipt, hreceipt,
      ⟨hends.covers, hends.terminal, hends.fenced⟩, ?_⟩
    split
    · next hsame =>
      simp only [bind_eq_ok_iff, exists_const, refuseIf_eq_ok, not_or, not_not,
        not_and, not_lt, not_le]
      exact ⟨hends.named hsame, hends.completed hsame, hends.superseded hsame⟩
    · rfl

theorem validateReplacementSuccessor_iff {old : VoterReplacementRecord} :
    table.validateReplacementSuccessor old = .ok () ↔
      (∀ new, table.replacement = some new →
        new.attestation.requestId = old.attestation.requestId → Continues new old) ∧
      ((∀ new, table.replacement = some new →
        new.attestation.requestId ≠ old.attestation.requestId) → Resolved table old) := by
  unfold VoterSlotTable.validateReplacementSuccessor
  cases hfilter : table.replacement.filter fun new =>
      new.attestation.requestId = old.attestation.requestId with
  | some new =>
    obtain ⟨hnew, hid⟩ := Option.filter_eq_some_iff.mp hfilter
    rw [decide_eq_true_eq] at hid
    simp only [refuseIf_eq_ok, not_or, not_not, not_lt, Bool.not_eq_false, retains_iff]
    constructor
    · rintro ⟨hrevision, hattestation, hpredecessor, hsuccessor, hphase, hevidence⟩
      refine ⟨fun other hother _ => ?_, fun hnone => absurd hid (hnone _ hnew)⟩
      rw [hnew] at hother
      cases hother
      exact ⟨hrevision, hattestation, hpredecessor, hsuccessor, hphase, hevidence⟩
    · intro h
      have hcontinues := h.1 _ hnew hid
      exact ⟨hcontinues.expectedRevision, hcontinues.attestation, hcontinues.predecessor,
        hcontinues.successor, hcontinues.phase, hcontinues.evidence⟩
  | none =>
    have hother : ∀ new, table.replacement = some new →
        new.attestation.requestId ≠ old.attestation.requestId := by
      intro new hnew
      have := Option.filter_eq_none_iff.mp hfilter new hnew
      simpa using this
    refine validateResolved_iff.trans
      ⟨fun h => ⟨fun new hnew hid => ?_, fun _ => h⟩, fun h => h.2 hother⟩
    exact absurd hid (hother _ hnew)

/-! ## Tables -/

/-- A table that may replace `previous`. -/
structure Successor (table previous : VoterSlotTable) : Prop where
  cluster : table.clusterInstance = previous.clusterInstance
  manifest : table.manifestDigest = previous.manifestDigest
  epoch : previous.configurationEpoch.value ≤ table.configurationEpoch.value
  revision : table = previous ∨ previous.revision < table.revision
  slots : List.Forall₂ SlotSuccessor table.slots previous.slots
  replacement : ∀ old, previous.replacement = some old → table ≠ previous →
    table.validateReplacementSuccessor old = .ok ()

/-- The slots of an installation never change. -/
theorem Successor.map_slot_eq (hsuccessor : Successor table previous) :
    table.slots.map (·.slot) = previous.slots.map (·.slot) := by
  have hsame : List.Forall₂ (· = ·) (table.slots.map (·.slot)) (previous.slots.map (·.slot)) := by
    rw [forall₂_map_left_iff, forall₂_map_right_iff]
    exact hsuccessor.slots.imp fun _ _ hrecord => hrecord.slot
  rwa [forall₂_eq_eq_eq] at hsame

theorem forall₂_of_zip {β : Type} {Rel : α → β → Prop} {left : List α}
    {right : List β} (hlength : left.length = right.length) :
    (∀ pair ∈ left.zip right, Rel pair.1 pair.2) ↔ List.Forall₂ Rel left right := by
  rw [forall₂_iff_zip]
  exact ⟨fun h => ⟨hlength, fun hmem => h _ hmem⟩, fun h pair hpair => h.2 hpair⟩

theorem validateSuccessorOf_iff :
    table.validateSuccessorOf previous = .ok () ↔
      table.validate = .ok () ∧ previous.validate = .ok () ∧ Successor table previous := by
  unfold VoterSlotTable.validateSuccessorOf
  simp only [bind_eq_ok_iff, exists_const, refuseIf_eq_ok, not_or, not_not, not_lt]
  constructor
  · rintro ⟨⟨⟩, hvalid, ⟨⟩, hprevious, ⟨hcluster, hmanifest, hrevision, hepoch, hlength⟩, hrest⟩
    refine ⟨hvalid, hprevious, ?_⟩
    by_cases hsame : table.revision = previous.revision
    · rw [if_pos hsame] at hrest
      by_cases heq : table = previous
      · subst heq
        exact ⟨rfl, rfl, le_rfl, .inl rfl, forall₂_same.mpr fun slot _ => .refl slot,
          fun _ _ hne => absurd rfl hne⟩
      · rw [if_neg heq] at hrest
        cases hrest
    · rw [if_neg hsame, bind_eq_ok_iff] at hrest
      obtain ⟨_, hslots, hrest⟩ := hrest
      rw [forM_eq_ok] at hslots
      simp only [validateSlotSuccessor_iff] at hslots
      refine ⟨hcluster, hmanifest, hepoch, .inr (lt_of_le_of_ne hrevision (Ne.symm hsame)),
        (forall₂_of_zip hlength).mp hslots, ?_⟩
      intro old hold _
      rw [hold] at hrest
      exact hrest
  · rintro ⟨hvalid, hprevious, h⟩
    refine ⟨⟨⟩, hvalid, ⟨⟩, hprevious, ?_⟩
    have hlength := h.slots.length_eq
    rcases h.revision with rfl | hless
    · simp
    · have hne : table ≠ previous := by
        rintro rfl
        exact lt_irrefl _ hless
      refine ⟨⟨h.cluster, h.manifest, hless.le, h.epoch, hlength⟩, ?_⟩
      rw [if_neg hless.ne', bind_eq_ok_iff]
      refine ⟨⟨⟩, ?_, ?_⟩
      · rw [forM_eq_ok]
        simp only [validateSlotSuccessor_iff]
        exact (forall₂_of_zip hlength).mpr h.slots
      · cases hold : previous.replacement with
        | none => rfl
        | some => exact h.replacement _ hold hne

end PacketCore.VoterSlots
