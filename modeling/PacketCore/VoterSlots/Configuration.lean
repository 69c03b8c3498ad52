import PacketCore.VoterSlots.Steps

/-!
# Uniform configurations

The configuration a valid table stands for has one member for each slot.  An
operation moves it from its predecessor to its successor, which differ in the
target slot only, and a retired incarnation is never selected again.
-/

namespace PacketCore.VoterSlots

open List

/-- Two configurations that differ in exactly one member: the same slot, held by
a later incarnation of a later selection. -/
def ReplacesOne (old new : VoterConfiguration) : Prop :=
  ∃ front back leaving joining, old.members = front ++ leaving :: back ∧
    new.members = front ++ joining :: back ∧
    joining.identity.slot = leaving.identity.slot ∧
    leaving.identity.incarnation.value < joining.identity.incarnation.value ∧
    leaving.admissionGeneration < joining.admissionGeneration

variable {cut : VoterSlotLogId} {new voters : Finset ConsensusNodeId} {node : ConsensusNodeId}

namespace VoterSlotTable

variable {table next : VoterSlotTable} {op : VoterReplacementRecord}

/-! ## Slots of a valid table -/

theorem Valid.slots_nodup (hvalid : table.Valid) : (table.slots.map (·.slot)).Nodup := by
  refine pairwise_map.mpr (hvalid.sorted.imp ?_)
  intro _ _ hless heq
  rw [heq] at hless
  exact lt_irrefl _ hless

theorem Valid.eq_of_slot (hvalid : table.Valid) {left right : VoterSlotRecord}
    (hleft : left ∈ table.slots) (hright : right ∈ table.slots)
    (hslot : left.slot = right.slot) : left = right :=
  inj_on_of_nodup_map hvalid.slots_nodup hleft hright hslot

/-! ## Rows of an operation -/

section

variable (hop : table.OperationValid op)
include hop

theorem OperationValid.rows_fst :
    (table.rows op).map Prod.fst = table.slots.zip op.predecessor.members := by
  refine map_fst_zip ?_
  simp [hop.predecessorLength, hop.successorLength]

theorem OperationValid.rows_slots : (table.rows op).map (·.1.1) = table.slots := by
  calc (table.rows op).map (·.1.1)
      = ((table.rows op).map Prod.fst).map Prod.fst := by rw [map_map]; rfl
    _ = table.slots := by rw [hop.rows_fst, map_fst_zip hop.predecessorLength.ge]

theorem OperationValid.rows_predecessor : (table.rows op).map (·.1.2) = op.predecessor.members := by
  calc (table.rows op).map (·.1.2)
      = ((table.rows op).map Prod.fst).map Prod.snd := by rw [map_map]; rfl
    _ = op.predecessor.members := by rw [hop.rows_fst, map_snd_zip hop.predecessorLength.le]

theorem OperationValid.rows_successor : (table.rows op).map (·.2) = op.successor.members := by
  refine map_snd_zip ?_
  simp [hop.predecessorLength, hop.successorLength]

theorem OperationValid.selected_eq : table.selected = op.successor.members := by
  calc table.selected = ((table.rows op).map (·.1.1)).map (·.member) := by
        rw [hop.rows_slots]; rfl
    _ = (table.rows op).map (·.2) := by
        rw [map_map]
        exact map_congr_left fun row hrow => (hop.rowsValid _ hrow).selected
    _ = op.successor.members := hop.rows_successor

theorem OperationValid.predecessor_slots :
    op.predecessor.members.map (·.identity.slot) = table.slots.map (·.slot) := by
  rw [← hop.rows_predecessor, ← hop.rows_slots, map_map, map_map]
  refine map_congr_left fun row hrow => ?_
  have hvalid := hop.rowsValid _ hrow
  simp only [Function.comp_apply, VoterSlotRecord.slot, hvalid.selected, hvalid.sameSlot]

theorem OperationValid.replacesOne (hvalid : table.Valid) :
    ReplacesOne op.predecessor op.successor := by
  obtain ⟨row, hmem, htarget⟩ := hop.targetRow
  obtain ⟨front, back, hsplit⟩ := append_of_mem hmem
  have hnodup : ((front ++ row :: back).map fun row => row.1.1.slot).Nodup := by
    have hslots := hvalid.slots_nodup
    rwa [← hop.rows_slots, map_map, hsplit] at hslots
  rw [map_append, map_cons, nodup_append, nodup_cons] at hnodup
  -- every other row is about another slot, so it keeps its member
  have hfront : front.map (·.1.2) = front.map (·.2) := by
    refine map_congr_left fun other hother => ?_
    have hne : other.1.1.slot ≠ op.attestation.slot := by
      rw [← htarget]
      exact hnodup.2.2 _ (mem_map_of_mem hother) _ mem_cons_self
    exact (hop.rowsValid _ (by simp [hsplit, hother])).other hne
  have hback : back.map (·.1.2) = back.map (·.2) := by
    refine map_congr_left fun other hother => ?_
    have hne : other.1.1.slot ≠ op.attestation.slot := by
      rw [← htarget]
      intro heq
      exact hnodup.2.1.1 (heq ▸ mem_map_of_mem hother)
    exact (hop.rowsValid _ (by simp [hsplit, hother])).other hne
  have hrow := hop.rowsValid _ hmem
  obtain ⟨hnext, _, hgeneration⟩ := hrow.target htarget
  refine ⟨front.map (·.2), back.map (·.2), row.1.2, row.2, ?_, ?_,
    hrow.sameSlot.symm, ?_, hgeneration⟩
  · rw [← hop.rows_predecessor, hsplit, map_append, map_cons, hfront, hback]
  · rw [← hop.rows_successor, hsplit, map_append, map_cons]
  · have := VoterIncarnation.next_eq_ok hnext
    omega

end

/-! ## The current configuration -/

theorem Valid.current_operation (hvalid : table.Valid) (hop : table.replacement = some op) :
    table.currentConfiguration = if op.phase = .uniform then op.successor else op.predecessor := by
  have hoperation := hvalid.operation op hop
  simp only [currentConfiguration, hop]
  by_cases huniform : op.phase = .uniform
  · rw [if_pos huniform, if_neg (by rw [huniform]; decide), hoperation.epoch,
      if_pos huniform, hoperation.selected_eq]
  · have hbelow : op.phase < .uniform := by
      cases hphase : op.phase <;> first | decide | exact absurd hphase huniform
    rw [if_neg huniform, if_pos hbelow]

theorem Valid.current_slots (hvalid : table.Valid) :
    table.currentConfiguration.members.map (·.identity.slot) = table.slots.map (·.slot) := by
  have hselected : table.selected.map (·.identity.slot) = table.slots.map (·.slot) := by
    simp only [selected, map_map]
    rfl
  cases hop : table.replacement with
  | none =>
    simp only [currentConfiguration, hop]
    exact hselected
  | some op =>
    have hoperation := hvalid.operation op hop
    rw [hvalid.current_operation hop]
    split
    · rw [← hoperation.selected_eq]
      exact hselected
    · exact hoperation.predecessor_slots

theorem Valid.card_current (hvalid : table.Valid) :
    (memberIds table.currentConfiguration).card = table.slots.length := by
  have hslots := hvalid.current_slots
  have hnodup : (table.currentConfiguration.members.map fun member =>
      member.identity.nodeId).Nodup := by
    have := hvalid.slots_nodup
    rw [← hslots] at this
    refine List.Nodup.of_map
      (fun node => (VoterSlotIdentity.fromNodeId node).toOption.map (·.slot)) ?_
    rw [map_map]
    have hdecode : table.currentConfiguration.members.map
        ((fun node => (VoterSlotIdentity.fromNodeId node).toOption.map (·.slot)) ∘
          fun member => member.identity.nodeId) =
        (table.currentConfiguration.members.map (·.identity.slot)).map some := by
      rw [map_map]
      simp [VoterSlotIdentity.fromNodeId_nodeId, Except.toOption]
    rw [hdecode]
    exact this.map (Option.some_injective _)
  unfold memberIds
  rw [toFinset_card_of_nodup hnodup]
  simpa using congrArg length hslots

theorem map_updateSlot {α : Type} {slot : SlotId} {update : VoterSlotRecord → VoterSlotRecord}
    {read : VoterSlotRecord → α} (hread : ∀ record, read (update record) = read record)
    (slots : List VoterSlotRecord) : (updateSlot slot update slots).map read = slots.map read := by
  induction slots with
  | nil => rfl
  | cons _ _ ih =>
    unfold updateSlot
    split
    · simp [hread]
    · simp [ih]

/-- No command moves the uniform configuration. -/
theorem ControlStep.current_eq {sha256 : Sha256} {control : VoterSlotControl}
    (hstep : ControlStep sha256 table cut control next) :
    next.currentConfiguration = table.currentConfiguration := by
  cases hstep with
  | beginAgain | begun | finalizeAgain | advanceAgain | marked => rfl
  | advanced op advanced _ _ hop hadvanced =>
    have hphase : op.phase < .uniform ∧ advanced.phase < .uniform ∧
        advanced.predecessor = op.predecessor := by
      cases advanceOperation_cases hadvanced with
      | snapshot _ hphase =>
        exact ⟨by rw [hphase]; decide,
          show VoterReplacementPhase.snapshotInstalled < .uniform by decide, rfl⟩
      | caughtUp _ hphase =>
        exact ⟨hphase.trans (by decide),
          show VoterReplacementPhase.caughtUp < .uniform by decide, rfl⟩
      | continuation hphase =>
        have hbelow : op.phase < .uniform := hphase.trans (by decide)
        exact ⟨hbelow, hbelow, rfl⟩
      | fence _ hphase =>
        exact ⟨by rw [hphase]; decide, show VoterReplacementPhase.fenced < .uniform by decide, rfl⟩
    simp only [currentConfiguration, hop, if_pos hphase.1, if_pos hphase.2.1, hphase.2.2]
  | finalized op revision hop hphase =>
    have hbelow : ¬ op.phase < .uniform := by
      rw [hphase]
      decide
    have hselected : (table.finalized op revision cut).selected = table.selected := by
      refine map_updateSlot ?_ _
      exact fun _ => rfl
    simp only [currentConfiguration, hop, if_neg hbelow]
    rw [← hselected]
    rfl

/-- A single voter set is the old one, or the new one at the end of the joint phase. -/
theorem ObservedStep.single {observed : VoterReplacementRecord}
    (hstep : ObservedStep op [voters] cut observed) :
    (voters = memberIds op.predecessor ∧ op.phase ≠ .uniform ∧
      observed.phase ≠ .uniform ∧ observed.predecessor = op.predecessor) ∨
    (voters = memberIds op.successor ∧ observed.phase = .uniform ∧
      observed.successor = op.successor ∧ (op.phase = .joint ∨ op.phase = .uniform)) := by
  cases hstep with
  | old hold hphase =>
    have hne : op.phase ≠ .uniform := fun heq => absurd hphase (by rw [heq]; decide)
    exact .inl ⟨by simpa using hold, hne, hne, rfl⟩
  | learner hold hphase =>
    exact .inl ⟨by simpa using hold, by rw [hphase]; decide, nofun, rfl⟩
  | joint hjoint => simp at hjoint
  | jointAgain hjoint => simp at hjoint
  | uniform huniform hphase => exact .inr ⟨by simpa using huniform, rfl, rfl, .inl hphase⟩
  | uniformAgain huniform hphase =>
    exact .inr ⟨by simpa using huniform, hphase, rfl, .inr hphase⟩

/-- Two voter sets are the old and the new one, behind the fence. -/
theorem ObservedStep.double {observed : VoterReplacementRecord}
    {old : Finset ConsensusNodeId} (hstep : ObservedStep op [old, new] cut observed) :
    old = memberIds op.predecessor ∧ new = memberIds op.successor ∧
      .fenced ≤ op.phase ∧ op.phase ≠ .uniform ∧ observed.phase ≠ .uniform ∧
      observed.predecessor = op.predecessor := by
  cases hstep with
  | old hold => simp at hold
  | learner hold => simp at hold
  | joint hjoint hphase =>
    have hsets : old = memberIds op.predecessor ∧ new = memberIds op.successor := by
      simpa using hjoint
    exact ⟨hsets.1, hsets.2, hphase.ge, by rw [hphase]; decide, nofun, rfl⟩
  | jointAgain hjoint hphase =>
    have hsets : old = memberIds op.predecessor ∧ new = memberIds op.successor := by
      simpa using hjoint
    exact ⟨hsets.1, hsets.2, by rw [hphase]; decide, by rw [hphase]; decide,
      by rw [hphase]; decide, rfl⟩
  | uniform huniform => simp at huniform
  | uniformAgain huniform => simp at huniform

/-- A single voter set is the uniform configuration after the entry; it is new
only when the joint phase ends. -/
theorem MembershipStep.current_single (hstep : MembershipStep table [voters] cut next)
    (hvalid : table.Valid) (hnext : next.Valid) :
    voters = memberIds next.currentConfiguration ∧
      (next.currentConfiguration = table.currentConfiguration ∨
        ∃ op, table.replacement = some op ∧ op.phase = .joint ∧
          table.currentConfiguration = op.predecessor ∧
          next.currentConfiguration = op.successor ∧ next.selected = op.successor.members) := by
  cases hstep with
  | idle _ hcurrent => exact ⟨by simpa using hcurrent, .inl rfl⟩
  | unchanged _ hop hobserved =>
    refine ⟨?_, .inl rfl⟩
    rw [hvalid.current_operation hop]
    rcases hobserved.single with ⟨hvoters, hphase, _⟩ | ⟨hvoters, hphase, _⟩
    · rwa [if_neg hphase]
    · rwa [if_pos hphase]
  | observed op observed _ hop hobserved =>
    have hbefore := hvalid.current_operation hop
    have hafter := hnext.current_operation (show _ = some observed from rfl)
    rcases hobserved.single with ⟨hvoters, hphase, hphase', hsame⟩ |
      ⟨hvoters, hphase', hsame, hphase⟩
    · rw [if_neg hphase] at hbefore
      rw [if_neg hphase', hsame] at hafter
      rw [hafter, hbefore]
      exact ⟨hvoters, .inl rfl⟩
    · rw [if_pos hphase', hsame] at hafter
      rw [hafter]
      refine ⟨hvoters, ?_⟩
      rcases hphase with hphase | hphase
      · rw [if_neg (by rw [hphase]; decide)] at hbefore
        have hselected := (hnext.operation _ rfl).selected_eq
        rw [hsame] at hselected
        exact .inr ⟨op, hop, hphase, hbefore, rfl, hselected⟩
      · rw [if_pos hphase] at hbefore
        exact .inl hbefore.symm

/-- Two voter sets are those of the operation, which is past its fence. -/
theorem MembershipStep.current_joint {old : Finset ConsensusNodeId}
    (hstep : MembershipStep table [old, new] cut next) (hvalid : table.Valid) (hnext : next.Valid) :
    next.currentConfiguration = table.currentConfiguration ∧
      ∃ op, table.replacement = some op ∧ .fenced ≤ op.phase ∧
        table.currentConfiguration = op.predecessor ∧
        old = memberIds op.predecessor ∧ new = memberIds op.successor := by
  cases hstep with
  | idle _ hcurrent => simp at hcurrent
  | unchanged op hop hobserved =>
    obtain ⟨hold, hnew, hfenced, hphase, _⟩ := hobserved.double
    have hcurrent := hvalid.current_operation hop
    rw [if_neg hphase] at hcurrent
    exact ⟨rfl, op, hop, hfenced, hcurrent, hold, hnew⟩
  | observed op observed _ hop hobserved =>
    obtain ⟨hold, hnew, hfenced, hphase, hphase', hsame⟩ := hobserved.double
    have hbefore := hvalid.current_operation hop
    have hafter := hnext.current_operation (show _ = some observed from rfl)
    rw [if_neg hphase] at hbefore
    rw [if_neg hphase', hsame] at hafter
    exact ⟨hafter.trans hbefore.symm, op, hop, hfenced, hbefore, hold, hnew⟩

/-- Only entries with one or two voter sets are accepted. -/
theorem MembershipStep.configurations {configurations : List (Finset ConsensusNodeId)}
    (hstep : MembershipStep table configurations cut next) :
    (∃ voters, configurations = [voters]) ∨ ∃ old new, configurations = [old, new] := by
  have hoperation : ∀ op observed, ObservedStep op configurations cut observed →
      (∃ voters, configurations = [voters]) ∨ ∃ old new, configurations = [old, new] := by
    intro op observed hobserved
    cases hobserved with
    | old hold | learner hold => exact .inl ⟨_, hold⟩
    | joint hjoint | jointAgain hjoint => exact .inr ⟨_, _, hjoint⟩
    | uniform huniform | uniformAgain huniform => exact .inl ⟨_, huniform⟩
  cases hstep with
  | idle _ hcurrent => exact .inl ⟨_, hcurrent⟩
  | unchanged op _ hobserved => exact hoperation op op hobserved
  | observed op _ _ _ hobserved => exact hoperation op _ hobserved

/-! ## Retirement -/

theorem isRetired_iff :
    table.isRetired node = true ↔ ∃ identity, VoterSlotIdentity.fromNodeId node = .ok identity ∧
      ∃ record ∈ table.slots, record.slot = identity.slot ∧
        identity.incarnation.value ≤ record.retiredThrough.val := by
  unfold isRetired
  cases VoterSlotIdentity.fromNodeId node <;> simp

theorem isRetired_successor (hsuccessor : Successor next table)
    (hretired : table.isRetired node = true) : next.isRetired node = true := by
  rw [isRetired_iff] at hretired ⊢
  obtain ⟨identity, hidentity, _, hrecord, hslot, hfloor⟩ := hretired
  obtain ⟨index, hindex, rfl⟩ := mem_iff_getElem.mp hrecord
  have hlength := hsuccessor.slots.length_eq
  have hnext := hsuccessor.slots.get (by omega) hindex
  refine ⟨identity, hidentity, _, get_mem _ ⟨index, by omega⟩, hnext.slot.trans hslot, ?_⟩
  have hle : (table.slots.get ⟨index, hindex⟩).retiredThrough ≤
      (next.slots.get ⟨index, by omega⟩).retiredThrough := hnext.floor
  exact hfloor.trans hle

theorem Valid.not_retired_selected (hvalid : table.Valid) {member : VoterSlotMember}
    (hmember : member ∈ table.selected) : table.isRetired member.identity.nodeId = false := by
  rw [Bool.eq_false_iff]
  intro hretired
  obtain ⟨identity, hidentity, record, hrecord, hslot, _⟩ := isRetired_iff.mp hretired
  rw [VoterSlotIdentity.fromNodeId_nodeId] at hidentity
  cases hidentity
  obtain ⟨selected, hselected, rfl⟩ := mem_map.mp hmember
  obtain rfl := hvalid.eq_of_slot hrecord hselected hslot
  have hvalue := (hvalid.slotsValid _ hrecord).floor
  have hpositive := record.member.identity.incarnation.positive
  omega

end VoterSlotTable

end PacketCore.VoterSlots
