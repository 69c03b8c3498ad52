import PacketCore.VoterSlots.Control

/-!
# What validation guarantees

The checks of a table as named facts.  The evidence of an operation is a chain
of log positions, so that its latest position bounds all of them; the rows of an
operation differ in the target slot only.
-/

namespace PacketCore.VoterSlots

open List

/-! ## Evidence -/

variable {cut first : VoterSlotLogId} {phase : VoterReplacementPhase}
  {self : VoterReplacementEvidence} {op : VoterReplacementRecord}
  {slot : VoterSlotRecord} {table : VoterSlotTable}

namespace VoterSlotLogId

/-- The same position, or an earlier one in a term that is not later. -/
def Before (self later : VoterSlotLogId) : Prop :=
  self = later ∨ (self.index < later.index ∧ self.term ≤ later.term)

theorem Before.within {self later : VoterSlotLogId}
    (hbefore : self.Before later) : self.Within later := by
  rcases hbefore with rfl | ⟨hindex, hterm⟩
  · exact .refl _
  · exact ⟨hindex.le, hterm⟩

theorem Before.trans {second third : VoterSlotLogId} (hleft : first.Before second)
    (hright : second.Before third) : first.Before third := by
  rcases hleft with rfl | ⟨hindex, hterm⟩
  · exact hright
  · rcases hright with rfl | ⟨hindex', hterm'⟩
    · exact .inr ⟨hindex, hterm⟩
    · exact .inr ⟨hindex.trans hindex', hterm.trans hterm'⟩

/-- One of the two positions lies before the other. -/
def Comparable (left right : VoterSlotLogId) : Prop := left.Before right ∨ right.Before left

theorem before_of_follows {self older : VoterSlotLogId} {allowEqual : Bool}
    (hfollows : self.follows older allowEqual = true) : older.Before self := by
  unfold follows at hfollows
  split at hfollows
  · rw [Bool.and_eq_true, decide_eq_true_eq] at hfollows
    exact .inl hfollows.2.symm
  · rw [Bool.and_eq_true, decide_eq_true_eq, decide_eq_true_eq] at hfollows
    exact .inr hfollows

/-- Keep the position with the higher index. -/
def later (latest cut : VoterSlotLogId) : VoterSlotLogId :=
  if latest.index < cut.index then cut else latest

theorem later_mem (latest cut : VoterSlotLogId) : latest.later cut ∈ [latest, cut] := by
  unfold later
  split <;> simp

theorem before_later {latest : VoterSlotLogId} (hcomparable : latest.Comparable cut) :
    latest.Before (latest.later cut) ∧ cut.Before (latest.later cut) := by
  unfold later
  split
  · next hless =>
    refine ⟨?_, .inl rfl⟩
    rcases hcomparable with hbefore | hbefore
    · exact hbefore
    · exact absurd hbefore.within.1 (not_le.mpr hless)
  · next hless =>
    refine ⟨.inl rfl, ?_⟩
    rcases hcomparable with (rfl | ⟨hindex, _⟩) | hbefore
    · exact .inl rfl
    · exact absurd hindex hless
    · exact hbefore

end VoterSlotLogId

open VoterSlotLogId

/-- Among pairwise comparable positions the fold keeps the last one. -/
theorem foldl_later {items : List VoterSlotLogId}
    (hcomparable : (first :: items).Pairwise Comparable) :
    items.foldl later first ∈ first :: items ∧
      ∀ cut ∈ first :: items, cut.Before (items.foldl later first) := by
  induction items generalizing first with
  | nil => simp [Before]
  | cons item items ih =>
    obtain ⟨hfirst, hrest⟩ := pairwise_cons.mp hcomparable
    obtain ⟨hitem, hitems⟩ := pairwise_cons.mp hrest
    have hnext : (first.later item :: items).Pairwise Comparable := by
      refine pairwise_cons.mpr ⟨fun other hother => ?_, hitems⟩
      rcases mem_pair.mp (later_mem _ _) with heq | heq
      · rw [heq]
        exact hfirst _ (by simp [hother])
      · rw [heq]
        exact hitem _ hother
    obtain ⟨hmem, hbefore⟩ := ih hnext
    obtain ⟨hleft, hright⟩ := before_later (hfirst item (by simp))
    have hlast := hbefore _ mem_cons_self
    rw [foldl_cons]
    refine ⟨?_, ?_⟩
    · rcases mem_cons.mp hmem with heq | hmem
      · rw [heq]
        rcases mem_pair.mp (later_mem first item) with heq | heq <;> simp [heq]
      · simp [hmem]
    · rw [forall_mem_cons, forall_mem_cons]
      exact ⟨hleft.trans hlast, hright.trans hlast, (forall_mem_cons.mp hbefore).2⟩

namespace VoterReplacementEvidence

theorem mem_cuts_iff :
    cut ∈ self.cuts ↔ self.snapshotCut = some cut ∨ self.learner = some cut ∨
      self.caughtUp = some cut ∨ self.continuation = some cut ∨ self.fence = some cut ∨
      self.joint = some cut ∨ self.uniform = some cut := by
  simp only [cuts, reduceOption_mem_iff, mem_cons, not_mem_nil, or_false, @eq_comm _ (some cut)]

/-- The positions of the replacement proper, in the order of its phases. -/
def progress (self : VoterReplacementEvidence) : List VoterSlotLogId :=
  (self.ordered.map (·.1)).reduceOption

theorem validateCut_eq_ok {previous next : VoterSlotLogId}
    {entry : Option VoterSlotLogId × VoterReplacementPhase}
    (hok : validateCut phase previous entry = .ok next) :
    entry.1.isSome = decide (entry.2 ≤ phase) ∧ previous.Before next ∧
      (∀ cut ∈ entry.1, next = cut) ∧ (entry.1 = none → next = previous) := by
  obtain ⟨cut, _⟩ := entry
  obtain ⟨hpresent, hok⟩ := require_bind hok
  cases cut with
  | none =>
    cases hok
    exact ⟨hpresent, .inl rfl, by simp, fun _ => rfl⟩
  | some =>
    obtain ⟨_, _, hok⟩ := bind_eq_ok hok
    obtain ⟨hfollows, hok⟩ := require_bind hok
    cases hok
    exact ⟨hpresent, before_of_follows hfollows, by simp, by simp⟩

/-- The loop over the ordered positions: each is present exactly from its phase
on, and together with the start they form a chain. -/
theorem validateCuts_eq_ok {entries : List (Option VoterSlotLogId × VoterReplacementPhase)}
    {last : VoterSlotLogId} (hok : entries.foldlM (validateCut phase) first = .ok last) :
    (∀ entry ∈ entries, entry.1.isSome = decide (entry.2 ≤ phase)) ∧
      (first :: (entries.map (·.1)).reduceOption).Pairwise Before := by
  induction entries generalizing first with
  | nil => simp
  | cons entry entries ih =>
    obtain ⟨_, hentry, hrest⟩ := bind_eq_ok hok
    obtain ⟨hpresent, hbefore, hsome, _⟩ := validateCut_eq_ok hentry
    obtain ⟨hpresents, hchain⟩ := ih hrest
    refine ⟨by simpa [hpresent] using hpresents, ?_⟩
    obtain ⟨hfirst, hpairs⟩ := pairwise_cons.mp hchain
    obtain ⟨cut, _⟩ := entry
    have hfront : ∀ cut ∈ (entries.map (·.1)).reduceOption, first.Before cut :=
      fun cut hcut => hbefore.trans (hfirst _ hcut)
    cases cut with
    | none =>
      exact pairwise_cons.mpr ⟨hfront, hpairs⟩
    | some =>
      obtain rfl := hsome _ rfl
      exact pairwise_cons.mpr ⟨forall_mem_cons.mpr ⟨hbefore, hfront⟩, hchain⟩

/-- What a valid evidence record guarantees. -/
structure Valid (evidence : VoterReplacementEvidence) (phase : VoterReplacementPhase) : Prop where
  present : ∀ entry ∈ evidence.ordered, entry.1.isSome = decide (entry.2 ≤ phase)
  chain : (evidence.prepare :: evidence.progress).Pairwise Before
  continued : ∀ continuation ∈ evidence.continuation,
    ∀ cut ∈ evidence.prepare :: evidence.progress, cut.Comparable continuation

theorem validateContinuation_eq_ok {continuation : VoterSlotLogId}
    (hpresent : ∀ entry ∈ self.ordered, entry.1.isSome = decide (entry.2 ≤ phase))
    (hchain : (self.prepare :: self.progress).Pairwise Before)
    (hok : self.validateContinuation continuation = .ok ()) :
    ∀ cut ∈ self.prepare :: self.progress, cut.Comparable continuation := by
  obtain ⟨_, _, hok⟩ := bind_eq_ok hok
  obtain ⟨hprepare, hok⟩ := require_bind hok
  obtain ⟨hfence, hok⟩ := require_bind hok
  rw [forM_eq_ok] at hok
  have hearly : ∀ cut ∈ [self.snapshotCut, self.learner, self.caughtUp].reduceOption,
      cut.Comparable continuation := by
    intro cut hcut
    have hmem : some cut ∈ [(self.snapshotCut, true), (self.learner, false),
        (self.caughtUp, false)].map Prod.fst := reduceOption_mem_iff.mp hcut
    obtain ⟨entry, hentry, hentryCut⟩ := mem_map.mp hmem
    have hcheck := require_eq_ok.mp (hok _ hentry) _ hentryCut
    split at hcheck
    · exact .inl (before_of_follows hcheck)
    · exact .inr (before_of_follows hcheck)
  have hsplit : self.progress = [self.snapshotCut, self.learner, self.caughtUp].reduceOption ++
      [self.fence, self.joint, self.uniform].reduceOption :=
    reduceOption_append [self.snapshotCut, self.learner, self.caughtUp]
      [self.fence, self.joint, self.uniform]
  have hlate : ∀ cut ∈ [self.fence, self.joint, self.uniform].reduceOption,
      continuation.Before cut := by
    rw [hsplit, ← cons_append, pairwise_append] at hchain
    intro cut hcut
    cases hself : self.fence with
    | none =>
      -- without a fence the phase is below it, and nothing later is present
      have hphase : ¬ VoterReplacementPhase.fenced ≤ phase := by
        have := hpresent (self.fence, .fenced) (by simp [ordered])
        simpa [hself] using this
      have hjoint := hpresent (self.joint, .joint) (by simp [ordered])
      have huniform := hpresent (self.uniform, .uniform) (by simp [ordered])
      have hbelowJoint : ¬ VoterReplacementPhase.joint ≤ phase :=
        fun hle => hphase (le_trans (by decide) hle)
      have hbelowUniform : ¬ VoterReplacementPhase.uniform ≤ phase :=
        fun hle => hphase (le_trans (by decide) hle)
      simp only [decide_eq_false hbelowJoint, decide_eq_false hbelowUniform,
        Option.isSome_eq_false_iff, Option.isNone_iff_eq_none] at hjoint huniform
      rw [hself, hjoint, huniform] at hcut
      simp [reduceOption] at hcut
    | some fence =>
      have hbefore : continuation.Before fence := before_of_follows (hfence _ hself)
      rw [hself] at hcut hchain
      rcases mem_cons.mp hcut with rfl | hcut
      · exact hbefore
      · exact hbefore.trans ((pairwise_cons.mp hchain.2.1).1 cut hcut)
  rw [hsplit, forall_mem_cons, forall_mem_append]
  exact ⟨.inl (before_of_follows hprepare), hearly, fun cut hcut => .inr (hlate cut hcut)⟩

theorem valid_of_validate (hok : self.validate phase = .ok ()) : self.Valid phase := by
  iterate 2 obtain ⟨_, _, hok⟩ := bind_eq_ok hok
  obtain ⟨_, hcuts, hok⟩ := bind_eq_ok hok
  obtain ⟨hpresent, hchain⟩ := validateCuts_eq_ok hcuts
  refine ⟨hpresent, hchain, ?_⟩
  intro _ hcontinuation
  rw [hcontinuation] at hok
  exact validateContinuation_eq_ok hpresent hchain hok

namespace Valid

variable {evidence : VoterReplacementEvidence} {phase : VoterReplacementPhase}

theorem mem_cuts :
    cut ∈ evidence.cuts ↔ cut ∈ evidence.progress ∨ evidence.continuation = some cut := by
  simp only [mem_cuts_iff, progress, ordered, reduceOption_mem_iff, map_cons,
    map_nil, mem_cons, not_mem_nil, or_false, @eq_comm _ (some cut)]
  tauto

/-- Any two positions of valid evidence are comparable. -/
theorem comparable (hvalid : evidence.Valid phase) :
    ∀ left ∈ evidence.prepare :: evidence.cuts,
      ∀ right ∈ evidence.prepare :: evidence.cuts, left.Comparable right := by
  have hprogress : ∀ left ∈ evidence.prepare :: evidence.progress,
      ∀ right ∈ evidence.prepare :: evidence.progress, left.Comparable right := by
    intro left hleft right hright
    have hforward : (evidence.prepare :: evidence.progress).Pairwise Comparable :=
      hvalid.chain.imp Or.inl
    have hbackward : (evidence.prepare :: evidence.progress).Pairwise (flip Comparable) :=
      hvalid.chain.imp Or.inr
    exact hforward.forall_of_forall_of_flip (fun _ _ => .inl (.inl rfl)) hbackward hleft hright
  have hcase : ∀ cut ∈ evidence.prepare :: evidence.cuts,
      cut ∈ evidence.prepare :: evidence.progress ∨ evidence.continuation = some cut := by
    intro cut hcut
    rcases mem_cons.mp hcut with rfl | hcut
    · exact .inl mem_cons_self
    · exact (mem_cuts.mp hcut).imp_left (mem_cons_of_mem _)
  intro left hleft right hright
  rcases hcase _ hleft with hleft | hleft <;> rcases hcase _ hright with hright | hright
  · exact hprogress _ hleft _ hright
  · exact hvalid.continued _ hright _ hleft
  · exact (hvalid.continued _ hleft _ hright).symm
  · rw [hleft] at hright
    cases hright
    exact .inl (.inl rfl)

/-- The latest position is one of the positions and bounds all of them. -/
theorem latest (hvalid : evidence.Valid phase) :
    evidence.latest ∈ evidence.prepare :: evidence.cuts ∧
      ∀ cut ∈ evidence.prepare :: evidence.cuts, cut.Within evidence.latest := by
  obtain ⟨hmem, hbefore⟩ := foldl_later (pairwise_of_forall_mem_list hvalid.comparable)
  exact ⟨hmem, fun cut hcut => (hbefore _ hcut).within⟩

end Valid

end VoterReplacementEvidence

/-! ## Tables -/

namespace VoterSlotTable

/-- What the check of one row of an operation guarantees. -/
structure RowValid (op : VoterReplacementRecord) (slot : VoterSlotRecord)
    (predecessor successor : VoterSlotMember) : Prop where
  selected : slot.member = successor
  sameSlot : predecessor.identity.slot = successor.identity.slot
  target : slot.slot = op.attestation.slot →
    op.attestation.expectedIncarnation.next = .ok successor.identity.incarnation ∧
      predecessor.identity.incarnation.value ≤ op.attestation.expectedIncarnation.value ∧
      predecessor.admissionGeneration < successor.admissionGeneration
  other : slot.slot ≠ op.attestation.slot → predecessor = successor

theorem rowValid_of_validate {predecessor successor : VoterSlotMember}
    (hok : validateOperationSlot op slot predecessor successor = .ok ()) :
    RowValid op slot predecessor successor := by
  obtain ⟨hsame, hok⟩ := require_bind hok
  obtain ⟨_, hrow, _⟩ := bind_eq_ok hok
  refine ⟨hsame.1, hsame.2, ?_, ?_⟩
  · intro htarget
    rw [if_pos htarget] at hrow
    obtain ⟨_, hnext, hrow⟩ := bind_eq_ok hrow
    obtain ⟨hmember, _⟩ := require_bind hrow
    exact ⟨hmember.1 ▸ hnext, hmember.2.1, hmember.2.2.1⟩
  · intro hother
    rw [if_neg hother, require_eq_ok] at hrow
    exact hrow.1

/-- The rows of an operation: each slot with its old and its new member. -/
def rows (table : VoterSlotTable) (op : VoterReplacementRecord) :
    List ((VoterSlotRecord × VoterSlotMember) × VoterSlotMember) :=
  (table.slots.zip op.predecessor.members).zip op.successor.members

/-- What the check of an operation guarantees. -/
structure OperationValid (table : VoterSlotTable) (op : VoterReplacementRecord) : Prop where
  attestation : op.attestation.validate = .ok ()
  evidence : op.evidence.Valid op.phase
  predecessorLength : op.predecessor.members.length = table.slots.length
  successorLength : op.successor.members.length = table.slots.length
  successorEpoch : op.successor.epoch.value = op.predecessor.epoch.value + 1
  epoch : table.configurationEpoch =
    if op.phase = .uniform then op.successor.epoch else op.predecessor.epoch
  rowsValid : ∀ row ∈ table.rows op, RowValid op row.1.1 row.1.2 row.2
  targetRow : ∃ row ∈ table.rows op, row.1.1.slot = op.attestation.slot

theorem operationValid_of_validate (hok : table.validateOperation op = .ok ()) :
    table.OperationValid op := by
  obtain ⟨_, hattestation, hok⟩ := bind_eq_ok hok
  iterate 2 obtain ⟨_, _, hok⟩ := bind_eq_ok hok
  obtain ⟨_, hevidence, hok⟩ := bind_eq_ok hok
  obtain ⟨⟨_, _, _, _, hpredecessor, hsuccessor, hadd⟩, hok⟩ := require_bind hok
  obtain ⟨hepoch, hok⟩ := require_bind hok
  obtain ⟨_, hrows, htarget⟩ := bind_eq_ok hok
  rw [require_eq_ok] at htarget
  rw [forM_eq_ok] at hrows
  refine ⟨hattestation, VoterReplacementEvidence.valid_of_validate hevidence,
    hpredecessor, hsuccessor, checkedAdd_eq_some hadd, hepoch, ?_, ?_⟩
  · intro _ hrow
    exact rowValid_of_validate (hrows _ hrow)
  · simpa [rows] using htarget

/-- What the check of one slot guarantees. -/
structure SlotValid (table : VoterSlotTable) (slot : VoterSlotRecord) : Prop where
  floor : slot.retiredThrough.val = slot.member.identity.incarnation.value - 1
  receipt : ∀ result ∈ slot.lastResult, table.isActive slot.slot = true →
    result.incarnation.value < slot.member.identity.incarnation.value

theorem slotValid_of_validate (hok : table.validateSlot slot = .ok ()) : table.SlotValid slot := by
  obtain ⟨hfloor, hok⟩ := require_bind hok
  obtain ⟨_, _, hok⟩ := bind_eq_ok hok
  refine ⟨hfloor.2, ?_⟩
  intro _ hresult
  rw [hresult] at hok
  iterate 2 obtain ⟨_, _, hok⟩ := bind_eq_ok hok
  exact (require_bind hok).1

/-- What the check of a table guarantees. -/
structure Valid (table : VoterSlotTable) : Prop where
  sorted : table.slots.Pairwise fun left right => left.slot.value < right.slot.value
  slotsValid : ∀ slot ∈ table.slots, table.SlotValid slot
  operation : ∀ op, table.replacement = some op → table.OperationValid op

theorem valid_of_validate (hok : table.validate = .ok ()) : table.Valid := by
  iterate 2 obtain ⟨_, _, hok⟩ := bind_eq_ok hok
  obtain ⟨hsorted, hok⟩ := require_bind hok
  obtain ⟨_, hslots, hok⟩ := bind_eq_ok hok
  obtain ⟨_, _, hok⟩ := bind_eq_ok hok
  rw [forM_eq_ok] at hslots
  refine ⟨?_, fun slot hslot => slotValid_of_validate (hslots _ hslot), ?_⟩
  · exact isChain_iff_pairwise.mp hsorted
  · intro _ hop
    rw [hop] at hok
    exact operationValid_of_validate hok

end VoterSlotTable

end PacketCore.VoterSlots
