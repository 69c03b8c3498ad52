import PacketCore.VoterSlots.Configuration

/-!
# Replacement of voters over whole runs

A run applies log entries one after the other and records each with the tables
before and after it.  Starting without a replacement in progress, the uniform
configuration moves one voter at a time, and only behind a joint entry that
itself stands behind a fence in the term of the catch-up marker.
-/

namespace PacketCore.VoterSlots

open VoterSlotTable List

/-- One applied entry. -/
structure SlotStep where
  input : SlotInput
  result : Except VoterReplacementError Unit
  before : VoterSlotTable
  after : VoterSlotTable

/-- A run from `first` with its record of applied entries. -/
inductive SlotRun (sha256 : Sha256) (first : VoterSlotTable) : List SlotStep → VoterSlotTable → Prop
  | start : SlotRun sha256 first [] first
  | step {log table} (hrun : SlotRun sha256 first log table) (input : SlotInput) :
      SlotRun sha256 first
        (log ++ [⟨input, (table.step sha256 input).1, table, (table.step sha256 input).2⟩])
        (table.step sha256 input).2

variable {sha256 : Sha256} {first last : VoterSlotTable} {log : List SlotStep}

variable {step : SlotStep} {op : VoterReplacementRecord} {table next : VoterSlotTable}
  {configurations : List (Finset ConsensusNodeId)} {node : ConsensusNodeId} {input : SlotInput}

theorem SlotRun.split (hrun : SlotRun sha256 first log last)
    {earlier later : List SlotStep} (hlog : log = earlier ++ step :: later) :
    SlotRun sha256 first earlier step.before ∧
      step.result = (step.before.step sha256 step.input).1 ∧
      step.after = (step.before.step sha256 step.input).2 ∧
      SlotRun sha256 step.after later last := by
  induction hrun generalizing later with
  | start => simp at hlog
  | @step log table hrun input ih =>
    rcases eq_nil_or_concat later with rfl | ⟨_, _, rfl⟩
    · obtain rfl := append_inj_left' hlog rfl
      cases append_inj_right' hlog rfl
      exact ⟨hrun, rfl, rfl, .start⟩
    · rw [concat_eq_append, ← cons_append, ← append_assoc] at hlog
      have hinit := append_inj_left' hlog rfl
      cases append_inj_right' hlog rfl
      obtain ⟨hfirst, hresult, hafter, hlater⟩ := ih hinit
      rw [concat_eq_append]
      exact ⟨hfirst, hresult, hafter, hlater.step _⟩

/-! ## What a run records -/

/-- The request whose replacement is in progress. -/
def VoterSlotTable.inProgress (table : VoterSlotTable) : Option LostVoterAttestationV1 :=
  table.replacement.map (·.attestation)

/-- The marker of an accepted catch-up record. -/
def SlotStep.marker? (step : SlotStep) : Option VoterSlotLogId :=
  match step.input, step.result with
  | .control (.advance _ _ (.recordCaughtUp marker)) _, .ok _ => some marker
  | _, _ => none

/-- The marker of the last accepted catch-up record. -/
def latestMarker (log : List SlotStep) : Option VoterSlotLogId :=
  log.foldl (fun latest step => step.marker?.or latest) none

/-- Whether an entry ended a replacement that was in progress. -/
def SlotStep.completes (step : SlotStep) : Bool :=
  match step.input with
  | .control (.advance _ _ .finalize) _ =>
    step.before.replacement.isSome && step.after.replacement.isNone
  | _ => false

/-- An effective fence of the operation in the term of the latest marker, after
which the operation has stayed in progress. -/
def FencedBefore (log : List SlotStep) (attestation : LostVoterAttestationV1) : Prop :=
  ∃ (earlier : List SlotStep) (fence : SlotStep) (later : List SlotStep)
    (cut marker : VoterSlotLogId), log = earlier ++ fence :: later ∧
    fence.input = .control (.advance attestation.requestId attestation.requestDigest .fence) cut ∧
    fence.result = .ok () ∧ fence.after ≠ fence.before ∧
    latestMarker earlier = some marker ∧ marker.term = cut.term ∧
    ∀ step ∈ fence :: later, step.after.inProgress = some attestation

/-- An accepted joint entry from `old` to `new`, behind a fence of the same operation. -/
def JointBefore (log : List SlotStep) (attestation : LostVoterAttestationV1)
    (old new : VoterConfiguration) : Prop :=
  ∃ (earlier : List SlotStep) (joint : SlotStep) (later : List SlotStep)
    (nodes : Finset ConsensusNodeId) (cut : VoterSlotLogId), log = earlier ++
    joint :: later ∧ joint.input = .membership [memberIds old, memberIds new] nodes cut ∧
    joint.result = .ok () ∧ FencedBefore earlier attestation ∧
    ∀ step ∈ joint :: later, step.after.inProgress = some attestation

theorem latestMarker_snoc (log : List SlotStep) (step : SlotStep) :
    latestMarker (log ++ [step]) = step.marker?.or (latestMarker log) := by
  simp [latestMarker]

theorem FencedBefore.snoc {attestation : LostVoterAttestationV1}
    (hfenced : FencedBefore log attestation) (hstep : step.after.inProgress = some attestation) :
    FencedBefore (log ++ [step]) attestation := by
  obtain ⟨earlier, fence, later, cut, marker, rfl, hinput, hresult, heffect,
    hmarker, hterm, hsince⟩ := hfenced
  refine ⟨earlier, fence, later ++ [step], cut, marker, by simp, hinput,
    hresult, heffect, hmarker, hterm, ?_⟩
  rw [← cons_append, forall_mem_append, forall_mem_singleton]
  exact ⟨hsince, hstep⟩

theorem JointBefore.snoc {attestation : LostVoterAttestationV1}
    {old new : VoterConfiguration} (hjoint : JointBefore log attestation old new)
    (hstep : step.after.inProgress = some attestation) :
    JointBefore (log ++ [step]) attestation old new := by
  obtain ⟨earlier, joint, later, nodes, cut, rfl, hinput, hresult, hfenced, hsince⟩ := hjoint
  refine ⟨earlier, joint, later ++ [step], nodes, cut, by simp, hinput, hresult, hfenced, ?_⟩
  rw [← cons_append, forall_mem_append, forall_mem_singleton]
  exact ⟨hsince, hstep⟩

/-! ## The invariant of a run -/

/-- One while the successor configuration is uniform and not yet finalized. -/
def VoterSlotTable.switched (table : VoterSlotTable) : ℕ :=
  if table.replacement.any (·.phase = .uniform) then 1 else 0

/-- Every phase that the table shows is backed by the record of the run. -/
structure Traced (first : VoterSlotTable) (log : List SlotStep)
    (table : VoterSlotTable) : Prop where
  valid : table.validate = .ok ()
  marker : ∀ op, table.replacement = some op → ∀ marker ∈ op.evidence.caughtUp,
    latestMarker log = some marker
  fenced : ∀ op, table.replacement = some op → .fenced ≤ op.phase → FencedBefore log op.attestation
  joint : ∀ op, table.replacement = some op → .joint ≤ op.phase →
    JointBefore log op.attestation op.predecessor op.successor
  epoch : table.configurationEpoch.value =
    first.configurationEpoch.value + log.countP (·.completes) + table.switched

theorem inProgress_eq (hop : table.replacement = some op) :
    table.inProgress = some op.attestation := by
  simp [inProgress, hop]

namespace Traced

variable {table : VoterSlotTable} {cut : VoterSlotLogId} {revision : Fin (2 ^ 64)}

theorem start (hvalid : first.validate = .ok ())
    (hidle : first.replacement = none) : Traced first [] first where
  valid := hvalid
  marker := by simp [hidle]
  fenced := by simp [hidle]
  joint := by simp [hidle]
  epoch := by simp [switched, hidle]

/-- An entry that changes nothing. -/
theorem unchanged (htraced : Traced first log table) {step : SlotStep}
    (hbefore : step.before = table) (hafter : step.after = table)
    (hmarker : ∀ marker ∈ step.marker?, ∃ op, table.replacement = some op ∧
      op.evidence.caughtUp = some marker) : Traced first (log ++ [step]) table where
  valid := htraced.valid
  marker := by
    intro op hop marker hcaught
    rw [latestMarker_snoc]
    cases hstep : step.marker? with
    | none => exact htraced.marker op hop _ hcaught
    | some =>
      obtain ⟨_, hother, hfound⟩ := hmarker _ hstep
      rw [hop] at hother
      cases hother
      rw [hfound] at hcaught
      cases hcaught
      rfl
  fenced := fun op hop hphase =>
    (htraced.fenced op hop hphase).snoc (hafter ▸ inProgress_eq hop)
  joint := fun op hop hphase =>
    (htraced.joint op hop hphase).snoc (hafter ▸ inProgress_eq hop)
  epoch := by
    have hcompletes : step.completes = false := by
      unfold SlotStep.completes
      rw [hbefore, hafter]
      split
      · cases table.replacement <;> rfl
      · rfl
    rw [htraced.epoch, countP_append, countP_singleton, hcompletes]
    simp

/-- An entry that moves the operation in progress forward. -/
theorem moved (htraced : Traced first log table) {step : SlotStep}
    {op moved : VoterReplacementRecord} (hop : table.replacement = some op)
    (hvalid : step.after.validate = .ok ()) (hmoved : step.after.replacement = some moved)
    (hattestation : moved.attestation = op.attestation)
    (hpredecessor : moved.predecessor = op.predecessor)
    (hsuccessor : moved.successor = op.successor)
    (hmarker : ∀ marker ∈ moved.evidence.caughtUp, latestMarker (log ++ [step]) = some marker)
    (hfenced : .fenced ≤ moved.phase → .fenced ≤ op.phase ∨
      FencedBefore (log ++ [step]) op.attestation)
    (hjoint : .joint ≤ moved.phase → .joint ≤ op.phase ∨
      JointBefore (log ++ [step]) op.attestation op.predecessor op.successor)
    (hepoch : step.after.configurationEpoch.value + table.switched =
      table.configurationEpoch.value + step.after.switched) :
    Traced first (log ++ [step]) step.after where
  valid := hvalid
  marker := by
    intro other hother
    cases hmoved.symm.trans hother
    exact hmarker
  fenced := by
    intro other hother hphase
    cases hmoved.symm.trans hother
    rw [hattestation]
    rcases hfenced hphase with hold | hnew
    · exact (htraced.fenced op hop hold).snoc (hattestation ▸ inProgress_eq hmoved)
    · exact hnew
  joint := by
    intro other hother hphase
    cases hmoved.symm.trans hother
    rw [hattestation, hpredecessor, hsuccessor]
    rcases hjoint hphase with hold | hnew
    · exact (htraced.joint op hop hold).snoc (hattestation ▸ inProgress_eq hmoved)
    · exact hnew
  epoch := by
    have hcompletes : step.completes = false := by
      unfold SlotStep.completes
      rw [hmoved]
      split <;> simp
    rw [countP_append, countP_singleton, hcompletes]
    have := htraced.epoch
    simp only [Bool.false_eq_true, if_false]
    omega

theorem switched_of_operation (hop : table.replacement = some op) :
    table.switched = if op.phase = .uniform then 1 else 0 := by
  simp [switched, hop]

theorem not_uniform_of_lt {phase : VoterReplacementPhase}
    (hphase : phase < .fenced) : phase ≠ .uniform := by
  rintro rfl
  exact absurd hphase (by decide)

section

variable (htraced : Traced first log table)
include htraced

theorem valid_next
    (hnext : next = table ∨ next.validateSuccessorOf table = .ok ()) : next.validate = .ok () := by
  rcases hnext with rfl | hnext
  · exact htraced.valid
  · exact (validateSuccessorOf_iff.mp hnext).1

/-- A reservation starts without evidence. -/
theorem begun {request : VoterReplacementRequest} {epoch : ConsensusConfigurationEpoch}
    (hsupersedes : ∀ op, table.replacement = some op →
      op.attestation.slot = request.attestation.slot ∧ op.phase < .fenced)
    (hvalid : (table.reserved request cut epoch revision).validate = .ok ()) :
    Traced first (log ++ [⟨.control (.begin request) cut, .ok (), table,
      table.reserved request cut epoch revision⟩]) (table.reserved request cut epoch revision) where
  valid := hvalid
  marker := by
    intro op hop marker hmarker
    cases hop
    cases hmarker
  fenced := by
    intro op hop hphase
    cases hop
    exact absurd hphase (show ¬ VoterReplacementPhase.fenced ≤ .prepared by decide)
  joint := by
    intro op hop hphase
    cases hop
    exact absurd hphase (show ¬ VoterReplacementPhase.joint ≤ .prepared by decide)
  epoch := by
    have hbefore : table.switched = 0 := by
      cases hop : table.replacement with
      | none => simp [switched, hop]
      | some op =>
        rw [switched_of_operation hop, if_neg (not_uniform_of_lt (hsupersedes op hop).2)]
    have hepoch : (table.reserved request cut epoch revision).configurationEpoch =
        table.configurationEpoch := rfl
    rw [countP_append, hepoch, htraced.epoch, hbefore]
    rfl

/-- A recorded step keeps the operation and backs what it adds. -/
theorem advanced {advanced : VoterReplacementRecord}
    {step : VoterReplacementStep} (hop : table.replacement = some op)
    (hadvanced : VoterSlotTable.AdvancedStep op cut step advanced)
    (hmoved : { table with replacement := some advanced, revision := revision } = next)
    (hnext : next = table ∨ next.validateSuccessorOf table = .ok ()) :
    Traced first (log ++ [⟨.control (.advance op.attestation.requestId op.attestation.requestDigest
      step) cut, .ok (), table, next⟩]) next := by
  subst hmoved
  have hvalid := htraced.valid_next hnext
  have hbelow : op.phase < .fenced ∧ advanced.phase < .joint := by
    cases hadvanced with
    | snapshot _ hphase | fence _ hphase => exact ⟨by rw [hphase]; decide, of_decide_eq_true rfl⟩
    | caughtUp _ hphase => exact ⟨hphase, of_decide_eq_true rfl⟩
    | continuation hphase => exact ⟨hphase, hphase.trans (by decide)⟩
  refine htraced.moved hop hvalid rfl (by cases hadvanced <;> rfl)
    (by cases hadvanced <;> rfl) (by cases hadvanced <;> rfl) ?_ ?_ ?_ ?_
  · intro marker hmarker
    rw [latestMarker_snoc]
    cases hadvanced with
    | caughtUp => exact hmarker
    | snapshot | continuation | fence => exact htraced.marker op hop _ hmarker
  · intro hfenced
    right
    cases hadvanced with
    | snapshot =>
      exact absurd hfenced (show ¬ VoterReplacementPhase.fenced ≤ .snapshotInstalled by decide)
    | caughtUp => exact absurd hfenced (show ¬ VoterReplacementPhase.fenced ≤ .caughtUp by decide)
    | continuation hphase => exact absurd hfenced (not_le.mpr hphase)
    | fence marker hphase hmarker hterm =>
      refine ⟨log, _, [], cut, marker, rfl, rfl, rfl, ?_,
        htraced.marker op hop _ hmarker, hterm, by simp [inProgress]⟩
      -- the fence moves the phase, so the table has changed
      intro heq
      have hsame := congrArg replacement heq
      simp only [hop, Option.some.injEq] at hsame
      have hsamePhase := congrArg VoterReplacementRecord.phase hsame
      simp only [hphase] at hsamePhase
      cases hsamePhase
  · intro hjoint
    exact absurd hbelow.2 (not_lt.mpr hjoint)
  · rw [switched_of_operation hop, if_neg (not_uniform_of_lt hbelow.1)]
    simp [switched, (hbelow.2.trans (by decide : _ < VoterReplacementPhase.uniform)).ne]

theorem finalized (hop : table.replacement = some op) (hphase : op.phase = .uniform)
    (hvalid : (table.finalized op revision cut).validate = .ok ()) :
    Traced first (log ++ [⟨.control (.advance op.attestation.requestId
      op.attestation.requestDigest .finalize) cut, .ok (), table,
      table.finalized op revision cut⟩]) (table.finalized op revision cut) where
  valid := hvalid
  marker := by rintro _ ⟨⟩
  fenced := by rintro _ ⟨⟩
  joint := by rintro _ ⟨⟩
  epoch := by
    have hbefore : table.switched = 1 := by
      rw [switched_of_operation hop, if_pos hphase]
    have hafter : (table.finalized op revision cut).switched = 0 := rfl
    have hepoch : (table.finalized op revision cut).configurationEpoch =
        table.configurationEpoch := rfl
    have hcompletes : ∀ requestId requestDigest, SlotStep.completes
        ⟨.control (.advance requestId requestDigest .finalize) cut, .ok (),
          table, table.finalized op revision cut⟩ = true := by
      simp [SlotStep.completes, hop, VoterSlotTable.finalized]
    rw [countP_append, countP_singleton, hepoch, htraced.epoch, hbefore, hcompletes]
    simp
    omega

theorem control {control : VoterSlotControl}
    (hstep : VoterSlotTable.ControlStep sha256 table cut control next)
    (hnext : next = table ∨ next.validateSuccessorOf table = .ok ()) :
    Traced first (log ++ [⟨.control control cut, .ok (), table, next⟩]) next := by
  cases hstep with
  | beginAgain | finalizeAgain | marked =>
    exact htraced.unchanged rfl rfl fun marker hmarker => by cases hmarker
  | begun _ _ _ hsupersedes =>
    exact htraced.begun hsupersedes (htraced.valid_next hnext)
  | advanceAgain op step hop hretry =>
    refine htraced.unchanged rfl rfl fun marker hmarker => ⟨op, hop, ?_⟩
    cases step with
    | recordCaughtUp =>
      cases hmarker
      exact retained_marker hretry
    | recordSnapshot | recordContinuation | fence | finalize => cases hmarker
  | advanced _ advanced _ _ hop hadvanced =>
    exact htraced.advanced hop (advanceOperation_cases hadvanced) rfl hnext
  | finalized _ _ hop hphase =>
    exact htraced.finalized hop hphase (htraced.valid_next hnext)

end

/-- The epoch of an observed operation moves exactly when it becomes uniform. -/
theorem observed_epoch {observed : VoterReplacementRecord}
    (hvalid : table.Valid) (hop : table.replacement = some op)
    (hobserved : VoterSlotTable.ObservedStep op configurations cut observed) :
    (table.withObserved op observed).configurationEpoch.value + table.switched =
      table.configurationEpoch.value + if observed.phase = .uniform then 1 else 0 := by
  have hoperation := hvalid.operation op hop
  rw [switched_of_operation hop]
  simp only [withObserved]
  cases hobserved with
  | old _ hphase =>
    have hne : op.phase ≠ .joint := hphase.ne
    simp [hne]
  | learner _ hphase | joint _ hphase | jointAgain _ hphase | uniformAgain _ hphase => simp [hphase]
  | uniform _ hphase =>
    have hepoch := hoperation.epoch
    rw [if_neg (by rw [hphase]; decide)] at hepoch
    simp only [hphase, and_self, if_true]
    rw [hepoch, hoperation.successorEpoch]
    simp

theorem membership (htraced : Traced first log table) {nodes : Finset ConsensusNodeId}
    (hstep : VoterSlotTable.MembershipStep table configurations cut next)
    (hnext : next = table ∨ next.validateSuccessorOf table = .ok ()) :
    Traced first (log ++ [⟨.membership configurations nodes cut, .ok (), table, next⟩]) next := by
  have hvalid := htraced.valid_next hnext
  cases hstep with
  | idle | unchanged => exact htraced.unchanged rfl rfl fun marker hmarker => by cases hmarker
  | observed op observed revision hop hobserved =>
    have hepoch := observed_epoch (valid_of_validate htraced.valid) hop hobserved
    refine htraced.moved hop hvalid rfl (by cases hobserved <;> rfl)
      (by cases hobserved <;> rfl) (by cases hobserved <;> rfl) ?_ ?_ ?_ ?_
    · intro marker hmarker
      rw [latestMarker_snoc]
      refine htraced.marker op hop _ ?_
      cases hobserved <;> exact hmarker
    · intro hfenced
      cases hobserved with
      | learner =>
        exact absurd hfenced (show ¬ VoterReplacementPhase.fenced ≤ .learnerAdded by decide)
      | joint _ hphase => exact .inl hphase.ge
      | uniform _ hphase => exact .inl (by rw [hphase]; decide)
      | old | jointAgain | uniformAgain => exact .inl hfenced
    · intro hjoint
      cases hobserved with
      | learner =>
        exact absurd hjoint (show ¬ VoterReplacementPhase.joint ≤ .learnerAdded by decide)
      | joint hconfigurations hphase =>
        -- this entry is the joint entry
        have hfenced := htraced.fenced op hop hphase.ge
        refine .inr ⟨log, _, [], nodes, cut, rfl, ?_, rfl, hfenced, ?_⟩
        · rw [hconfigurations]
        · simp [inProgress, withObserved]
      | uniform _ hphase => exact .inl hphase.ge
      | old | jointAgain | uniformAgain => exact .inl hjoint
    · have hswitched : switched
          { table.withObserved op observed with revision := revision } =
          if observed.phase = .uniform then 1 else 0 := by
        simp [switched, withObserved]
      rw [hswitched]
      exact hepoch

/-- What every entry preserves holds along every run. -/
theorem run (hvalid : first.validate = .ok ()) (hidle : first.replacement = none)
    (hrun : SlotRun sha256 first log last) : Traced first log last := by
  induction hrun with
  | start => exact start hvalid hidle
  | @step log table hrun input htraced =>
    by_cases haccepted : (table.step sha256 input).1 = .ok ()
    · obtain ⟨hproposed, hnext⟩ := step_accepted haccepted
      rw [haccepted]
      cases input with
      | control control =>
        exact htraced.control (controlled_cases hproposed).2 hnext
      | membership =>
        exact htraced.membership (observed_cases hproposed) hnext
    · rw [step_refused haccepted]
      refine htraced.unchanged rfl rfl fun marker hmarker => ?_
      -- a refused entry is not a catch-up record
      unfold SlotStep.marker? at hmarker
      split at hmarker
      · next hresult => exact absurd hresult haccepted
      · cases hmarker

end Traced

/-! ## Along a run -/

/-- Tables of a run are successors of each other, one entry at a time. -/
theorem step_successor (sha256 : Sha256) (table : VoterSlotTable) (input : SlotInput) :
    (table.step sha256 input).2 = table ∨ Successor (table.step sha256 input).2 table := by
  by_cases haccepted : (table.step sha256 input).1 = .ok ()
  · exact (step_accepted haccepted).2.imp_right fun hnext =>
      (validateSuccessorOf_iff.mp hnext).2.2
  · exact .inl (step_refused haccepted)

theorem isRetired_step (hretired : table.isRetired node = true) :
    (table.step sha256 input).2.isRetired node = true := by
  rcases step_successor _ _ _ with hsame | hsuccessor
  · rwa [hsame]
  · exact isRetired_successor hsuccessor hretired

theorem SlotRun.retired (hrun : SlotRun sha256 first log last)
    (hretired : first.isRetired node = true) : last.isRetired node = true := by
  induction hrun with
  | start => exact hretired
  | step _ _ ih => exact isRetired_step ih

/-- Whether an entry moved the uniform configuration. -/
def SlotStep.Switches (step : SlotStep) : Prop :=
  step.after.currentConfiguration ≠ step.before.currentConfiguration

theorem SlotRun.length_slots (hrun : SlotRun sha256 first log last) :
    last.slots.length = first.slots.length := by
  induction hrun with
  | start => rfl
  | @step log table _ input ih =>
    rcases step_successor _ _ _ with hsame | hsuccessor
    · rwa [hsame]
    · exact hsuccessor.slots.length_eq.trans ih

/-- What the run before an accepted entry guarantees about it. -/
theorem Traced.accepted (htraced : Traced first log table)
    (haccepted : (table.step sha256 input).1 = .ok ())
    (hafter : (table.step sha256 input).2 = next) :
    (∀ voters nodes cut, input = .membership [voters] nodes cut →
      voters = memberIds next.currentConfiguration ∧
      (next.currentConfiguration = table.currentConfiguration ∨
        (ReplacesOne table.currentConfiguration next.currentConfiguration ∧
          ∃ attestation, table.inProgress = some attestation ∧
            JointBefore log attestation table.currentConfiguration
              next.currentConfiguration))) ∧
    (∀ old new nodes cut, input = .membership [old, new] nodes cut →
      ∃ attestation, table.inProgress = some attestation ∧ FencedBefore log attestation) ∧
    ((∀ voters nodes cut, input ≠ .membership [voters] nodes cut) →
      next.currentConfiguration = table.currentConfiguration) := by
  subst hafter
  have hvalid := valid_of_validate htraced.valid
  obtain ⟨hproposed, hnext⟩ := step_accepted haccepted
  have hafter := valid_of_validate (htraced.valid_next hnext)
  refine ⟨?_, ?_, ?_⟩
  · rintro voters nodes cut rfl
    have hstep := observed_cases hproposed
    obtain ⟨hvoters, hcurrent⟩ := hstep.current_single hvalid hafter
    refine ⟨hvoters, hcurrent.imp_right ?_⟩
    rintro ⟨op, hop, hphase, hold, hnew, _⟩
    rw [hold, hnew]
    exact ⟨(hvalid.operation op hop).replacesOne hvalid, op.attestation,
      inProgress_eq hop, htraced.joint op hop hphase.ge⟩
  · rintro old new nodes cut rfl
    have hstep := observed_cases hproposed
    obtain ⟨_, op, hop, hfenced, _⟩ := hstep.current_joint hvalid hafter
    exact ⟨op.attestation, inProgress_eq hop, htraced.fenced op hop hfenced⟩
  · intro hother
    cases input with
    | control => exact (controlled_cases hproposed).2.current_eq
    | membership configurations =>
      have hstep := observed_cases hproposed
      rcases hstep.configurations with ⟨voters, rfl⟩ | ⟨old, new, rfl⟩
      · exact absurd rfl (hother _ _ _)
      · exact (hstep.current_joint hvalid hafter).1

theorem Traced.switch_not_retired (htraced : Traced first log table)
    (hafter : (table.step sha256 input).2 = next)
    (hswitch : next.currentConfiguration ≠ table.currentConfiguration)
    (hretired : table.isRetired node = true) :
    node ∉ memberIds next.currentConfiguration := by
  subst hafter
  have hvalid := valid_of_validate htraced.valid
  have haccepted : (table.step sha256 input).1 = .ok () := by
    by_contra hrefused
    exact hswitch (congrArg _ (step_refused hrefused))
  obtain ⟨hproposed, hnext⟩ := step_accepted haccepted
  have hafter := valid_of_validate (htraced.valid_next hnext)
  have hselected : (table.step sha256 input).2.currentConfiguration.members =
      (table.step sha256 input).2.selected := by
    by_cases hsingle : ∃ voters nodes cut, input = .membership [voters] nodes cut
    · obtain ⟨voters, nodes, cut, rfl⟩ := hsingle
      rcases ((observed_cases hproposed).current_single hvalid hafter).2 with
        hsame | ⟨op, _, _, _, hnew, hselected⟩
      · exact absurd hsame hswitch
      · rw [hnew, hselected]
    · push Not at hsingle
      exact absurd ((htraced.accepted haccepted rfl).2.2 hsingle) hswitch
  intro hmem
  unfold memberIds at hmem
  rw [mem_toFinset, hselected] at hmem
  obtain ⟨_, hmember, rfl⟩ := mem_map.mp hmem
  have hfree := hafter.not_retired_selected hmember
  rcases step_successor _ _ _ with hsame | hsuccessor
  · exact hswitch (congrArg _ hsame)
  · rw [isRetired_successor hsuccessor hretired] at hfree
    cases hfree

/-- The uniform configuration moves one voter at a time, through an accepted
joint entry behind a fence in the term of the latest catch-up marker; the epoch
counts the completed replacements, and retirement is permanent. -/
theorem replacement_one_voter_at_a_time (hvalid : first.validate = .ok ())
    (hidle : first.replacement = none) (hrun : SlotRun sha256 first log last) :
    (∀ step ∈ log, step.result ≠ .ok () → step.after = step.before) ∧
    (∀ (earlier : List SlotStep) (step : SlotStep) (later : List SlotStep),
      log = earlier ++ step :: later → step.result = .ok () →
      (∀ voters nodes cut, step.input = .membership [voters] nodes cut →
        voters = memberIds step.after.currentConfiguration ∧
        voters.card = first.slots.length ∧
        (step.after.currentConfiguration = step.before.currentConfiguration ∨
          (ReplacesOne step.before.currentConfiguration step.after.currentConfiguration ∧
            ∃ attestation, step.before.inProgress = some attestation ∧
              JointBefore earlier attestation step.before.currentConfiguration
                step.after.currentConfiguration))) ∧
      (∀ old new nodes cut, step.input = .membership [old, new] nodes cut →
        ∃ attestation, step.before.inProgress = some attestation ∧
          FencedBefore earlier attestation) ∧
      ((∀ voters nodes cut, step.input ≠ .membership [voters] nodes cut) →
        step.after.currentConfiguration = step.before.currentConfiguration)) ∧
    last.configurationEpoch.value =
      first.configurationEpoch.value + log.countP (·.completes) + last.switched ∧
    (∀ (earlier : List SlotStep) (step : SlotStep) (later : List SlotStep)
      (node : ConsensusNodeId), log = earlier ++ step :: later →
      step.before.isRetired node = true → last.isRetired node = true ∧
        ∀ switch ∈ step :: later, switch.Switches →
          node ∉ memberIds switch.after.currentConfiguration) := by
  refine ⟨?_, ?_, (Traced.run hvalid hidle hrun).epoch, ?_⟩
  · intro step hstep hrefused
    obtain ⟨earlier, later, hlog⟩ := append_of_mem hstep
    obtain ⟨_, hresult, hafter, _⟩ := hrun.split hlog
    rw [hafter]
    exact step_refused (hresult ▸ hrefused)
  · intro earlier step later hlog haccepted
    obtain ⟨hearlier, hresult, hafter, _⟩ := hrun.split hlog
    have htraced := Traced.run hvalid hidle hearlier
    rw [hresult] at haccepted
    have hsingle := htraced.accepted haccepted hafter.symm
    refine ⟨?_, hsingle.2⟩
    intro voters nodes cut hinput
    obtain ⟨hvoters, hcurrent⟩ := hsingle.1 _ _ _ hinput
    refine ⟨hvoters, ?_, hcurrent⟩
    have hnext := (step_accepted haccepted).2
    have hvalidAfter := valid_of_validate (htraced.valid_next hnext)
    rw [hvoters, hafter, hvalidAfter.card_current]
    exact (hearlier.step _).length_slots
  · intro earlier step later node hlog hretired
    obtain ⟨hearlier, _, hafter, hlater⟩ := hrun.split hlog
    have hretiredAfter : step.after.isRetired node = true := by
      rw [hafter]
      exact (SlotRun.start.step step.input).retired hretired
    refine ⟨hlater.retired hretiredAfter, ?_⟩
    intro switch hmem hswitch
    rcases mem_cons.mp hmem with rfl | hmem
    · exact (Traced.run hvalid hidle hearlier).switch_not_retired hafter.symm hswitch hretired
    · obtain ⟨between, rest, hsplit⟩ := append_of_mem hmem
      obtain ⟨hbetween, _, _, _⟩ := hlater.split hsplit
      have hwhole : log = (earlier ++ step :: between) ++ switch :: rest := by
        rw [hlog, hsplit]
        simp
      obtain ⟨hbefore, _, hafterSwitch, _⟩ := hrun.split hwhole
      exact (Traced.run hvalid hidle hbefore).switch_not_retired hafterSwitch.symm hswitch
        (hbetween.retired hretiredAfter)

namespace Sample

def zeros (width : ℕ) : Octets width := List.Vector.replicate width 0

def digest : Sha256 := fun _ => zeros 32

def slot (ordinal : Fin 9) : SlotId := ⟨ordinal.val + 1, by omega, by omega⟩

def incarnation (ordinal : Fin 9) : VoterIncarnation :=
  ⟨ordinal.val + 1, by omega, by unfold maxVoterIncarnation; omega⟩

def epoch (ordinal : Fin 9) : ConsensusConfigurationEpoch := ⟨ordinal.val + 1, by omega, by omega⟩

def member (slotOrdinal ordinal : Fin 9) : VoterSlotMember where
  identity := ⟨slot slotOrdinal, incarnation ordinal⟩
  keyDigest := List.Vector.replicate 32 (Fin.ofNat 256 ordinal.val)
  descriptorDigest := zeros 32
  admissionGeneration := Fin.ofNat (2 ^ 64) (ordinal.val + 1)

def record (slotOrdinal : Fin 9) : VoterSlotRecord where
  member := member slotOrdinal 0
  retiredThrough := 0
  phase := .voting
  lastResult := none

def genesis : VoterSlotTable where
  clusterInstance := zeros 32
  manifestDigest := zeros 32
  revision := 1
  configurationEpoch := epoch 0
  slots := [record 0, record 1, record 2]
  replacement := none

def workload : Text := spiffeScheme ++ ['a']

def attestation (id : Byte) (slotOrdinal ordinal : Fin 9) : LostVoterAttestationV1 where
  requestId := List.Vector.replicate 16 id
  requestDigest := zeros 32
  clusterInstance := zeros 32
  slot := slot slotOrdinal
  expectedIncarnation := incarnation ordinal
  oldDescriptorDigest := zeros 32
  candidateKeyDigest := List.Vector.replicate 32 (Fin.ofNat 256 (ordinal.val + 1))
  admissionGeneration := Fin.ofNat (2 ^ 64) (ordinal.val + 2)
  candidateSpiffeId := workload
  controllerSpiffeId := workload
  signingKeyDigest := zeros 32
  reason := .storageLost
  policyDigest := zeros 32
  observationStartMs := 0
  decisionMs := 0
  issuedMs := 0
  expiresMs := 1
  signature := zeros 64

def request (id : Byte) (slotOrdinal ordinal : Fin 9) (revision : Fin (2 ^ 64))
    (epochOrdinal : Fin 9) :
    VoterReplacementRequest where
  expectedRevision := revision
  expectedConfiguration := ⟨zeros 32, zeros 32, epoch epochOrdinal⟩
  candidate := member slotOrdinal (ordinal + 1)
  attestation := attestation id slotOrdinal ordinal

def cut (index : Fin (2 ^ 64)) : VoterSlotLogId := ⟨1, index⟩

def advance (id : Byte) (step : VoterReplacementStep) (index : Fin (2 ^ 64)) : SlotInput :=
  .control (.advance (List.Vector.replicate 16 id) (zeros 32) step) (cut index)

def snapshot (index : Fin (2 ^ 64)) : VoterSnapshotEvidence := ⟨cut index, ['s'], zeros 32⟩

/-- Node numbers of the voters with these slots and incarnations. -/
def voters (ordinals : List (Fin 9 × Fin 9)) : Finset ConsensusNodeId :=
  (ordinals.map fun pair => (member pair.1 pair.2).identity.nodeId).toFinset

/-- Replace one voter: from a reservation to the new uniform configuration. -/
def replace (id : Byte) (slotOrdinal ordinal : Fin 9) (revision : Fin (2 ^ 64))
    (epochOrdinal : Fin 9) (old new : List (Fin 9 × Fin 9))
    (index : Fin (2 ^ 64)) : List SlotInput :=
  [.control (.begin (request id slotOrdinal ordinal revision epochOrdinal))
    (cut (index + 1)), advance id (.recordSnapshot (snapshot (index + 1))) (index + 2),
    .membership [voters old] (voters old ∪ voters new) (cut (index + 3)),
    advance id (.recordCaughtUp (cut (index + 4))) (index + 5),
    advance id .fence (index + 6),
    .membership [voters old, voters new] (voters old ∪ voters new)
    (cut (index + 7)), .membership [voters new] (voters new) (cut (index + 8)),
    advance id .finalize (index + 9)]

/-- The table after these entries. -/
def tableAfter (inputs : List SlotInput) : VoterSlotTable :=
  inputs.foldl (fun table input => (table.step digest input).2) genesis

theorem run_to (inputs : List SlotInput) :
    ∃ log, SlotRun digest genesis log (tableAfter inputs) := by
  induction inputs using reverseRecOn with
  | nil => exact ⟨[], .start⟩
  | append_singleton inputs input ih =>
    obtain ⟨log, hrun⟩ := ih
    have hlast : tableAfter (inputs ++ [input]) = ((tableAfter inputs).step digest input).2 := by
      simp [tableAfter]
    rw [hlast]
    exact ⟨_, hrun.step _⟩

def oneReplacement : List SlotInput :=
  replace 1 0 0 1 0 [(0, 0), (1, 0), (2, 0)] [(0, 1), (1, 0), (2, 0)] 0

end Sample

/-- A complete replacement counts as one in the epoch. -/
theorem replacement_one_voter_at_a_time_sample :
    (Sample.tableAfter Sample.oneReplacement).configurationEpoch.value = 2 ∧
    Sample.genesis.validate = .ok () ∧ Sample.genesis.replacement = none ∧
    ∃ log, SlotRun Sample.digest Sample.genesis log (Sample.tableAfter Sample.oneReplacement) ∧
      log.countP (·.completes) = 1 := by
  obtain ⟨log, hrun⟩ := Sample.run_to _
  have hepoch := (replacement_one_voter_at_a_time rfl rfl hrun).2.2.1
  have hlast : (Sample.tableAfter Sample.oneReplacement).configurationEpoch.value = 2 := by
    decide +kernel
  have hswitched : (Sample.tableAfter Sample.oneReplacement).switched = 0 := by
    decide +kernel
  have hfirst : Sample.genesis.configurationEpoch.value = 1 := rfl
  refine ⟨hlast, rfl, rfl, log, hrun, ?_⟩
  omega

end PacketCore.VoterSlots
