import PacketCore.VoterSlots.Succession

/-!
# Steps of a voter slot table

A table moves by committed control commands and by membership entries of the
engine.  This module says once what an accepted entry can do; the results about
whole runs only use these case lists.
-/

namespace PacketCore.VoterSlots

/-- An entry of the log that concerns the table, with its position. -/
inductive SlotInput where
  | control (control : VoterSlotControl) (cut : VoterSlotLogId)
  | membership (configurations : List (Finset ConsensusNodeId))
      (nodes : Finset ConsensusNodeId) (cut : VoterSlotLogId)

def SlotInput.cut : SlotInput → VoterSlotLogId
  | .control _ cut => cut
  | .membership _ _ cut => cut

variable {configurations : List (Finset ConsensusNodeId)} {input : SlotInput}
  {nodes : Finset ConsensusNodeId} {op : VoterReplacementRecord}

namespace VoterSlotTable

variable {sha256 : Sha256} {table next : VoterSlotTable} {cut : VoterSlotLogId}

/-- The table an entry asks for. -/
def proposed (table : VoterSlotTable) (sha256 : Sha256) :
    SlotInput → Except VoterReplacementError VoterSlotTable
  | .control control cut => table.controlled sha256 control cut
  | .membership configurations nodes cut => table.observed configurations nodes cut

/-- Apply one entry. -/
def step (table : VoterSlotTable) (sha256 : Sha256) :
    SlotInput → Except VoterReplacementError Unit × VoterSlotTable
  | .control control cut => table.applyControl sha256 control cut
  | .membership configurations nodes cut => table.observeMembership configurations nodes cut

theorem step_eq_publishNext (table : VoterSlotTable) (sha256 : Sha256) (input : SlotInput) :
    table.step sha256 input = table.publishNext (table.proposed sha256 input) := by
  cases input <;> rfl

/-- A refused entry changes nothing. -/
theorem step_refused (hrefused : (table.step sha256 input).1 ≠ .ok ()) :
    (table.step sha256 input).2 = table := by
  rw [step_eq_publishNext] at hrefused ⊢
  unfold publishNext at hrefused ⊢
  split
  · rfl
  · split
    · rfl
    · split
      · rfl
      · simp_all

/-- An accepted entry publishes what it asked for, as a valid successor. -/
theorem step_accepted (haccepted : (table.step sha256 input).1 = .ok ()) :
    table.proposed sha256 input = .ok (table.step sha256 input).2 ∧
      ((table.step sha256 input).2 = table ∨
        (table.step sha256 input).2.validateSuccessorOf table = .ok ()) := by
  rw [step_eq_publishNext] at haccepted ⊢
  cases hproposed : table.proposed sha256 input with
  | error =>
    rw [hproposed] at haccepted
    cases haccepted
  | ok next =>
    rw [hproposed] at haccepted
    unfold publishNext at haccepted ⊢
    by_cases hsame : next = table
    · subst hsame
      simp
    · simp only [if_neg hsame] at haccepted ⊢
      cases hcheck : next.validateSuccessorOf table with
      | error =>
        rw [hcheck] at haccepted
        cases haccepted
      | ok => exact ⟨rfl, .inr hcheck⟩

/-! ## Commands -/

/-- What an accepted command can do. -/
inductive ControlStep (sha256 : Sha256) (table : VoterSlotTable) (cut : VoterSlotLogId) :
    VoterSlotControl → VoterSlotTable → Prop
  | beginAgain (request : VoterReplacementRequest) :
      ControlStep sha256 table cut (.begin request) table
  | begun (request : VoterReplacementRequest)
      (epoch : ConsensusConfigurationEpoch) (revision : Fin (2 ^ 64))
      (hsupersedes : ∀ op, table.replacement = some op →
        op.attestation.slot = request.attestation.slot ∧ op.phase < .fenced)
      (hrequest : request.validate sha256 = .ok ()) :
      ControlStep sha256 table cut (.begin request) (table.reserved request cut epoch revision)
  | finalizeAgain (requestId : Octets 16) (digest : Octets 32)
      (hidle : table.replacement = none) :
      ControlStep sha256 table cut (.advance requestId digest .finalize) table
  | advanceAgain (op : VoterReplacementRecord) (step : VoterReplacementStep)
      (hop : table.replacement = some op) (hretry : advanceOperation op cut step = .ok none) :
      ControlStep sha256 table cut
        (.advance op.attestation.requestId op.attestation.requestDigest step) table
  | advanced (op advanced : VoterReplacementRecord) (step : VoterReplacementStep)
      (revision : Fin (2 ^ 64)) (hop : table.replacement = some op)
      (hadvanced : advanceOperation op cut step = .ok (some advanced)) :
      ControlStep sha256 table cut
        (.advance op.attestation.requestId op.attestation.requestDigest step)
        { table with replacement := some advanced, revision := revision }
  | finalized (op : VoterReplacementRecord) (revision : Fin (2 ^ 64))
      (hop : table.replacement = some op) (hphase : op.phase = .uniform) :
      ControlStep sha256 table cut
        (.advance op.attestation.requestId op.attestation.requestDigest .finalize)
        (table.finalized op revision cut)
  | marked (requestId : Octets 16) (digest : Octets 32) :
      ControlStep sha256 table cut (.marker requestId digest) table

theorem begin_cases {request : VoterReplacementRequest}
    (hok : table.begin sha256 request cut = .ok next) :
    ControlStep sha256 table cut (.begin request) next := by
  unfold begin at hok
  split at hok
  · obtain ⟨_, _, hok⟩ := bind_eq_ok hok
    obtain ⟨_, _, hok⟩ := bind_eq_ok hok
    cases hok
    exact .beginAgain request
  · obtain ⟨_, hsupersedes, hok⟩ := bind_eq_ok hok
    obtain ⟨_, hrequest, hok⟩ := bind_eq_ok hok
    iterate 6 obtain ⟨_, _, hok⟩ := bind_eq_ok hok
    obtain ⟨epoch, _, hok⟩ := bind_eq_ok hok
    obtain ⟨revision, _, hok⟩ := bind_eq_ok hok
    cases hok
    refine .begun request epoch revision ?_ hrequest
    intro _ hop
    unfold admitSupersession at hsupersedes
    rw [hop] at hsupersedes
    obtain ⟨hslot, hsupersedes⟩ := refuseIf_bind hsupersedes
    obtain ⟨hphase, _⟩ := refuseIf_bind hsupersedes
    rw [not_not] at hslot
    rw [not_le] at hphase
    exact ⟨hslot, hphase⟩

theorem advance_cases {requestId : Octets 16} {digest : Octets 32} {step : VoterReplacementStep}
    (hok : table.advance requestId digest step cut = .ok next) :
    ControlStep sha256 table cut (.advance requestId digest step) next := by
  obtain ⟨revision, _, hok⟩ := bind_eq_ok hok
  cases hop : table.replacement with
  | none =>
    simp only [hop] at hok
    split at hok
    · next hretry =>
      cases hok
      obtain ⟨rfl, _⟩ := hretry
      exact .finalizeAgain requestId digest hop
    · cases hok
  | some op =>
    simp only [hop] at hok
    obtain ⟨hid, hok⟩ := refuseIf_bind hok
    obtain ⟨hdigest, hok⟩ := refuseIf_bind hok
    obtain ⟨_, _, hok⟩ := bind_eq_ok hok
    rw [not_not] at hid hdigest
    rw [← hid, ← hdigest]
    split at hok
    · next hfinalize =>
      rw [hfinalize]
      obtain ⟨hphase, hok⟩ := refuseIf_bind hok
      obtain ⟨_, _, hok⟩ := bind_eq_ok hok
      rw [not_not] at hphase
      cases hok
      exact .finalized op revision hop hphase
    · obtain ⟨advanced, hadvanced, hok⟩ := bind_eq_ok hok
      cases advanced with
      | none =>
        cases hok
        exact .advanceAgain op step hop hadvanced
      | some advanced =>
        cases hok
        exact .advanced op advanced step revision hop hadvanced

theorem controlled_cases {control : VoterSlotControl}
    (hok : table.controlled sha256 control cut = .ok next) :
    table.validate = .ok () ∧ ControlStep sha256 table cut control next := by
  obtain ⟨_, hvalid, hok⟩ := bind_eq_ok hok
  obtain ⟨_, _, hok⟩ := bind_eq_ok hok
  refine ⟨mapError_eq_ok.mp hvalid, ?_⟩
  cases control with
  | begin => exact begin_cases hok
  | advance => exact advance_cases hok
  | marker requestId digest =>
    obtain ⟨_, _, hok⟩ := bind_eq_ok hok
    cases hok
    exact .marked requestId digest

/-- What a recorded step makes of the operation. -/
inductive AdvancedStep (op : VoterReplacementRecord) (cut : VoterSlotLogId) :
    VoterReplacementStep → VoterReplacementRecord → Prop
  | snapshot (snapshot : VoterSnapshotEvidence) (hphase : op.phase = .prepared)
      (hcut : snapshot.cut.Within cut) :
      AdvancedStep op cut (.recordSnapshot snapshot) { op with
        evidence := { op.evidence with snapshot := some snapshot }
        phase := .snapshotInstalled }
  | caughtUp (marker : VoterSlotLogId) (hphase : op.phase < .fenced) (hcut : marker.Within cut) :
      AdvancedStep op cut (.recordCaughtUp marker) { op with
        evidence := { op.evidence with caughtUp := some marker }
        phase := .caughtUp }
  | continuation (hphase : op.phase < .fenced) :
      AdvancedStep op cut .recordContinuation { op with
        evidence := { op.evidence with continuation := some cut } }
  | fence (marker : VoterSlotLogId) (hphase : op.phase = .caughtUp)
      (hmarker : op.evidence.caughtUp = some marker) (hterm : marker.term = cut.term) :
      AdvancedStep op cut .fence { op with
        evidence := { op.evidence with fence := some cut }
        phase := .fenced }

theorem advanceOperation_cases {advanced : VoterReplacementRecord} {step : VoterReplacementStep}
    (hok : advanceOperation op cut step = .ok (some advanced)) :
    AdvancedStep op cut step advanced := by
  cases step with
  | recordSnapshot snapshot =>
    simp only [advanceOperation] at hok
    split at hok
    · split at hok <;> cases hok
    · obtain ⟨hguard, hok⟩ := refuseIf_bind hok
      rw [not_or, not_or, not_not, not_le, not_lt] at hguard
      cases hok
      exact .snapshot snapshot hguard.1 ⟨hguard.2.1.le, hguard.2.2⟩
  | recordCaughtUp marker =>
    simp only [advanceOperation] at hok
    split at hok
    · cases hok
    · obtain ⟨_, hguard, hok⟩ := bind_eq_ok hok
      obtain ⟨hphase, hcut⟩ := not_or.mp (refuseIf_eq_ok.mp hguard)
      rw [not_or, not_not, not_le] at hcut
      cases hok
      refine .caughtUp marker ?_ ⟨hcut.2.le, hcut.1.le⟩
      rcases not_not.mp hphase with hphase | hphase <;> rw [hphase] <;> decide
  | recordContinuation =>
    simp only [advanceOperation] at hok
    split at hok
    · cases hok
    · obtain ⟨_, hguard, hok⟩ := bind_eq_ok hok
      rw [refuseIf_eq_ok, not_le] at hguard
      cases hok
      exact .continuation hguard
  | fence =>
    simp only [advanceOperation] at hok
    split at hok
    · cases hok
    · obtain ⟨_, hguard, hok⟩ := bind_eq_ok hok
      rw [refuseIf_eq_ok, not_or, not_not] at hguard
      obtain ⟨marker, hmarker, hterm⟩ : ∃ marker,
          op.evidence.caughtUp = some marker ∧ marker.term = cut.term := by
        cases hmarker : op.evidence.caughtUp with
        | none => simp [hmarker] at hguard
        | some marker => exact ⟨marker, rfl, by simpa [hmarker] using hguard.2⟩
      cases hok
      exact .fence marker hguard.1 hmarker hterm
  | finalize => cases hok

/-- A repeated catch-up record names the marker that is retained. -/
theorem retained_marker {marker : VoterSlotLogId}
    (hretry : advanceOperation op cut (.recordCaughtUp marker) = .ok none) :
    op.evidence.caughtUp = some marker := by
  simp only [advanceOperation] at hretry
  split at hretry
  · assumption
  · obtain ⟨_, _, hretry⟩ := bind_eq_ok hretry
    cases hretry

/-! ## Membership entries -/

/-- What an accepted membership entry can do to the operation. -/
inductive ObservedStep (op : VoterReplacementRecord)
    (configurations : List (Finset ConsensusNodeId)) (cut : VoterSlotLogId) :
    VoterReplacementRecord → Prop
  | old (hold : configurations = [memberIds op.predecessor]) (hphase : op.phase < .joint) :
      ObservedStep op configurations cut op
  | learner (hold : configurations = [memberIds op.predecessor])
      (hphase : op.phase = .snapshotInstalled) :
      ObservedStep op configurations cut { op with
        evidence := { op.evidence with learner := some cut }
        phase := .learnerAdded }
  | joint (hjoint : configurations = [memberIds op.predecessor, memberIds op.successor])
      (hphase : op.phase = .fenced) :
      ObservedStep op configurations cut { op with
        evidence := { op.evidence with joint := some cut }
        phase := .joint }
  | jointAgain (hjoint : configurations = [memberIds op.predecessor, memberIds op.successor])
      (hphase : op.phase = .joint) : ObservedStep op configurations cut op
  | uniform (huniform : configurations = [memberIds op.successor]) (hphase : op.phase = .joint) :
      ObservedStep op configurations cut { op with
        evidence := { op.evidence with uniform := some cut }
        phase := .uniform }
  | uniformAgain (huniform : configurations = [memberIds op.successor])
      (hphase : op.phase = .uniform) : ObservedStep op configurations cut op

theorem observeOperation_cases {observed : VoterReplacementRecord}
    (hok : observeOperation op configurations nodes cut = .ok observed) :
    ObservedStep op configurations cut observed := by
  obtain ⟨_, _, hok⟩ := bind_eq_ok hok
  split at hok
  · next hold =>
    obtain ⟨hphase, hok⟩ := refuseIf_bind hok
    obtain ⟨_, _, hok⟩ := bind_eq_ok hok
    rw [not_or, not_le] at hphase
    split at hok
    · obtain ⟨_, _, hok⟩ := bind_eq_ok hok
      split at hok
      · next hinstalled =>
        cases hok
        exact .learner hold hinstalled
      · cases hok
        exact .old hold hphase.1
    · obtain ⟨_, _, hok⟩ := bind_eq_ok hok
      cases hok
      exact .old hold hphase.1
  · split at hok
    · next hjoint =>
      obtain ⟨_, hphase, hok⟩ := bind_eq_ok hok
      rw [refuseIf_eq_ok, not_not] at hphase
      split at hok
      · next hfenced =>
        cases hok
        exact .joint hjoint.1 hfenced
      · next hfenced =>
        cases hok
        exact .jointAgain hjoint.1 (hphase.resolve_left hfenced)
    · split at hok
      · next huniform =>
        obtain ⟨_, hphase, hok⟩ := bind_eq_ok hok
        rw [refuseIf_eq_ok, not_not] at hphase
        split at hok
        · next hjoint =>
          cases hok
          exact .uniform huniform.1 hjoint
        · next hjoint =>
          cases hok
          exact .uniformAgain huniform.1 (hphase.resolve_left hjoint)
      · cases hok

/-- What an accepted membership entry can do. -/
inductive MembershipStep (table : VoterSlotTable)
    (configurations : List (Finset ConsensusNodeId)) (cut : VoterSlotLogId) :
    VoterSlotTable → Prop
  | idle (hidle : table.replacement = none)
      (hcurrent : configurations = [memberIds table.currentConfiguration]) :
      MembershipStep table configurations cut table
  | unchanged (op : VoterReplacementRecord) (hop : table.replacement = some op)
      (hobserved : ObservedStep op configurations cut op) :
      MembershipStep table configurations cut table
  | observed (op observed : VoterReplacementRecord) (revision : Fin (2 ^ 64))
      (hop : table.replacement = some op)
      (hobserved : ObservedStep op configurations cut observed) :
      MembershipStep table configurations cut
        { table.withObserved op observed with revision := revision }

theorem observed_cases (hok : table.observed configurations nodes cut = .ok next) :
    MembershipStep table configurations cut next := by
  obtain ⟨revision, _, hok⟩ := bind_eq_ok hok
  cases hop : table.replacement with
  | none =>
    simp only [hop] at hok
    split at hok
    · next hcurrent =>
      cases hok
      exact .idle hop hcurrent.1
    · cases hok
  | some op =>
    simp only [hop] at hok
    obtain ⟨observed, hobserved, hok⟩ := bind_eq_ok hok
    obtain ⟨_, _, hok⟩ := bind_eq_ok hok
    have hcases := observeOperation_cases hobserved
    split at hok
    · next hsame =>
      cases hok
      have hreplacement : some observed = table.replacement :=
        congrArg VoterSlotTable.replacement hsame
      rw [hop] at hreplacement
      cases hreplacement
      exact .unchanged _ hop hcases
    · cases hok
      exact .observed op observed revision hop hcases

end VoterSlotTable

end PacketCore.VoterSlots
