import PacketCore.Audit.LedgerRuns

/-!
# Long runs of the ledger

A ledger without rows can admit an observation, export it, and prune it once it
has expired.  Each such cycle takes one sequence number and frees everything else,
the request included, so cycles reuse one request and end at the last number.
-/

namespace PacketCore.Audit

open List

deriving instance Encodable for AuditKey
deriving instance Encodable for ConfigConsensusIdentity
deriving instance Encodable for AuditCaller
deriving instance Encodable for ManagementAuditTransportCode
deriving instance Encodable for ManagementAuditOperationCode
deriving instance Encodable for ManagementAuditOutcomeCode
deriving instance Encodable for ProjectedAuditEvent
deriving instance Encodable for AuditOperationBinding
deriving instance Encodable for HandleBody
deriving instance Encodable for AuditOperationHandle
deriving instance Encodable for AuditOperationState
deriving instance Encodable for TransitionBody
deriving instance Encodable for AuditKeyTransition
deriving instance Encodable for EntryPayload
deriving instance Encodable for LedgerEntry
deriving instance Encodable for CheckpointBody
deriving instance Encodable for Message

/-- Tags that number the messages; the zero tag belongs to none. -/
def numbering : Authenticator ℕ where
  authenticate _ message := Encodable.encode message + 1
  fingerprint key := key.epoch
  zero := 0

theorem numbering_injective (key : AuditKey) : Function.Injective (numbering.authenticate key) := by
  intro _ _ hequal
  exact Encodable.encode_injective (Nat.succ_injective hequal)

def sampleKey : AuditKey := ⟨1, 1⟩

def sampleRing : AuditKeyRing := ⟨fun epoch => if epoch = 1 then some ⟨1, 2⟩ else none⟩

def sampleIdentity : ConfigConsensusIdentity := ⟨1, 1, 1⟩

def sampleToken : AuditToken := ⟨1, by decide⟩

def sampleLimits : AuditLedgerLimits := ⟨3, 1⟩

/-- A handle of one caller and one request that is live for one second. -/
def sampleBody (outcome : ManagementAuditOutcomeCode) (issued : ℤ) : HandleBody where
  version := 1
  identity := sampleIdentity
  binding := ⟨⟨sampleToken, sampleToken⟩, sampleToken, sampleToken, 0⟩
  event :=
    { projection := sampleToken, caller := ⟨sampleToken, sampleToken⟩, request := sampleToken
      transaction := none, paths := sampleToken, reason := none, transport := .gnmi
      operation := .read, outcome, utcSeconds := issued, nanosecond := 0 }
  issuedAt := issued
  expiresAt := issued + 1
  nonce := 0
  keyEpoch := 1
  mutation := none

variable {δ : Type} [LinearOrder δ] (mac : Authenticator δ)

def sampleHandle (outcome : ManagementAuditOutcomeCode) (issued : ℤ) : AuditOperationHandle δ :=
  ⟨sampleBody outcome issued, mac.authenticate sampleKey (.handle (sampleBody outcome issued))⟩

def sampleStart : LedgerState δ :=
  .provision mac sampleIdentity sampleToken sampleLimits 1

/-- The checkpoint of a whole ledger, with an acknowledged export. -/
def checkpointOf (acknowledged : δ) (ledger : LedgerState δ)
    (chain : ContinuityState δ) : AuditCheckpoint δ :=
  let body : CheckpointBody δ :=
    { version := 1, identity := ledger.identity, sequence := ledger.sequence
      rootAnchor := ledger.terminal, anchor := chain.terminal
      epochAtSequence := chain.activeEpoch, signingEpoch := 1, acknowledgedExport := acknowledged }
  ⟨body, mac.authenticate ⟨1, 2⟩ (.checkpoint body)⟩

variable {acknowledged : δ} {now : ℤ}

namespace LedgerState

/-- A ledger of the sample with one row for each of its operations. -/
structure Stands (sequence : ℕ) (operations : List (LedgerOperation δ))
    (ledger : LedgerState δ) (chain : ContinuityState δ) : Prop where
  sound : ledger.Sound mac sampleKey sampleRing
  identity : ledger.identity = sampleIdentity
  projection : ledger.projection = sampleToken
  limits : ledger.limits = sampleLimits
  sequence_eq : ledger.sequence = sequence
  length : ledger.entries.length = operations.length
  operations_eq : ledger.operations = operations
  continuity : ledger.continuity = some chain
  epoch : chain.activeEpoch = 1

variable {mac} {ledger : LedgerState δ} {chain : ContinuityState δ} {sequence : ℕ}
  {operation : LedgerOperation δ} {checkpoint : AuditCheckpoint δ}

section Standing

variable {operations : List (LedgerOperation δ)}
  (hstands : ledger.Stands mac sequence operations chain)
include hstands

theorem Stands.signed : ledger.Signed mac sampleRing chain := by
  obtain ⟨_, hstored, hsigned⟩ := hstands.sound.signed
  rwa [Option.some.inj (hstored.symm.trans hstands.continuity)] at hsigned

theorem Stands.authentic (outcome : ManagementAuditOutcomeCode) (now : ℤ) :
    (sampleHandle mac outcome now).verify mac sampleKey ledger.identity
      (sampleHandle mac outcome now).body.binding.caller = .ok () := by
  rw [hstands.identity]
  exact AuditOperationHandle.authentic_iff.mpr ⟨rfl, rfl, rfl, rfl⟩

end Standing

theorem stands_start : (sampleStart mac).Stands mac 0 [] (.new mac 1) :=
  ⟨provision_sound _ _ _ _ rfl rfl, rfl, rfl, rfl, rfl, rfl, rfl, rfl, rfl⟩

variable (mac) in
/-- The ledger with the row of a handle as its only operation. -/
def opened (ledger : LedgerState δ) (handle : AuditOperationHandle δ)
    (sequence : ℕ) : LedgerState δ :=
  { ledger.push mac sampleKey (.intent handle) with operations := [.admitted handle sequence] }

/-- The sample is accepted by a ledger without rows. -/
theorem Stands.admit_eq (hquiet : ledger.Stands mac sequence [] chain)
    (hbound : sequence + 1 ≤ Audit.lastSequence) (outcome : ManagementAuditOutcomeCode) (now : ℤ) :
    ledger.admission mac sampleKey (sampleHandle mac outcome now) now =
      .ok (ledger.opened mac (sampleHandle mac outcome now) (sequence + 1)) := by
  obtain rfl := hquiet.sequence_eq
  set handle := sampleHandle mac outcome now with hhandle
  have hauthentic : handle.verify mac sampleKey ledger.identity handle.body.binding.caller =
      .ok () := hquiet.authentic _ _
  have hlive : handle.requireLive now = .ok () :=
    refuseIf_of_not (by simp [hhandle, sampleHandle, sampleBody])
  have hcheckpoint : ¬ (handle.body.mutation.isSome = true ∧
      ledger.operations.any ledger.mutationOutcomeNeedsCheckpoint = true) := by
    simp [hhandle, sampleHandle, sampleBody]
  have hprojection : ¬ handle.body.event.projection ≠ ledger.projection := by
    simp [hquiet.projection, hhandle, sampleHandle, sampleBody]
  have hroom : ¬ (ledger.limits.maxOperations ≤ ledger.operations.length ∨
      ledger.limits.maxEvents < ledger.usedCapacity +
        if handle.body.event.outcome = .intent then operationEventReservation else 1) := by
    unfold usedCapacity
    rw [hquiet.limits, hquiet.operations_eq, hquiet.length]
    simp only [sampleLimits]
    split <;> simp [operationEventReservation]
  have happend : ledger.append mac sampleKey (.intent handle) =
      .ok (ledger.push mac sampleKey (.intent handle)) := by
    apply append_of_room
    · exact hbound
    · rw [hquiet.limits, hquiet.length]
      exact Nat.zero_lt_succ 2
  have hfind : ∀ test, ledger.operations.find? test = none := fun test => by
    rw [hquiet.operations_eq]
    rfl
  unfold admission
  rw [hauthentic, ok_bind, hfind]
  dsimp only
  rw [hlive, ok_bind, refuseIf_of_not hcheckpoint, ok_bind, refuseIf_of_not hprojection,
    ok_bind, refuseIf_of_not hroom, ok_bind, happend, ok_bind, pure_eq_ok]
  have hoperations : (ledger.push mac sampleKey (.intent handle)).operations = [] :=
    hquiet.operations_eq
  rw [hoperations]
  rfl

theorem Stands.admits (hinjective : Function.Injective (mac.authenticate sampleKey))
    (hquiet : ledger.Stands mac sequence [] chain) (hbound : sequence + 1 ≤ Audit.lastSequence)
    (outcome : ManagementAuditOutcomeCode) (now : ℤ) :
    ∃ signed, (ledger.step mac sampleKey sampleRing
      (now, .intent (sampleHandle mac outcome now))).Stands mac (sequence + 1)
        [.admitted (sampleHandle mac outcome now) (sequence + 1)] signed ∧
      signed.checkpoint = chain.checkpoint ∧ signed.exportCheckpoint = chain.exportCheckpoint := by
  set handle := sampleHandle mac outcome now
  have hextends : ledger.Extends _ (ledger.opened mac handle (sequence + 1)) :=
    ⟨rfl, rfl, rfl, rfl, Nat.le_succ _, rfl⟩
  obtain ⟨signed, hseal, hepoch, hcheckpoint, hexport⟩ :=
    hquiet.signed.seal_succeeds hquiet.continuity hextends (fun _ hpayload => by cases hpayload)
  have happly : ledger.apply mac sampleKey sampleRing now (.intent handle) =
      .ok { ledger.opened mac handle (sequence + 1) with continuity := some signed } := by
    have hexecute : ledger.execute mac sampleKey sampleRing now (.intent handle) =
        .ok (ledger.opened mac handle (sequence + 1)) := hquiet.admit_eq hbound _ _
    unfold apply
    rw [hexecute, ok_bind, hseal]
  have hsound := (apply_eq_ok hinjective hquiet.sound happly).1
  refine ⟨signed, ?_, hcheckpoint, hexport⟩
  unfold step
  rw [happly]
  exact
    { sound := hsound
      identity := hquiet.identity
      projection := hquiet.projection
      limits := hquiet.limits
      sequence_eq := congrArg _ hquiet.sequence_eq
      length := by simp [opened, push, hquiet.length]
      operations_eq := rfl
      continuity := rfl
      epoch := hepoch.trans hquiet.epoch }

/-- A command whose result keeps the invariant has nothing left to seal. -/
theorem step_of_execute {key : AuditKey} {ring : AuditKeyRing} {next : LedgerState δ} (now : ℤ)
    (command : Command δ) (hexecute : ledger.execute mac key ring now command = .ok next)
    (hsound : next.Sound mac key ring) : ledger.step mac key ring (now, command) = next := by
  obtain ⟨_, hchain, hsigned⟩ := hsound.signed
  unfold step apply
  rw [hexecute, ok_bind, hsigned.sealContinuity_eq hchain]

section Busy

variable (hbusy : ledger.Stands mac (sequence + 1) [operation] chain)
include hbusy

theorem Stands.row :
    ∃ entry row, ledger.entries = [entry] ∧ chain.rows = [row] ∧ ledger.floor = sequence ∧
      ledger.terminal = entry.mac ∧ chain.terminal = row.signature ∧
      chain.activeEpoch = entry.payload.epochAfter row.epoch := by
  obtain ⟨entry, hentries⟩ := length_eq_one_iff.mp hbusy.length
  obtain ⟨row, hrows⟩ := length_eq_one_iff.mp (hbusy.signed.length.trans hbusy.length)
  have hsequence := hbusy.sound.sequence_eq
  rw [hbusy.length, hbusy.sequence_eq, length_singleton] at hsequence
  have hpair : (ledger.entries.zip chain.rows).getLast? = some (entry, row) := by
    rw [hentries, hrows]
    rfl
  have hlast := verifyRows_last hbusy.signed.rows hpair
  exact ⟨entry, row, hentries, hrows, by omega,
    hbusy.sound.replays.previous_eq (by rw [hentries]; rfl),
    congrArg Prod.snd hlast, congrArg Prod.fst hlast⟩

/-- The checkpoint of a whole ledger is authentic and names its last anchors. -/
theorem Stands.marks (acknowledged : δ) :
    (checkpointOf mac acknowledged ledger chain).verify mac sampleRing ledger.identity = .ok () ∧
      ledger.Marks chain (checkpointOf mac acknowledged ledger chain) := by
  constructor
  · unfold AuditCheckpoint.verify verify AuditKeyRing.key
    simp [checkpointOf, sampleRing, okOr, refuseIf]
  · obtain ⟨_, row, hentries, hrows, hfloor, hterminal, hsignature, hepoch⟩ := hbusy.row
    refine ⟨rfl, le_rfl, ?_, ?_⟩
    · change ledger.floor ≤ ledger.sequence
      rw [hfloor, hbusy.sequence_eq]
      exact Nat.le_succ _
    · change (ledger.anchors chain)[ledger.sequence - ledger.floor]? =
        some (ledger.terminal, chain.terminal, chain.activeEpoch)
      rw [hfloor, hbusy.sequence_eq, Nat.add_sub_cancel_left, hterminal, hsignature, hepoch]
      unfold anchors
      rw [hentries, hrows]
      rfl

/-- Checkpoint, acknowledgement of the export, and pruning after the expiry. -/
def release (mac : Authenticator δ) (acknowledged : δ) (now : ℤ)
    (ledger : LedgerState δ) (chain : ContinuityState δ) : List (ℤ × Command δ) :=
  let checkpoint := checkpointOf mac acknowledged ledger chain
  [(now, .checkpoint checkpoint), (now, .acknowledgeExport checkpoint),
    (now + 1, .prune ledger.sequence checkpoint)]

/-- A newer checkpoint is stored. -/
theorem Stands.record (hverify : checkpoint.verify mac sampleRing ledger.identity = .ok ())
    (hmarks : ledger.Marks chain checkpoint) (now : ℤ)
    (hnewer : ∀ old, chain.checkpoint = some old →
      old.body.sequence < checkpoint.body.sequence) :
    (ledger.step mac sampleKey sampleRing (now, .checkpoint checkpoint)).Stands mac
      (sequence + 1) [operation] { chain with checkpoint := some checkpoint } := by
  have hrecord : ledger.recordCheckpoint mac sampleRing checkpoint =
      .ok { ledger with continuity := some { chain with checkpoint := some checkpoint } } := by
    have hnot : ¬ (chain.checkpoint.any fun old => decide
        (checkpoint.body.sequence < old.body.sequence ∨
          (old.body.sequence = checkpoint.body.sequence ∧ old ≠ checkpoint))) = true := by
      cases hold : chain.checkpoint with
      | none => simp
      | some =>
        have hless := hnewer _ hold
        simp only [Option.any_some, decide_eq_true_eq]
        omega
    unfold recordCheckpoint
    rw [hverify, ok_bind, (matchesCheckpoint_iff hbusy.continuity).mpr hmarks,
      ok_bind, hbusy.continuity, okOr, ok_bind, refuseIf_of_not hnot]
    rfl
  have hsound := (recordCheckpoint_eq_ok hbusy.sound hrecord).1
  have hstep := step_of_execute now (.checkpoint checkpoint) hrecord hsound
  rw [hstep]
  exact { hbusy with sound := hsound, continuity := rfl }

theorem Stands.acknowledge (hstored : chain.checkpoint = some checkpoint)
    (hack : checkpoint.body.acknowledgedExport ≠ mac.zero) (now : ℤ)
    (hnewer : ∀ old, chain.exportCheckpoint = some old →
      old.body.sequence < checkpoint.body.sequence) :
    (ledger.step mac sampleKey sampleRing (now, .acknowledgeExport checkpoint)).Stands mac
      (sequence + 1) [operation] { chain with exportCheckpoint := some checkpoint } := by
  obtain ⟨hverify, hmarks⟩ := hbusy.signed.checkpoint _ hstored
  have hexport : ledger.acknowledgeExport mac sampleRing checkpoint =
      .ok { ledger with
        continuity := some { chain with exportCheckpoint := some checkpoint } } := by
    have hcovered : ¬ (checkpoint.body.acknowledgedExport = mac.zero ∨
        (chain.checkpoint.all fun current =>
          decide (current.body.sequence < checkpoint.body.sequence)) = true) := by
      simp [hstored, hack]
    have hall : (chain.exportCheckpoint.all fun current =>
        decide (current.body.sequence < checkpoint.body.sequence)) = true := by
      cases hold : chain.exportCheckpoint with
      | none => rfl
      | some => exact decide_eq_true (hnewer _ hold)
    unfold acknowledgeExport
    rw [hverify, ok_bind, (matchesCheckpoint_iff hbusy.continuity).mpr hmarks, ok_bind,
      hbusy.continuity, okOr, ok_bind, refuseIf_of_not hcovered, ok_bind, if_pos hall]
    rfl
  have hsound := (acknowledgeExport_eq_ok hbusy.sound hexport).1
  have hstep := step_of_execute now (.acknowledgeExport checkpoint) hexport hsound
  rw [hstep]
  exact { hbusy with sound := hsound, continuity := rfl }

end Busy

/-- The exported row of an expired observation is pruned. -/
theorem Stands.prune
    (hbusy : ledger.Stands mac (sequence + 1)
      [.admitted (sampleHandle mac .success now) (sequence + 1)] chain)
    (hstored : chain.exportCheckpoint = some checkpoint)
    (hnumber : checkpoint.body.sequence = sequence + 1) :
    ∃ pruned, (ledger.step mac sampleKey sampleRing
      (now + 1, .prune (sequence + 1) checkpoint)).Stands mac (sequence + 1) [] pruned := by
  obtain ⟨entry, row, hentries, hrows, hfloor, -⟩ := hbusy.row
  obtain ⟨-, hmarks, hack, -⟩ := hbusy.signed.exported _ hstored
  have hprune : ledger.prune mac sampleRing (sequence + 1) checkpoint (now + 1) =
      .ok (ledger.dropRows chain (sequence + 1) 1 entry row) := by
    have hfree : ¬ ∃ operation ∈ ledger.operations, Holds (sequence + 1) (now + 1) operation := by
      rw [hbusy.operations_eq]
      simp [Holds, LedgerOperation.admitted, sampleHandle, sampleBody]
    have hexport : ¬ (chain.exportCheckpoint ≠ some checkpoint ∨
        checkpoint.body.acknowledgedExport = mac.zero ∨
        checkpoint.body.sequence < sequence + 1) := by
      simp [hstored, hack, hnumber]
    unfold LedgerState.prune
    rw [hbusy.sound.valid.2, ok_bind, (matchesCheckpoint_iff hbusy.continuity).mpr hmarks,
      ok_bind, hbusy.continuity, okOr, ok_bind, refuseIf_of_not hexport, ok_bind, hfloor,
      refuseIf_of_not (by omega), ok_bind, if_neg (by omega),
      refuseIf_of_not hfree, ok_bind, hentries, hrows]
    simp only [Nat.add_sub_cancel_left, Nat.sub_self, getElem?_cons_zero, okOr, ok_bind, pure_eq_ok]
  rcases prune_eq_ok hprune with hsame | hprunes
  · have hlength := congrArg (fun ledger => ledger.entries.length) hsame
    simp [dropRows, hentries] at hlength
  have hsound := hprunes.sound hbusy.sound
  have hstep := step_of_execute _ (.prune (sequence + 1) checkpoint) hprune hsound
  rw [hstep]
  exact ⟨_, hsound, hbusy.identity, hbusy.projection, hbusy.limits, hbusy.sequence_eq,
    by simp [dropRows, hentries], by simp [dropRows, hbusy.operations_eq], rfl, hbusy.epoch⟩

/-- An exported observation is pruned once it has expired. -/
theorem Stands.release (hzero : acknowledged ≠ mac.zero)
    (hbusy : ledger.Stands mac (sequence + 1)
      [.admitted (sampleHandle mac .success now) (sequence + 1)] chain)
    (hcheckpoint : ∀ old, chain.checkpoint = some old → old.body.sequence ≤ sequence)
    (hexport : ∀ old, chain.exportCheckpoint = some old → old.body.sequence ≤ sequence) :
    ∃ pruned, (ledger.run mac sampleKey sampleRing
      (LedgerState.release mac acknowledged now ledger chain)).Stands mac
        (sequence + 1) [] pruned := by
  obtain ⟨hverify, hmarks⟩ := hbusy.marks acknowledged
  have hnumber : (checkpointOf mac acknowledged ledger chain).body.sequence = sequence + 1 :=
    hbusy.sequence_eq
  have hrecorded := hbusy.record hverify hmarks now
    fun old hold => hnumber ▸ Nat.lt_succ_of_le (hcheckpoint _ hold)
  have hacknowledged := hrecorded.acknowledge rfl hzero now
    fun old hold => hnumber ▸ Nat.lt_succ_of_le (hexport _ hold)
  obtain ⟨pruned, hquiet⟩ := hacknowledged.prune rfl hnumber
  refine ⟨pruned, ?_⟩
  unfold LedgerState.release
  rw [hbusy.sequence_eq]
  exact hquiet

/-- One cycle: an observation is admitted, exported and pruned. -/
theorem Stands.cycle (hinjective : Function.Injective (mac.authenticate sampleKey))
    (hzero : acknowledged ≠ mac.zero) (hquiet : ledger.Stands mac sequence [] chain)
    (hbound : sequence + 1 ≤ Audit.lastSequence) (now : ℤ) :
    ∃ rest pruned, (∀ input ∈ rest, now ≤ input.1 ∧ input.1 ≤ now + 1) ∧
      rest.Pairwise (fun earlier later => earlier.1 ≤ later.1) ∧
      ledger.Admits mac sampleKey sampleRing now
      (sampleHandle mac .success now) ∧ (ledger.run mac sampleKey sampleRing
        ((now, .intent (sampleHandle mac .success now)) :: rest)).Stands mac
          (sequence + 1) [] pruned := by
  obtain ⟨signed, hbusy, hcheckpoint, hexport⟩ := hquiet.admits hinjective hbound .success now
  have hsequence : ∀ old, ledger.Marks chain old → old.body.sequence ≤ sequence :=
    fun old hmarks => hquiet.sequence_eq ▸ hmarks.2.1
  have hadmits : ledger.Admits mac sampleKey sampleRing now (sampleHandle mac .success now) := by
    refine ⟨by simp [hquiet.operations_eq], _, ?_, LedgerOperation.admitted_handle _ (sequence + 1)⟩
    rw [hbusy.operations_eq]
    exact mem_singleton_self _
  obtain ⟨pruned, hpruned⟩ := hbusy.release hzero
    (fun old hold => hsequence old (hquiet.signed.checkpoint old (hcheckpoint ▸ hold)).2)
    (fun old hold => hsequence _ (hquiet.signed.exported _ (hexport ▸ hold)).2.1)
  rw [← run_cons] at hpruned
  refine ⟨_, pruned, ?_, ?_, hadmits, hpruned⟩
  · simp [LedgerState.release]
  · simp [LedgerState.release]

/-- Cycles reach every sequence number. -/
theorem exists_quiet (hinjective : Function.Injective (mac.authenticate sampleKey))
    (hzero : acknowledged ≠ mac.zero) {sequence : ℕ} (hbound : sequence ≤ Audit.lastSequence) :
    ∃ commands chain, (∀ input ∈ commands, input.1 ≤ (sequence : ℤ)) ∧
      commands.Pairwise (fun earlier later => earlier.1 ≤ later.1) ∧
      ((sampleStart mac).run mac sampleKey sampleRing commands).Stands mac sequence [] chain := by
  induction sequence with
  | zero => exact ⟨[], _, by simp, .nil, stands_start⟩
  | succ sequence ih =>
    obtain ⟨commands, chain, htimes, hclock, hquiet⟩ := ih (Nat.le_of_succ_le hbound)
    obtain ⟨_, pruned, hspan, hsorted, -, hnext⟩ := hquiet.cycle hinjective hzero hbound sequence
    rw [← run_append] at hnext
    refine ⟨_, pruned, ?_, ?_, hnext⟩
    · intro input hinput
      rcases mem_append.mp hinput with hinput | hinput
      · exact (htimes _ hinput).trans (by push_cast; omega)
      · rcases mem_cons.mp hinput with rfl | hinput
        · omega
        · exact_mod_cast (hspan _ hinput).2
    · refine pairwise_append.mpr ⟨hclock, pairwise_cons.mpr
        ⟨fun later hlater => (hspan _ hlater).1, hsorted⟩, ?_⟩
      intro earlier hearlier later hlater
      rcases mem_cons.mp hlater with rfl | hlater
      · exact htimes _ hearlier
      · exact (htimes _ hearlier).trans (hspan _ hlater).1

/-- The outcome of an open operation at the last sequence number is refused. -/
theorem Stands.resolve_full
    (hbusy : ledger.Stands mac (sequence + 1)
      [.admitted (sampleHandle mac .intent now) (sequence + 1)] chain)
    (hlast : sequence + 1 = Audit.lastSequence) :
    ledger.resolve mac sampleKey (sampleHandle mac .intent now) .rejected = .error .full := by
  have hindex : ledger.operationIndex mac sampleKey (sampleHandle mac .intent now) = .ok 0 := by
    unfold operationIndex
    rw [hbusy.authentic, hbusy.operations_eq]
    simp [okOr]
  have happend : ∀ payload, ledger.append mac sampleKey payload = .error .full := by
    intro payload
    have hend : Audit.lastSequence < ledger.sequence + 1 := by
      rw [hbusy.sequence_eq, hlast]
      exact Nat.lt_succ_self _
    unfold append refuseIf
    rw [if_pos hend]
    rfl
  unfold resolve
  rw [hindex, ok_bind, operationAt, hbusy.operations_eq]
  simp [okOr, LedgerOperation.admitted, sampleHandle, sampleBody, refuseIf, happend]
  rfl

variable {key : AuditKey} {ring : AuditKeyRing}

/-- The ledger grows consistently over every run: both validators accept every
state, an outcome and an acknowledgement have room while a sequence number is
left, the rows are numbered without a gap, and retained requests are distinct.
Later on, outcomes stay, sequence numbers are not reused, the rows of pending
operations stay, and a request is admitted again only under another handle, after
the first one has expired and has left the ledger. -/
theorem run_consistent (identity : ConfigConsensusIdentity)
    (projection : AuditToken) (limits : AuditLedgerLimits) (epoch : ℕ)
    (hinjective : Function.Injective (mac.authenticate key)) (hlimits : limits.validate = .ok ())
    (hepoch : (ring.keys epoch).isSome) (commands : List (ℤ × Command δ))
    (hclock : commands.Pairwise fun earlier later => earlier.1 ≤ later.1)
    (before after : List (ℤ × Command δ)) (hsplit : commands = before ++ after) :
    let state := (provision mac identity projection limits epoch).run mac key ring before
    (state.validate mac key identity = .ok () ∧ state.validateContinuity mac ring = .ok ()) ∧
    (state.sequence < Audit.lastSequence → ∀ handle,
      (∀ outcome, state.resolve mac key handle outcome ≠ .error .full) ∧
        state.acknowledgeTerminal mac key handle ≠ .error .full) ∧
    (state.sequence = state.floor + state.entries.length ∧
      state.entries.map LedgerEntry.sequence =
        range' (state.floor + 1) state.entries.length) ∧
    (state.operations.map fun operation => operation.handle.request).Nodup ∧
    (∀ middle rest, after = middle ++ rest →
      let later := state.run mac key ring middle
      (∀ operation ∈ state.operations, operation.state ≠ .intent →
        ∀ operation' ∈ later.operations, operation'.handle = operation.handle →
          operation'.state = operation.state) ∧
      (∀ entry ∈ later.entries, entry.sequence ≤ state.sequence → entry ∈ state.entries)) ∧
    (∀ input rest, after = input :: rest →
      ∀ operation ∈ state.operations, operation.Pending input.1 →
        ∀ entry ∈ state.entries, entry.payload.tag? = some operation.handle.mac →
          entry ∈ (state.step mac key ring input).entries) ∧
    (∀ now handle middle now' handle' rest,
      after = (now, .intent handle) :: middle ++ (now', .intent handle') :: rest →
      let later := state.run mac key ring ((now, .intent handle) :: middle)
      state.Admits mac key ring now handle → later.Admits mac key ring now' handle' →
        handle ≠ handle' ∧ (handle.request = handle'.request →
          handle.body.expiresAt ≤ now' ∧
            ∀ operation ∈ later.operations, operation.handle ≠ handle)) := by
  obtain ⟨hsound, hidentity⟩ :=
    run_sound hinjective (provision_sound _ _ _ _ hlimits hepoch) _
  have hclock : after.Pairwise fun earlier later => earlier.1 ≤ later.1 := by
    rw [hsplit] at hclock
    exact (pairwise_append.mp hclock).2.1
  refine ⟨?_, ?_, ⟨hsound.sequence_eq, hsound.sequences⟩, hsound.consistent.requests, ?_, ?_, ?_⟩
  · have hvalid := hsound.valid
    rw [hidentity] at hvalid
    exact hvalid
  · exact fun hbound handle => ⟨hsound.resolve_ne_full hbound handle,
      hsound.acknowledgeTerminal_ne_full hbound handle⟩
  · rintro middle rest rfl
    refine ⟨fun operation hmem hclosed => ?_,
      fun entry hentry hold => run_rows hinjective hsound _ hentry hold⟩
    refine run_outcome hinjective hsound
      (pairwise_append.mp hclock).1 hclosed ?_ (.inl ⟨operation, hmem, rfl⟩)
    intro _ hother hhandle
    rw [inj_on_of_nodup_map hsound.consistent.requests hother hmem (by rw [hhandle])]
  · rintro input rest rfl operation hmem hpending entry hentry htag
    exact (step_follows hinjective hsound _).2.kept _ hmem hpending _ hentry htag
  · rintro now handle middle now' handle' rest rfl later hadmits hadmits'
    have hlater : later.Sound mac key ring :=
      (run_sound hinjective hsound _).1
    have hbefore : ∀ input ∈ middle, input.1 ≤ now' := fun input hinput =>
      (pairwise_append.mp hclock).2.2 input (mem_cons_of_mem _ hinput) _
        mem_cons_self
    obtain ⟨hlive, hfresh⟩ := hadmits'.fresh hinjective hlater
    have hexpired := hadmits.expired hinjective hsound hbefore hadmits'
    refine ⟨?_, fun hrequest => ⟨hexpired hrequest, fun operation hmem hhandle => ?_⟩⟩
    · rintro rfl
      exact absurd (hexpired rfl) (not_le.mpr hlive)
    · exact hfresh _ hmem (by rw [hhandle, hrequest])

/-- After the first operation has been exported and pruned, its request is admitted
again, under the handle of the next second. -/
theorem exists_reuse :
    ∃ (middle : List (ℤ × Command ℕ)) (first second : AuditOperationHandle ℕ),
      List.Pairwise (fun earlier later : ℤ × Command ℕ => earlier.1 ≤ later.1)
        ((0, .intent first) :: middle ++ [(1, .intent second)]) ∧
      first.request = second.request ∧
      (sampleStart numbering).Admits numbering sampleKey sampleRing 0 first ∧
      ((sampleStart numbering).run numbering sampleKey sampleRing
        ((0, .intent first) :: middle)).Admits numbering sampleKey sampleRing 1 second := by
  have hinjective := numbering_injective sampleKey
  have hzero : (1 : ℕ) ≠ numbering.zero := Nat.one_ne_zero
  obtain ⟨rest, _, hspan, hsorted, hadmits, hquiet⟩ :=
    stands_start.cycle hinjective hzero (by decide) 0
  obtain ⟨-, -, -, -, hagain, -⟩ := hquiet.cycle hinjective hzero (by decide) 1
  refine ⟨rest, sampleHandle numbering .success 0,
    sampleHandle numbering .success 1, ?_, rfl, hadmits, hagain⟩
  rw [cons_append, pairwise_cons, pairwise_append]
  refine ⟨?_, hsorted, pairwise_singleton _ _, ?_⟩
  · exact forall_mem_append.mpr ⟨fun later hlater => (hspan _ hlater).1, by simp⟩
  · simpa using fun time command hearlier => (hspan (time, command) hearlier).2

/-- A request that is used twice: both validators accept the final state, and the
first handle had expired and left the ledger when the second was admitted. -/
theorem run_consistent_sample :
    ∃ (middle : List (ℤ × Command ℕ)) (first second : AuditOperationHandle ℕ),
      let earlier := (0, .intent first) :: middle
      let later := (sampleStart numbering).run numbering sampleKey sampleRing earlier
      let final := (sampleStart numbering).run numbering sampleKey sampleRing
        (earlier ++ [(1, .intent second)])
      (final.validate numbering sampleKey sampleIdentity = .ok () ∧
        final.validateContinuity numbering sampleRing = .ok ()) ∧
      first.request = second.request ∧ first ≠ second ∧ first.body.expiresAt ≤ 1 ∧
        ∀ operation ∈ later.operations, operation.handle ≠ first := by
  obtain ⟨middle, first, second, hclock, hrequest, hadmits, hagain⟩ := exists_reuse
  have hrun := run_consistent sampleIdentity sampleToken sampleLimits 1
    (numbering_injective sampleKey) rfl (show (sampleRing.keys 1).isSome from rfl) _ hclock
  obtain ⟨-, -, -, -, -, -, hreused⟩ := hrun [] _ rfl
  obtain ⟨hnew, hgone⟩ := hreused _ _ _ _ _ [] rfl hadmits hagain
  exact ⟨middle, first, second, (hrun _ [] (append_nil _).symm).1, hrequest, hnew, hgone hrequest⟩

/-- One request is admitted twice, the second time after the first operation was
pruned; and a run ends with an open operation whose outcome finds no number. -/
theorem request_reused_and_numbers_end :
    (∃ (middle : List (ℤ × Command ℕ)) (first second : AuditOperationHandle ℕ),
      List.Pairwise (fun earlier later : ℤ × Command ℕ => earlier.1 ≤ later.1)
        ((0, .intent first) :: middle ++ [(1, .intent second)]) ∧
      first.request = second.request ∧
      (sampleStart numbering).Admits numbering sampleKey sampleRing 0 first ∧
      ((sampleStart numbering).run numbering sampleKey sampleRing
        ((0, .intent first) :: middle)).Admits numbering sampleKey sampleRing 1 second) ∧
    ∃ commands : List (ℤ × Command ℕ),
      commands.Pairwise (fun earlier later => earlier.1 ≤ later.1) ∧
      let state := (sampleStart numbering).run numbering sampleKey sampleRing commands
      ∃ operation ∈ state.operations, operation.state = .intent ∧
        state.resolve numbering sampleKey operation.handle .rejected = .error .full := by
  constructor
  · exact exists_reuse
  · obtain ⟨sequence, hlast⟩ : ∃ sequence, sequence + 1 = Audit.lastSequence :=
      ⟨Audit.lastSequence - 1, by decide⟩
    have hinjective := numbering_injective sampleKey
    obtain ⟨commands, _, htimes, hclock, hquiet⟩ :=
      exists_quiet hinjective (show (1 : ℕ) ≠ numbering.zero from Nat.one_ne_zero)
        (Nat.le_of_succ_le hlast.le)
    obtain ⟨_, hbusy, -⟩ := hquiet.admits hinjective hlast.le .intent _
    refine ⟨commands ++
      [((sequence : ℤ), .intent (sampleHandle numbering .intent sequence))], ?_, ?_⟩
    · refine pairwise_append.mpr ⟨hclock, pairwise_singleton _ _, ?_⟩
      intro earlier hearlier later hlater
      rw [mem_singleton.mp hlater]
      exact htimes _ hearlier
    · rw [run_append, run_cons]
      refine ⟨.admitted (sampleHandle numbering .intent sequence) (sequence + 1), ?_, rfl, ?_⟩
      · exact hbusy.operations_eq ▸ mem_singleton_self _
      · rw [LedgerOperation.admitted_handle]
        exact hbusy.resolve_full hlast

end LedgerState

end PacketCore.Audit
