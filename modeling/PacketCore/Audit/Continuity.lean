import PacketCore.Audit.Validation

/-!
# Signatures, checkpoints and pruning

A second chain signs the rows of the ledger under signing keys that can be
rotated.  Checkpoints name a prefix of both chains; a prefix that an
acknowledged export covers can be dropped.
-/

namespace PacketCore.Audit

variable {δ : Type} [LinearOrder δ] (mac : Authenticator δ)

/-- The keys of the signing epochs that this node holds. -/
structure AuditKeyRing where
  keys : ℕ → Option AuditKey

def AuditKeyRing.key (ring : AuditKeyRing) (epoch : ℕ) : Except AuditAuthorityError AuditKey :=
  okOr (ring.keys epoch) .keyUnavailable

/-- Verify both key proofs against the exact prefix they were made for. -/
def AuditKeyTransition.verify (transition : AuditKeyTransition δ) (ring : AuditKeyRing)
    (identity : ConfigConsensusIdentity) (previousSequence : ℕ)
    (previousAnchor : δ) (fromEpoch : ℕ) : Except AuditAuthorityError Unit := do
  let body := transition.body
  refuseIf (body.version ≠ 1 ∨ body.identity ≠ identity ∨
    body.previousSequence ≠ previousSequence ∨ body.previousAnchor ≠ previousAnchor ∨
    body.fromEpoch ≠ fromEpoch ∨ checkedAdd fromEpoch 1 ≠ some body.toEpoch) .bindingMismatch
  let old ← ring.key fromEpoch
  let new ← ring.key body.toEpoch
  refuseIf (mac.fingerprint old ≠ body.oldFingerprint ∨
    mac.fingerprint new ≠ body.newFingerprint ∨
    body.oldFingerprint = body.newFingerprint) .bindingMismatch
  Audit.verify mac old (.transitionOld body) transition.oldProof
  Audit.verify mac new (.transitionNew body transition.oldProof) transition.newProof

def AuditCheckpoint.verify (checkpoint : AuditCheckpoint δ) (ring : AuditKeyRing)
    (identity : ConfigConsensusIdentity) : Except AuditAuthorityError Unit := do
  refuseIf (checkpoint.body.version ≠ 1 ∨ checkpoint.body.identity ≠ identity) .bindingMismatch
  let key ← ring.key checkpoint.body.signingEpoch
  Audit.verify mac key (.checkpoint checkpoint.body) checkpoint.mac

def ContinuityState.new (epoch : ℕ) : ContinuityState δ :=
  { version := 2, initialEpoch := epoch, floorEpoch := epoch, floorAnchor := mac.zero
    activeEpoch := epoch, terminal := mac.zero, rows := []
    checkpoint := none, exportCheckpoint := none }

/-- The epoch that is active after a row signed under `epoch`. -/
def EntryPayload.epochAfter (payload : EntryPayload δ) (epoch : ℕ) : ℕ :=
  match payload with
  | .keyTransition transition => transition.body.toEpoch
  | _ => epoch

/-- Verify one signature; the result is the epoch of the next one. -/
def verifyRow (ring : AuditKeyRing) (identity : ConfigConsensusIdentity) (epoch : ℕ) (previous : δ)
    (entry : LedgerEntry δ) (row : SignedAuditRow δ) : Except AuditAuthorityError ℕ := do
  refuseIf (row.epoch ≠ epoch ∨ row.previous ≠ previous) .bindingMismatch
  let key ← ring.key epoch
  verify mac key (.row identity epoch previous entry) row.signature
  match entry.payload with
  | .keyTransition transition => do
    let before ← okOr (checkedSub entry.sequence 1) .bindingMismatch
    transition.verify mac ring identity before previous epoch
    return transition.body.toEpoch
  | _ => return epoch

/-- Verify signatures one after the other. -/
def verifyRows (ring : AuditKeyRing) (identity : ConfigConsensusIdentity) :
    List (LedgerEntry δ × SignedAuditRow δ) → ℕ → δ → Except AuditAuthorityError (ℕ × δ)
  | [], epoch, previous => .ok (epoch, previous)
  | (entry, row) :: rest, epoch, previous => do
    let next ← verifyRow mac ring identity epoch previous entry row
    verifyRows ring identity rest next row.signature

namespace LedgerState

variable (ledger : LedgerState δ)

/-- The two chains agree with these anchors after the row `sequence`. -/
def matchesPrefix (identity : ConfigConsensusIdentity) (sequence : ℕ)
    (rootAnchor signingAnchor : δ) (epochAtSequence : ℕ) : Except AuditAuthorityError Unit := do
  let chain ← okOr ledger.continuity .unavailable
  refuseIf (identity ≠ ledger.identity) .bindingMismatch
  refuseIf (ledger.sequence < sequence) .rollbackDetected
  refuseIf (sequence < ledger.floor) .rollbackDetected
  let anchors ← (if sequence = ledger.floor then
      .ok (ledger.predecessor, chain.floorAnchor, chain.floorEpoch)
    else do
      let index := sequence - ledger.floor - 1
      let entry ← okOr ledger.entries[index]? .bindingMismatch
      let row ← okOr chain.rows[index]? .bindingMismatch
      return (entry.mac, row.signature, entry.payload.epochAfter row.epoch))
  refuseIf (rootAnchor ≠ anchors.1 ∨ signingAnchor ≠ anchors.2.1 ∨
    epochAtSequence ≠ anchors.2.2) .bindingMismatch

def matchesCheckpoint (checkpoint : AuditCheckpoint δ) : Except AuditAuthorityError Unit :=
  ledger.matchesPrefix checkpoint.body.identity checkpoint.body.sequence
    checkpoint.body.rootAnchor checkpoint.body.anchor checkpoint.body.epochAtSequence

variable (ring : AuditKeyRing)

/-- A stored checkpoint is authentic and names a prefix of this ledger. -/
def checkCheckpoint (checkpoint : AuditCheckpoint δ) : Except AuditAuthorityError Unit := do
  checkpoint.verify mac ring ledger.identity
  ledger.matchesCheckpoint checkpoint

/-- The export checkpoint names an export and is covered by the checkpoint. -/
def checkExport (chain : ContinuityState δ) (acknowledged : AuditCheckpoint δ) :
    Except AuditAuthorityError Unit := do
  ledger.checkCheckpoint mac ring acknowledged
  refuseIf (acknowledged.body.acknowledgedExport = mac.zero ∨
    chain.checkpoint.all (·.body.sequence < acknowledged.body.sequence)) .bindingMismatch

/-- A check on an optional value. -/
def checkSome {α : Type} (value : Option α)
    (check : α → Except AuditAuthorityError Unit) : Except AuditAuthorityError Unit :=
  match value with
  | none => .ok ()
  | some value => check value

def validateContinuity : Except AuditAuthorityError Unit :=
  match ledger.continuity with
  | none => .ok ()
  | some chain => do
    refuseIf (chain.version ≠ 2 ∨ chain.rows.length ≠ ledger.entries.length) .bindingMismatch
    let last ← verifyRows mac ring ledger.identity (ledger.entries.zip chain.rows)
      chain.floorEpoch chain.floorAnchor
    let _ ← ring.key last.1
    refuseIf (last.1 ≠ chain.activeEpoch ∨ last.2 ≠ chain.terminal) .bindingMismatch
    checkSome chain.checkpoint (ledger.checkCheckpoint mac ring)
    checkSome chain.exportCheckpoint (ledger.checkExport mac ring chain)

/-- Sign one row at the end of the chain. -/
def sealEntry (chain : ContinuityState δ) (entry : LedgerEntry δ) :
    Except AuditAuthorityError (ContinuityState δ) := do
  let key ← ring.key chain.activeEpoch
  let signature := mac.authenticate key
    (.row ledger.identity chain.activeEpoch chain.terminal entry)
  let row : SignedAuditRow δ := ⟨chain.activeEpoch, chain.terminal, signature⟩
  let epoch ← verifyRow mac ring ledger.identity chain.activeEpoch chain.terminal entry row
  return { chain with activeEpoch := epoch, terminal := signature, rows := chain.rows ++ [row] }

/-- Sign the rows that have no signature yet. -/
def sealContinuity : Except AuditAuthorityError (LedgerState δ) :=
  match ledger.continuity with
  | none => .ok ledger
  | some chain => do
    refuseIf (ledger.entries.length < chain.rows.length) .bindingMismatch
    let chain ← (ledger.entries.drop chain.rows.length).foldlM (ledger.sealEntry mac ring) chain
    return { ledger with continuity := some chain }

def transitionKey (root : AuditKey) (ring : AuditKeyRing)
    (transition : AuditKeyTransition δ) : Except AuditAuthorityError (LedgerState δ) := do
  ledger.validateContinuity mac ring
  let chain ← okOr ledger.continuity .unavailable
  if ledger.entries.any (fun entry => entry.payload = .keyTransition transition) then
    return ledger
  else do
    transition.verify mac ring ledger.identity ledger.sequence chain.terminal chain.activeEpoch
    refuseIf (ledger.limits.maxEvents ≤ ledger.usedCapacity) .full
    let next ← ledger.append mac root (.keyTransition transition)
    next.sealContinuity mac ring

/-- An operation with a row up to `through` that must be kept. -/
def Holds (through : ℕ) (now : ℤ) (operation : LedgerOperation δ) : Prop :=
  operation.firstSequence ≤ through ∧ (operation.terminalRecorded = false ∨
    through < operation.lastSequence ∨ now < operation.handle.body.expiresAt)

instance (through : ℕ) (now : ℤ) (operation : LedgerOperation δ) :
    Decidable (Holds through now operation) :=
  inferInstanceAs (Decidable (_ ∧ _))

/-- Drop the first `count` rows; `last` and `signed` are the last of them. -/
def dropRows (chain : ContinuityState δ) (through count : ℕ)
    (last : LedgerEntry δ) (signed : SignedAuditRow δ) : LedgerState δ :=
  { ledger with
    floor := through
    predecessor := last.mac
    entries := ledger.entries.drop count
    operations := ledger.operations.filter fun operation => through < operation.firstSequence
    continuity := some { chain with
      floorEpoch := last.payload.epochAfter signed.epoch
      floorAnchor := signed.signature
      rows := chain.rows.drop count } }

def prune (through : ℕ) (checkpoint : AuditCheckpoint δ) (now : ℤ) :
    Except AuditAuthorityError (LedgerState δ) := do
  ledger.validateContinuity mac ring
  ledger.matchesCheckpoint checkpoint
  let chain ← okOr ledger.continuity .unavailable
  refuseIf (chain.exportCheckpoint ≠ some checkpoint ∨
    checkpoint.body.acknowledgedExport = mac.zero ∨
    checkpoint.body.sequence < through) .bindingMismatch
  refuseIf (through < ledger.floor) .pruned
  if through = ledger.floor then return ledger
  else do
    refuseIf (∃ operation ∈ ledger.operations, Holds through now operation) .full
    let count := through - ledger.floor
    let last ← okOr ledger.entries[count - 1]? .invalidInput
    let signed ← okOr chain.rows[count - 1]? .bindingMismatch
    return ledger.dropRows chain through count last signed

/-- Store a newer checkpoint. -/
def recordCheckpoint (checkpoint : AuditCheckpoint δ) :
    Except AuditAuthorityError (LedgerState δ) := do
  checkpoint.verify mac ring ledger.identity
  ledger.matchesCheckpoint checkpoint
  let chain ← okOr ledger.continuity .unavailable
  refuseIf (chain.checkpoint.any fun old =>
    checkpoint.body.sequence < old.body.sequence ∨
      (old.body.sequence = checkpoint.body.sequence ∧ old ≠ checkpoint)) .rollbackDetected
  return { ledger with continuity := some { chain with checkpoint := some checkpoint } }

/-- Store the checkpoint of an export that its recipient has acknowledged. -/
def acknowledgeExport (checkpoint : AuditCheckpoint δ) :
    Except AuditAuthorityError (LedgerState δ) := do
  checkpoint.verify mac ring ledger.identity
  ledger.matchesCheckpoint checkpoint
  let chain ← okOr ledger.continuity .unavailable
  refuseIf (checkpoint.body.acknowledgedExport = mac.zero ∨
    chain.checkpoint.all (·.body.sequence < checkpoint.body.sequence)) .bindingMismatch
  if chain.exportCheckpoint.all (·.body.sequence < checkpoint.body.sequence) then
    return { ledger with continuity := some { chain with exportCheckpoint := some checkpoint } }
  else return ledger

end LedgerState

/-- The commands of the authority.  A commit is resolved inside the transaction
that applies it; a rejection is a command of its own. -/
inductive Command (δ : Type)
  | intent (handle : AuditOperationHandle δ)
  | commit (handle : AuditOperationHandle δ) (version : ℕ)
  | reject (handle : AuditOperationHandle δ)
  | terminal (handle : AuditOperationHandle δ)
  | transition (transition : AuditKeyTransition δ)
  | checkpoint (checkpoint : AuditCheckpoint δ)
  | acknowledgeExport (checkpoint : AuditCheckpoint δ)
  | prune (through : ℕ) (checkpoint : AuditCheckpoint δ)

namespace LedgerState

/-- The effect of a command before the new rows are signed. -/
def execute (key : AuditKey) (ring : AuditKeyRing) (ledger : LedgerState δ) (now : ℤ) :
    Command δ → Except AuditAuthorityError (LedgerState δ)
  | .intent handle => ledger.admission mac key handle now
  | .commit handle version => ledger.resolve mac key handle (.committed version)
  | .reject handle => ledger.resolve mac key handle .rejected
  | .terminal handle => ledger.acknowledgeTerminal mac key handle
  | .transition transition => ledger.transitionKey mac key ring transition
  | .checkpoint checkpoint => ledger.recordCheckpoint mac ring checkpoint
  | .acknowledgeExport checkpoint => ledger.acknowledgeExport mac ring checkpoint
  | .prune through checkpoint => ledger.prune mac ring through checkpoint now

/-- One command with the signatures of its rows. -/
def apply (key : AuditKey) (ring : AuditKeyRing) (ledger : LedgerState δ) (now : ℤ)
    (command : Command δ) : Except AuditAuthorityError (LedgerState δ) := do
  let next ← ledger.execute mac key ring now command
  next.sealContinuity mac ring

/-- A refused command leaves the stored ledger as it is. -/
def step (key : AuditKey) (ring : AuditKeyRing) (ledger : LedgerState δ)
    (command : ℤ × Command δ) : LedgerState δ :=
  match ledger.apply mac key ring command.1 command.2 with
  | .ok next => next
  | .error _ => ledger

/-- Commands one after the other. -/
def run (key : AuditKey) (ring : AuditKeyRing) (ledger : LedgerState δ)
    (commands : List (ℤ × Command δ)) : LedgerState δ :=
  commands.foldl (step mac key ring) ledger

/-- A new ledger with continuity, as the authority provisions it. -/
def provision (identity : ConfigConsensusIdentity) (projection : AuditToken)
    (limits : AuditLedgerLimits) (epoch : ℕ) : LedgerState δ :=
  { new mac identity projection limits with continuity := some (ContinuityState.new mac epoch) }

end LedgerState

end PacketCore.Audit
