import PacketCore.Library.Loop
import PacketCore.Library.Table
import PacketCore.Library.Word

/-!
# Standby custody of mirrored keys

The standby keeps the key material of live security associations in memory.
The owner installs a generation, reports counters for it and withdraws it; a
takeover removes it and derives the outbound counter that the survivor resumes
with.  Every operation runs under one lock.
-/

namespace PacketCore.Mirror

inductive SaId
  | ike (responderSpi : Fin (2 ^ 64))
  | esp (spi : Fin (2 ^ 32))
deriving DecidableEq

inductive IpsecLbError
  | invalidConfig (field reason : String)
  | unsafeResume (reason : String)
deriving DecidableEq

inductive SaMirrorError
  | invalid (field reason : String)
  | staleEpoch
  | conflict (reason : String)
  | capacityExhausted
  | notFound
  | resume (cause : IpsecLbError)
deriving DecidableEq

section Resume

def minSendIvForwardJump : ℕ := 2 ^ 30

/-- The IKE values above are kept for canonical replies. -/
def ikeNormalExplicitIvEnd : ℕ := 0xffffffff00000000

inductive SendIvCounterMode
  | espExtendedSequenceNumbers (maxPeerSequenceLag : Fin (2 ^ 64))
  | ikeAeadExplicitIv64
deriving DecidableEq

structure SendIvForwardJump where
  forwardJump : Fin (2 ^ 64)
  counterMode : SendIvCounterMode

/-- The peer lag that an ESP mode attests; the mode must match the protocol. -/
def SendIvForwardJump.maxPeerSequenceLag (proof : SendIvForwardJump)
    (sa : SaId) : Except IpsecLbError (Option ℕ) :=
  match proof.counterMode, sa with
  | .espExtendedSequenceNumbers lag, .esp _ => .ok (some lag.val)
  | .ikeAeadExplicitIv64, .ike _ => .ok none
  | _, _ => .error (.unsafeResume "send IV counter mode does not match the resumed SA protocol")

/-- The reconstruction bound of extended sequence numbers. -/
def SendIvForwardJump.validateLag (proof : SendIvForwardJump)
    (lag checkpointedNext : ℕ) : Except IpsecLbError Unit := do
  let last ← okOr (checkedSub checkpointedNext 1)
    (.unsafeResume "ESP checkpointed next sequence must be non-zero")
  refuseIf (last < lag)
    (.unsafeResume "ESP peer receive lag exceeds the checkpointed sequence history")
  let delta ← okOr ((checkedAdd proof.forwardJump.val 1).bind (checkedAdd · lag))
    (.unsafeResume "ESP ESN forward-jump and peer receive lag overflow")
  refuseIf (2 ^ 31 < delta)
    (.unsafeResume "ESP ESN forward-jump and peer receive lag exceed the reconstruction limit")

def SendIvForwardJump.validateRestoredNext (proof : SendIvForwardJump) (sa : SaId)
    (checkpointedNext restoredNext : ℕ) : Except IpsecLbError Unit := do
  refuseIf (sa = .esp 0 ∨ sa = .ike 0)
    (.unsafeResume "same-SPI resume requires a non-zero SA identifier")
  let lag ← proof.maxPeerSequenceLag sa
  refuseIf (proof.forwardJump.val < minSendIvForwardJump)
    (.unsafeResume "send IV forward-jump is below the mandatory safety floor")
  let _ ← (match lag with
    | some lag => proof.validateLag lag checkpointedNext
    | none => .ok ())
  let expected ← okOr (checkedAdd checkpointedNext proof.forwardJump.val)
    (.unsafeResume "send IV counter exhausted during forward-jump; rekey before sending")
  refuseIf (restoredNext ≠ expected)
    (.unsafeResume "restored send IV counter does not match the proven forward-jump")
  refuseIf (proof.counterMode = .ikeAeadExplicitIv64 ∧ ikeNormalExplicitIvEnd ≤ expected)
    (.unsafeResume "IKE explicit IV counter reached the reserved region; rekey before sending")

/-- The evidence a takeover yields: counter-based, live-mirrored, with bounded
reopening of the replay window. -/
structure SameSpiResume where
  previousSa : SaId
  resumedSa : SaId
  checkpointedSendIvNext : ℕ
  restoredSendIvNext : ℕ
  forwardJump : SendIvForwardJump
  checkpointHighestAccepted : ℕ
  restoredHighestAccepted : ℕ
  maxReopenedPackets : ℕ

def validateSaIdentifier (sa : SaId) : Except IpsecLbError Unit := do
  refuseIf (sa = .esp 0) (.invalidConfig "sa.spi" "ESP SPI must be non-zero")
  refuseIf (sa = .ike 0) (.invalidConfig "sa.responder_spi" "IKE responder SPI must be non-zero")

def SameSpiResume.validateForRepin (resume : SameSpiResume)
    (expectedSa : SaId) : Except IpsecLbError Unit := do
  validateSaIdentifier expectedSa
  refuseIf (resume.previousSa ≠ expectedSa ∨ resume.resumedSa ≠ expectedSa)
    (.unsafeResume "same-SPI re-pin requires the resumed SA to keep the original protocol and SPI")
  resume.forwardJump.validateRestoredNext expectedSa resume.checkpointedSendIvNext
    resume.restoredSendIvNext
  refuseIf (resume.restoredHighestAccepted < resume.checkpointHighestAccepted)
    (.unsafeResume "anti-replay window rollback would accept old packets")
  refuseIf (resume.maxReopenedPackets = 0)
    (.unsafeResume "bounded anti-replay reopening must attest a non-zero maximum")

end Resume

/-- The per-SA key generation; zero is not one. -/
abbrev KeyEpoch := {epoch : Fin (2 ^ 64) // epoch ≠ 0}

/-- Opaque key bytes under the format the producer tagged them with. -/
structure MirroredSaKeymat where
  format : {format : Fin (2 ^ 64) // format ≠ 0}
  secret : {secret : List Byte // secret ≠ []}
deriving DecidableEq

structure SaMirrorInstall where
  sa : SaId
  epoch : KeyEpoch
  keymat : MirroredSaKeymat
  sendIvNext : Fin (2 ^ 64)
  replayHighestAccepted : Fin (2 ^ 64)

structure SaCounterCheckpoint where
  sa : SaId
  epoch : KeyEpoch
  sendIvNext : Fin (2 ^ 64)
  replayHighestAccepted : Fin (2 ^ 64)

/-- The checks that installs and checkpoints share. -/
def validateFrame (sa : SaId) (sendIvNext : Fin (2 ^ 64)) : Except SaMirrorError Unit := do
  refuseIf (sa = .esp 0) (.invalid "sa.spi" "ESP SPI must be non-zero")
  refuseIf (sa = .ike 0) (.invalid "sa.responder_spi" "IKE responder SPI must be non-zero")
  match sa with
  | .esp _ =>
    refuseIf (sendIvNext = 0) (.invalid "send_iv_next" "ESP next sequence must be non-zero")
  | .ike _ => .ok ()

def SaMirrorInstall.validate (install : SaMirrorInstall) : Except SaMirrorError Unit :=
  validateFrame install.sa install.sendIvNext

def SaCounterCheckpoint.validate (checkpoint : SaCounterCheckpoint) : Except SaMirrorError Unit :=
  validateFrame checkpoint.sa checkpoint.sendIvNext

structure HeldSa where
  epoch : KeyEpoch
  keymat : MirroredSaKeymat
  sendIvNext : Fin (2 ^ 64)
  replayHighestAccepted : Fin (2 ^ 64)

/-- Merge reported counters; neither is lowered. -/
def HeldSa.merge (held : HeldSa) (sendIvNext replayHighestAccepted : Fin (2 ^ 64)) : HeldSa :=
  { held with
    sendIvNext := max held.sendIvNext sendIvNext
    replayHighestAccepted := max held.replayHighestAccepted replayHighestAccepted }

structure InMemoryStandbyHolder where
  entries : Table SaId HeldSa
  capacity : ℕ
  capacity_pos : 0 < capacity

structure RepinTakeoverParams where
  forwardJump : SendIvForwardJump
  maxReopenedPackets : Fin (2 ^ 64)

structure LiveMirroredTakeover where
  keymat : MirroredSaKeymat
  epoch : KeyEpoch
  resume : SameSpiResume

namespace InMemoryStandbyHolder

def withCapacity (capacity : ℕ) (hcapacity : 0 < capacity) : InMemoryStandbyHolder :=
  ⟨.empty, capacity, hcapacity⟩

/-- What an install makes of the entry that is held for its SA. -/
def admission (held : Option HeldSa) (install : SaMirrorInstall) : Except SaMirrorError HeldSa :=
  let fresh : HeldSa :=
    ⟨install.epoch, install.keymat, install.sendIvNext, install.replayHighestAccepted⟩
  match held with
  | none => .ok fresh
  | some held => do
    refuseIf (install.epoch < held.epoch) .staleEpoch
    if install.epoch = held.epoch then do
      -- A retry is idempotent; other key bytes for the same generation are not.
      refuseIf (held.keymat ≠ install.keymat) (.conflict "held keymat differs for the same epoch")
      return held.merge install.sendIvNext install.replayHighestAccepted
    else return fresh

def install (holder : InMemoryStandbyHolder) (install : SaMirrorInstall) :
    Except SaMirrorError InMemoryStandbyHolder := do
  install.validate
  refuseIf (install.sa ∉ holder.entries.keys ∧ holder.capacity ≤ holder.entries.keys.card)
    .capacityExhausted
  let held ← admission (holder.entries.find install.sa) install
  return { holder with entries := holder.entries.insert install.sa held }

def checkpoint (holder : InMemoryStandbyHolder) (checkpoint : SaCounterCheckpoint) :
    Except SaMirrorError InMemoryStandbyHolder := do
  checkpoint.validate
  let held ← okOr (holder.entries.find checkpoint.sa) .notFound
  refuseIf (checkpoint.epoch < held.epoch) .staleEpoch
  refuseIf (held.epoch < checkpoint.epoch) .notFound
  let merged := held.merge checkpoint.sendIvNext checkpoint.replayHighestAccepted
  return { holder with entries := holder.entries.insert checkpoint.sa merged }

/-- A stale withdraw does not destroy a newer generation. -/
def withdraw (holder : InMemoryStandbyHolder) (sa : SaId) (epoch : KeyEpoch) :
    InMemoryStandbyHolder :=
  match holder.entries.find sa with
  | some held =>
    if held.epoch ≤ epoch then { holder with entries := holder.entries.erase sa } else holder
  | none => holder

/-- The evidence for taking over a held entry. -/
def resumeOf (sa : SaId) (held : HeldSa) (params : RepinTakeoverParams)
    (restored : ℕ) : SameSpiResume where
  previousSa := sa
  resumedSa := sa
  checkpointedSendIvNext := held.sendIvNext.val
  restoredSendIvNext := restored
  forwardJump := params.forwardJump
  checkpointHighestAccepted := held.replayHighestAccepted.val
  restoredHighestAccepted := held.replayHighestAccepted.val
  maxReopenedPackets := params.maxReopenedPackets.val

/-- Remove the entry and yield it; a rejected takeover leaves it in custody. -/
def takeForRepin (holder : InMemoryStandbyHolder) (sa : SaId) (params : RepinTakeoverParams) :
    Except SaMirrorError (InMemoryStandbyHolder × LiveMirroredTakeover) := do
  let held ← okOr (holder.entries.find sa) .notFound
  let restored ← okOr (checkedAdd held.sendIvNext.val params.forwardJump.forwardJump.val)
    (.resume (.unsafeResume "send IV counter exhausted during forward-jump; rekey before sending"))
  let resume := resumeOf sa held params restored
  (resume.validateForRepin sa).mapError .resume
  return ({ holder with entries := holder.entries.erase sa }, ⟨held.keymat, held.epoch, resume⟩)

end InMemoryStandbyHolder

end PacketCore.Mirror
