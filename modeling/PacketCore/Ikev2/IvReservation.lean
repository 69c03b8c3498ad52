import PacketCore.Library.Run
import PacketCore.Library.Word

/-!
# Durable reservation of AES-GCM IVs

Positions are handed out from blocks whose exclusive end was durably committed
first.  A prepared block is burnt unless its exact record is committed and
activated, and a restart burns everything below the last committed end.  No
position, and so no IV, is ever used twice under one key epoch.
-/

namespace PacketCore.Ikev2

open List

inductive ProtectedPayloadDirection where
  | initiatorToResponder
  | responderToInitiator
deriving DecidableEq

inductive EncryptionAlgorithm where
  | null
  | aesCbc128
  | aesCbc192
  | aesCbc256
  | aesGcm16_128
  | aesGcm16_192
  | aesGcm16_256
  | aesCcm8_128
  | aesCcm8_192
  | aesCcm8_256
  | chaCha20Poly1305
deriving DecidableEq

namespace EncryptionAlgorithm

def isAesGcm16 : EncryptionAlgorithm → Bool
  | aesGcm16_128 | aesGcm16_192 | aesGcm16_256 => true
  | _ => false

/-- Key and salt octets. -/
def keyMaterialLen : EncryptionAlgorithm → ℕ
  | null => 0
  | aesCbc128 => 16
  | aesCbc192 => 24
  | aesCbc256 => 32
  | aesGcm16_128 => 20
  | aesGcm16_192 => 28
  | aesGcm16_256 => 36
  | aesCcm8_128 => 19
  | aesCcm8_192 => 27
  | aesCcm8_256 => 35
  | chaCha20Poly1305 => 36

end EncryptionAlgorithm

/-- The two directional encryption keys of one key epoch. -/
structure SaInitKeyMaterial where
  skEi : List Byte
  skEr : List Byte

/-- Failures of validation, allocation and sealing; `crypto` is the answer of
the admitted sealer. -/
inductive AesGcmIvReservationError where
  | invalidDomain
  | domainMismatch
  | invalidLimits
  | invalidRecord
  | invalidCount
  | activeReservation
  | reservationRequired
  | commitMismatch
  | rekeyRequired
  | exhausted
  | crypto (code : ℕ)

open AesGcmIvReservationError

/-! ## Domains -/

/-- The key epoch an IV belongs to. -/
structure AesGcmIvDomain where
  initiatorSpi : ℕ
  responderSpi : ℕ
  direction : ProtectedPayloadDirection
  encryption : EncryptionAlgorithm
  keyAndSalt : List Byte
deriving DecidableEq

namespace AesGcmIvDomain

def selected (direction : ProtectedPayloadDirection) (keys : SaInitKeyMaterial) : List Byte :=
  match direction with
  | .initiatorToResponder => keys.skEi
  | .responderToInitiator => keys.skEr

/-- Identical directional keys are refused: they would collide at IV zero. -/
def new (initiatorSpi responderSpi : ℕ) (direction : ProtectedPayloadDirection)
    (profile : EncryptionAlgorithm) (keys : SaInitKeyMaterial) :
    Except AesGcmIvReservationError AesGcmIvDomain := do
  refuseIf (initiatorSpi = 0 ∨ responderSpi = 0 ∨ profile.isAesGcm16 = false ∨
    keys.skEi.length ≠ profile.keyMaterialLen ∨
    keys.skEr.length ≠ profile.keyMaterialLen ∨ keys.skEi = keys.skEr) invalidDomain
  return ⟨initiatorSpi, responderSpi, direction, profile, selected direction keys⟩

end AesGcmIvDomain

/-! ## Limits -/

/-- Ceiling on reserved positions per direction key. -/
def aesGcmMaxReservedAllocations : ℕ := 2 ^ 32

/-- Immutable per-key usage limits. -/
structure AesGcmIvLimits where
  hardCeiling : ℕ
  controlReserve : ℕ
  controlBudget : ℕ × ℕ × ℕ
  ceilingLe : hardCeiling ≤ aesGcmMaxReservedAllocations
  reserveLt : controlReserve < hardCeiling
deriving DecidableEq

inductive AesGcmIvPurpose where
  | ordinary
  | control
deriving DecidableEq

variable {purpose : AesGcmIvPurpose} {count : ℕ}

namespace AesGcmIvLimits

def new (hardCeiling controlMessages maxFragments attempts : ℕ) :
    Except AesGcmIvReservationError AesGcmIvLimits := do
  let controlReserve ← okOr ((checkedMul controlMessages maxFragments).bind (checkedMul · attempts))
    invalidLimits
  refuseIf (controlMessages < 2 ∨ maxFragments = 0 ∨ attempts = 0) invalidLimits
  if hbounds : hardCeiling ≤ aesGcmMaxReservedAllocations ∧ controlReserve < hardCeiling then
    return ⟨hardCeiling, controlReserve,
      (controlMessages, maxFragments, attempts), hbounds.1, hbounds.2⟩
  else .error invalidLimits

/-- Exclusive end of ordinary allocations. -/
def softThreshold (limits : AesGcmIvLimits) : ℕ :=
  limits.hardCeiling - limits.controlReserve

def checkPosition (limits : AesGcmIvLimits) (value : ℕ)
    (purpose : AesGcmIvPurpose) : Except AesGcmIvReservationError Unit := do
  refuseIf (limits.hardCeiling ≤ value) exhausted
  refuseIf (purpose = .ordinary ∧ limits.softThreshold ≤ value) rekeyRequired

theorem checkPosition_eq_ok {limits : AesGcmIvLimits} {value : ℕ}
    (hok : limits.checkPosition value purpose = .ok ()) :
    value < limits.hardCeiling ∧ (purpose = .ordinary → value < limits.softThreshold) := by
  obtain ⟨hceiling, hok⟩ := refuseIf_bind hok
  have hsoft := refuseIf_eq_ok.mp hok
  refine ⟨not_le.mp hceiling, fun hordinary => ?_⟩
  exact not_le.mp fun hle => hsoft ⟨hordinary, hle⟩

end AesGcmIvLimits

/-! ## Records and the allocator -/

/-- What is persisted with the keys of the epoch. -/
structure AesGcmIvRecord where
  domain : AesGcmIvDomain
  receive : AesGcmIvDomain
  canonicalFormat : Option ℕ
  limits : AesGcmIvLimits
  exclusiveEnd : ℕ
  endLe : exclusiveEnd ≤ limits.hardCeiling
deriving DecidableEq

/-- The complete immutable inputs of one key epoch. -/
structure AesGcmEpochInputs where
  initiatorSpi : ℕ
  responderSpi : ℕ
  sendingDirection : ProtectedPayloadDirection
  profile : EncryptionAlgorithm
  keys : SaInitKeyMaterial

def ProtectedPayloadDirection.opposite : ProtectedPayloadDirection → ProtectedPayloadDirection
  | .initiatorToResponder => .responderToInitiator
  | .responderToInitiator => .initiatorToResponder

def AesGcmIvRecord.fromPersisted (inputs : AesGcmEpochInputs)
    (limits : AesGcmIvLimits) (exclusiveEnd : ℕ) (canonicalFormat : Option ℕ) :
    Except AesGcmIvReservationError AesGcmIvRecord :=
  if hend : exclusiveEnd ≤ limits.hardCeiling then do
    let domain ← AesGcmIvDomain.new inputs.initiatorSpi inputs.responderSpi
      inputs.sendingDirection inputs.profile inputs.keys
    let receive ← AesGcmIvDomain.new inputs.initiatorSpi inputs.responderSpi
      inputs.sendingDirection.opposite inputs.profile inputs.keys
    return ⟨domain, receive, canonicalFormat, limits, exclusiveEnd, hend⟩
  else .error invalidRecord

/-- The single-writer allocator: `next` is the first free position of the
active block, which ends at `end_`. -/
structure AesGcmIvAllocator where
  domain : AesGcmIvDomain
  receive : AesGcmIvDomain
  canonicalFormat : Option ℕ
  limits : AesGcmIvLimits
  next : ℕ
  end_ : ℕ
  nextLe : next ≤ end_
  endLe : end_ ≤ limits.hardCeiling

/-- A block that was proposed and not yet acknowledged; it borrows its
allocator, whose cursor stands at the burnt end. -/
structure AesGcmPreparedIvReservation where
  allocator : AesGcmIvAllocator
  start : ℕ
  record : AesGcmIvRecord
  startLe : start ≤ allocator.end_

/-- One position, bound to its domain and consumed by one seal. -/
structure AesGcmIvAllocation where
  domain : AesGcmIvDomain
  value : ℕ

/-- The frozen canonical reply recipe. -/
def canonicalV1 : ℕ := 1

namespace AesGcmIvAllocator

def fresh (inputs : AesGcmEpochInputs) (limits : AesGcmIvLimits) :
    Except AesGcmIvReservationError AesGcmIvAllocator := do
  let record ← AesGcmIvRecord.fromPersisted inputs limits 0 (some canonicalV1)
  return ⟨record.domain, record.receive, record.canonicalFormat, limits, 0, 0,
    le_rfl, Nat.zero_le _⟩

/-- Everything below the persisted end is discarded. -/
def restore (expected : AesGcmIvDomain) (record : AesGcmIvRecord) :
    Except AesGcmIvReservationError AesGcmIvAllocator := do
  refuseIf (expected ≠ record.domain) domainMismatch
  return ⟨record.domain, record.receive, record.canonicalFormat, record.limits,
    record.exclusiveEnd, record.exclusiveEnd, le_rfl, record.endLe⟩

/-- The allocator with its cursor and end at one position. -/
def burnt (allocator : AesGcmIvAllocator) (position : ℕ)
    (hposition : position ≤ allocator.limits.hardCeiling) : AesGcmIvAllocator :=
  { allocator with next := position, end_ := position, nextLe := le_rfl, endLe := hposition }

/-- Propose a block; the proposed range is burnt until it is activated. -/
def prepare (allocator : AesGcmIvAllocator) (count : ℕ) (purpose : AesGcmIvPurpose) :
    Except AesGcmIvReservationError AesGcmPreparedIvReservation := do
  refuseIf (count = 0) invalidCount
  refuseIf (allocator.next ≠ allocator.end_) activeReservation
  allocator.limits.checkPosition allocator.end_ purpose
  let end_ ← okOr (checkedAdd allocator.end_ count) exhausted
  allocator.limits.checkPosition (end_ - 1) purpose
  -- The ceiling once more, now as the bounds the new values carry.
  if hend : allocator.end_ ≤ end_ ∧ end_ ≤ allocator.limits.hardCeiling then
    return ⟨allocator.burnt end_ hend.2, allocator.end_, ⟨allocator.domain,
      allocator.receive, allocator.canonicalFormat, allocator.limits, end_, hend.2⟩, hend.1⟩
  else .error exhausted

/-- Consume one committed position. -/
def allocate (allocator : AesGcmIvAllocator) (purpose : AesGcmIvPurpose) :
    Except AesGcmIvReservationError (AesGcmIvAllocator × AesGcmIvAllocation) := do
  allocator.limits.checkPosition allocator.next purpose
  if hfree : allocator.next = allocator.end_ then .error reservationRequired
  else
    return ({ allocator with
      next := allocator.next + 1
      nextLe := lt_of_le_of_ne allocator.nextLe hfree },
      ⟨allocator.domain, allocator.next⟩)

end AesGcmIvAllocator

/-- Release a prepared block after its exact record was committed. -/
def AesGcmPreparedIvReservation.activateAfterCommit (token : AesGcmPreparedIvReservation)
    (committed : AesGcmIvRecord) : Except AesGcmIvReservationError AesGcmIvAllocator := do
  refuseIf (committed ≠ token.record) commitMismatch
  return { token.allocator with next := token.start, nextLe := token.startLe }

namespace AesGcmIvAllocation

/-- The header of the message a seal is for: SPIs and the initiator flag. -/
def matchesHeader (domain : AesGcmIvDomain) (messagePrefix : List Byte) : Bool :=
  decide (messagePrefix.take 8 = bigEndian 8 domain.initiatorSpi) &&
    decide ((messagePrefix.drop 8).take 8 = bigEndian 8 domain.responderSpi) &&
    decide (messagePrefix[19]?.map (fun flags => decide (flags.val / 8 % 2 = 1)) =
      some (decide (domain.direction = .initiatorToResponder)))

/-- The checks of `seal`; what passes is sealed under the position's own
eight octets. -/
def sealIv (allocation : AesGcmIvAllocation) (profile : EncryptionAlgorithm)
    (keys : SaInitKeyMaterial) (messagePrefix : List Byte) :
    Except AesGcmIvReservationError (List Byte) := do
  let expected := allocation.domain
  let actual ← (AesGcmIvDomain.new expected.initiatorSpi expected.responderSpi
    expected.direction profile keys).mapError fun _ => domainMismatch
  refuseIf (actual ≠ expected ∨ matchesHeader expected messagePrefix = false) domainMismatch
  return bigEndian 8 allocation.value

/-- `seal`, over the admitted sealer. -/
def sealWith (sealer : EncryptionAlgorithm → SaInitKeyMaterial → ProtectedPayloadDirection →
      List Byte → List Byte → ℕ → List Byte → Except ℕ (List Byte))
    (allocation : AesGcmIvAllocation) (profile : EncryptionAlgorithm) (keys : SaInitKeyMaterial)
    (messagePrefix cleartextPayloads : List Byte) (paddingLen : ℕ) :
    Except AesGcmIvReservationError (List Byte) := do
  let iv ← allocation.sealIv profile keys messagePrefix
  (sealer profile keys allocation.domain.direction messagePrefix cleartextPayloads paddingLen
    iv).mapError crypto

end AesGcmIvAllocation

/-! ## One key epoch -/

/-- What the writer of the epoch holds. -/
inductive Writer where
  | idle (allocator : AesGcmIvAllocator)
  | prepared (token : AesGcmPreparedIvReservation)
  | allocated (allocator : AesGcmIvAllocator) (allocation : AesGcmIvAllocation)
  | down

/-- The position the writer still holds. -/
def Writer.held? : Writer → Option AesGcmIvAllocation
  | .allocated _ allocation => some allocation
  | .idle _ | .prepared _ | .down => none

/-- One position handed out, with the number of records committed before. -/
structure Handed where
  position : ℕ
  purpose : AesGcmIvPurpose
  committedBefore : ℕ

/-- The writer, the durable store and the history of one key epoch.
`proposed` are the records ever prepared: a write may land late. -/
structure Epoch where
  writer : Writer
  proposed : List AesGcmIvRecord
  committed : List AesGcmIvRecord
  durable : Option AesGcmIvRecord
  handed : List Handed
  sealed : List (List Byte)

inductive EpochInput where
  | prepare (count : ℕ) (purpose : AesGcmIvPurpose)
  | commit (record : AesGcmIvRecord)
  | activate (committed : AesGcmIvRecord)
  | dropPrepared
  | allocate (purpose : AesGcmIvPurpose)
  | sealAllocated (profile : EncryptionAlgorithm) (keys : SaInitKeyMaterial)
      (messagePrefix : List Byte)
  | dropAllocated
  | crash
  | restore (expected : AesGcmIvDomain)

variable {allocation : AesGcmIvAllocation} {allocator moved : AesGcmIvAllocator}
  {record : AesGcmIvRecord} {token : AesGcmPreparedIvReservation}

namespace Epoch

def start (allocator : AesGcmIvAllocator) : Epoch :=
  ⟨.idle allocator, [], [], none, [], []⟩

/-- The store never goes back: a landing write is not older than the record it
replaces. -/
def lands (epoch : Epoch) (record : AesGcmIvRecord) : Prop :=
  record ∈ epoch.proposed ∧ epoch.durable.all (·.exclusiveEnd ≤ record.exclusiveEnd) = true

instance (epoch : Epoch) (record : AesGcmIvRecord) : Decidable (epoch.lands record) :=
  inferInstanceAs (Decidable (_ ∧ _))

/-- One step; an input the owner of the writer cannot issue in this state is
an error. -/
def step (epoch : Epoch) (input : EpochInput) : Except Unit Epoch :=
  match input, epoch.writer with
  | .prepare count purpose, .idle allocator =>
    match allocator.prepare count purpose with
    | .ok token => .ok { epoch with
        writer := .prepared token, proposed := epoch.proposed ++ [token.record] }
    | .error _ => .ok epoch
  | .commit record, _ =>
    if epoch.lands record then
      .ok { epoch with durable := some record, committed := epoch.committed ++ [record] }
    else .error ()
  | .activate committed, .prepared token =>
    if committed ∈ epoch.committed then
      match token.activateAfterCommit committed with
      | .ok allocator => .ok { epoch with writer := .idle allocator }
      | .error _ => .ok { epoch with writer := .idle token.allocator }
    else .error ()
  | .dropPrepared, .prepared token => .ok { epoch with writer := .idle token.allocator }
  | .allocate purpose, .idle allocator =>
    match allocator.allocate purpose with
    | .ok (next, allocation) => .ok { epoch with
        writer := .allocated next allocation
        handed := epoch.handed ++ [⟨allocation.value, purpose, epoch.committed.length⟩] }
    | .error _ => .ok epoch
  | .sealAllocated profile keys messagePrefix, .allocated allocator allocation =>
    match allocation.sealIv profile keys messagePrefix with
    | .ok iv => .ok { epoch with writer := .idle allocator, sealed := epoch.sealed ++ [iv] }
    | .error _ => .ok { epoch with writer := .idle allocator }
  | .dropAllocated, .allocated allocator _ => .ok { epoch with writer := .idle allocator }
  | .crash, _ => .ok { epoch with writer := .down }
  | .restore expected, .down =>
    match epoch.durable with
    | some record =>
      match AesGcmIvAllocator.restore expected record with
      | .ok allocator => .ok { epoch with writer := .idle allocator }
      | .error _ => .ok epoch
    | none => .error ()
  | _, _ => .error ()

/-! ## Invariant -/

/-- An allocator the writer may draw from: everything handed out lies below
its cursor, and an open block lies under the durable end. -/
structure Ready (limits : AesGcmIvLimits) (history : List Handed)
    (durable : Option AesGcmIvRecord) (allocator : AesGcmIvAllocator) : Prop where
  limits_eq : allocator.limits = limits
  above : ∀ handed ∈ history, handed.position < allocator.next
  backed : allocator.next ≠ allocator.end_ →
    ∃ record, durable = some record ∧ allocator.end_ ≤ record.exclusiveEnd

/-- What the writer holds agrees with the history. -/
def WriterOk (limits : AesGcmIvLimits) (epoch : Epoch) : Prop :=
  match epoch.writer with
  | .idle allocator => Ready limits epoch.handed epoch.durable allocator
  | .prepared token =>
    token.allocator.limits = limits ∧ token.allocator.next = token.allocator.end_ ∧
      token.record.exclusiveEnd = token.allocator.end_ ∧
      ∀ handed ∈ epoch.handed, handed.position < token.start
  | .allocated allocator allocation =>
    Ready limits epoch.handed epoch.durable allocator ∧
      allocation.value ∈ epoch.handed.map Handed.position
  | .down => True

/-- The positions behind the IVs given to the sealer, in order; the one still
held comes after all of them. -/
def SealedBy (epoch : Epoch) (used : List ℕ) : Prop :=
  epoch.sealed = used.map (bigEndian 8) ∧ used.Pairwise (· < ·) ∧
    (∀ position ∈ used, position ∈ epoch.handed.map Handed.position) ∧
    ∀ allocation, epoch.writer.held? = some allocation →
      ∀ position ∈ used, position < allocation.value

/-- What holds of an epoch after every step. -/
structure Safe (limits : AesGcmIvLimits) (epoch : Epoch) : Prop where
  proposed : ∀ record ∈ epoch.proposed, record.limits = limits
  committed : ∀ record ∈ epoch.committed, record ∈ epoch.proposed ∧
    ∃ newest, epoch.durable = some newest ∧ record.exclusiveEnd ≤ newest.exclusiveEnd
  durable : ∀ newest, epoch.durable = some newest → newest ∈ epoch.committed
  ascending : (epoch.handed.map Handed.position).Pairwise (· < ·)
  fits : ∀ handed ∈ epoch.handed, handed.position < limits.hardCeiling ∧
    (handed.purpose = .ordinary → handed.position < limits.softThreshold) ∧
    ∃ record ∈ epoch.committed.take handed.committedBefore, handed.position < record.exclusiveEnd
  sealed : ∃ used, epoch.SealedBy used
  writer : epoch.WriterOk limits

section Steps

variable {limits : AesGcmIvLimits} {epoch next : Epoch}

/-- Every position handed out lies under the durable end. -/
theorem Safe.under (hsafe : epoch.Safe limits) {handed : Handed} (hmem : handed ∈ epoch.handed) :
    ∃ newest, epoch.durable = some newest ∧ handed.position < newest.exclusiveEnd := by
  obtain ⟨-, -, _, hrecord, hbelow⟩ := hsafe.fits handed hmem
  obtain ⟨-, newest, hnewest, hle⟩ := hsafe.committed _ (mem_of_mem_take hrecord)
  exact ⟨newest, hnewest, hbelow.trans_le hle⟩

theorem Safe.ready (hsafe : epoch.Safe limits) (hidle : epoch.writer = .idle allocator) :
    Ready limits epoch.handed epoch.durable allocator := by
  have hwriter := hsafe.writer
  simpa only [WriterOk, hidle] using hwriter

/-- A step that moves only the writer, and does not hand out a position. -/
theorem Safe.rewrite (hsafe : epoch.Safe limits) {writer : Writer}
    (hwriter : WriterOk limits { epoch with writer := writer })
    (hheld : writer.held? = none) : Safe limits { epoch with writer := writer } := by
  obtain ⟨used, hsealed, hsorted, hused, -⟩ := hsafe.sealed
  refine ⟨hsafe.proposed, hsafe.committed, hsafe.durable, hsafe.ascending,
    hsafe.fits, ⟨used, hsealed, hsorted, hused, ?_⟩, hwriter⟩
  intro _ hsome
  cases hheld.symm.trans hsome

/-- What `prepare` proposes: the next block, with the cursor burnt to its
end. -/
theorem prepare_eq_ok (hok : allocator.prepare count purpose = .ok token) :
    allocator.next = allocator.end_ ∧ token.start = allocator.end_ ∧
      token.allocator.limits = allocator.limits ∧ token.record.limits = allocator.limits ∧
      token.allocator.next = token.allocator.end_ ∧
      token.record.exclusiveEnd = token.allocator.end_ := by
  obtain ⟨_, -, hok⟩ := bind_eq_ok hok
  obtain ⟨hclosed, hok⟩ := refuseIf_bind hok
  obtain ⟨_, -, hok⟩ := bind_eq_ok hok
  obtain ⟨end_, -, hok⟩ := bind_eq_ok hok
  obtain ⟨_, -, hok⟩ := bind_eq_ok hok
  split at hok
  · cases hok
    exact ⟨not_not.mp hclosed, rfl, rfl, rfl, rfl, rfl⟩
  · cases hok

section

variable (hsafe : epoch.Safe limits)
include hsafe

theorem Safe.prepare (hidle : epoch.writer = .idle allocator)
    (hok : allocator.prepare count purpose = .ok token) :
    Safe limits { epoch with
      writer := .prepared token, proposed := epoch.proposed ++ [token.record] } := by
  have hready := hsafe.ready hidle
  obtain ⟨hclosed, hstart, hlimits, hrecord, hburnt, hend⟩ := prepare_eq_ok hok
  obtain ⟨used, hsealed, hsorted, hused, -⟩ := hsafe.sealed
  refine ⟨?_, ?_, hsafe.durable, hsafe.ascending, hsafe.fits,
    ⟨used, hsealed, hsorted, hused, nofun⟩, ?_⟩
  · rw [forall_mem_append, forall_mem_singleton]
    exact ⟨hsafe.proposed, hrecord.trans hready.limits_eq⟩
  · intro record hmem
    exact (hsafe.committed _ hmem).imp_left (mem_append_left _)
  · refine ⟨hlimits.trans hready.limits_eq, hburnt, hend, fun handed hmem => ?_⟩
    rw [hstart, ← hclosed]
    exact hready.above handed hmem

/-- A landing write moves the durable end up. -/
theorem Safe.commit (hlands : epoch.lands record) :
    Safe limits { epoch with
      durable := some record, committed := epoch.committed ++ [record] } := by
  obtain ⟨hproposed, hnewer⟩ := hlands
  have hraise : ∀ bound newest, epoch.durable = some newest →
      bound ≤ newest.exclusiveEnd → bound ≤ record.exclusiveEnd := by
    intro bound newest hnewest hbound
    rw [hnewest] at hnewer
    exact hbound.trans (by simpa using hnewer)
  have hready : ∀ allocator, Ready limits epoch.handed epoch.durable allocator →
      Ready limits epoch.handed (some record) allocator := by
    intro allocator hready
    refine ⟨hready.limits_eq, hready.above, fun hopen => ?_⟩
    obtain ⟨newest, hnewest, hle⟩ := hready.backed hopen
    exact ⟨record, rfl, hraise _ _ hnewest hle⟩
  refine ⟨hsafe.proposed, ?_, ?_, hsafe.ascending, ?_, hsafe.sealed, ?_⟩
  · rw [forall_mem_append, forall_mem_singleton]
    refine ⟨fun earlier hmem => ?_, hproposed, record, rfl, le_rfl⟩
    obtain ⟨hearlier, newest, hnewest, hle⟩ := hsafe.committed _ hmem
    exact ⟨hearlier, record, rfl, hraise _ _ hnewest hle⟩
  · rintro newest ⟨rfl⟩
    exact mem_append_right _ (mem_singleton_self _)
  · intro handed hmem
    obtain ⟨hceiling, hsoft, earlier, hearlier, hbelow⟩ := hsafe.fits handed hmem
    refine ⟨hceiling, hsoft, earlier, ?_, hbelow⟩
    exact ((prefix_append _ _).take _).subset hearlier
  · have hwriter := hsafe.writer
    cases hcase : epoch.writer <;> simp only [WriterOk, hcase] at hwriter ⊢
    case idle allocator => exact hready _ hwriter
    case prepared token => exact hwriter
    case allocated allocator allocation => exact ⟨hready _ hwriter.1, hwriter.2⟩

/-- Activation opens the block of a committed record, at its start. -/
theorem Safe.activate (hprepared : epoch.writer = .prepared token)
    {committed : AesGcmIvRecord} (hcommitted : committed ∈ epoch.committed)
    (hok : token.activateAfterCommit committed = .ok allocator) :
    Safe limits { epoch with writer := .idle allocator } := by
  obtain ⟨hexact, hok⟩ := refuseIf_bind hok
  cases hok
  obtain rfl : committed = token.record := not_not.mp hexact
  have hwriter := hsafe.writer
  simp only [WriterOk, hprepared] at hwriter
  obtain ⟨hlimits, -, hend, habove⟩ := hwriter
  obtain ⟨-, newest, hnewest, hle⟩ := hsafe.committed _ hcommitted
  exact hsafe.rewrite ⟨hlimits, habove, fun _ => ⟨newest, hnewest, hend ▸ hle⟩⟩ rfl

/-- Dropping a prepared block leaves its range burnt. -/
theorem Safe.burn (hprepared : epoch.writer = .prepared token) :
    Safe limits { epoch with writer := .idle token.allocator } := by
  have hwriter := hsafe.writer
  simp only [WriterOk, hprepared] at hwriter
  obtain ⟨hlimits, hburnt, -, habove⟩ := hwriter
  refine hsafe.rewrite ⟨hlimits, fun handed hmem => ?_, fun hopen => absurd hburnt hopen⟩ rfl
  rw [hburnt]
  exact (habove handed hmem).trans_le token.startLe

end

/-- What `allocate` hands out: the cursor, which then moves on. -/
theorem allocate_eq_ok (hok : allocator.allocate purpose = .ok (moved, allocation)) :
    allocator.next < allocator.limits.hardCeiling ∧
      (purpose = .ordinary → allocator.next < allocator.limits.softThreshold) ∧
      allocator.next ≠ allocator.end_ ∧ allocation.value = allocator.next ∧
      moved.limits = allocator.limits ∧ moved.next = allocator.next + 1 ∧
      moved.end_ = allocator.end_ := by
  obtain ⟨_, hposition, hok⟩ := bind_eq_ok hok
  obtain ⟨hceiling, hsoft⟩ := AesGcmIvLimits.checkPosition_eq_ok hposition
  split at hok
  · cases hok
  · next hopen =>
    cases hok
    exact ⟨hceiling, hsoft, hopen, rfl, rfl, rfl, rfl⟩

section

variable (hsafe : epoch.Safe limits)
include hsafe

theorem Safe.allocate (hidle : epoch.writer = .idle allocator)
    (hok : allocator.allocate purpose = .ok (moved, allocation)) :
    Safe limits { epoch with
      writer := .allocated moved allocation
      handed := epoch.handed ++ [⟨allocation.value, purpose, epoch.committed.length⟩] } := by
  have hready := hsafe.ready hidle
  obtain ⟨hceiling, hsoft, hopen, hvalue, hlimits, hnext, hend⟩ := allocate_eq_ok hok
  obtain ⟨newest, hnewest, hle⟩ := hready.backed hopen
  have hbelow : allocation.value < newest.exclusiveEnd := by
    have hfree := lt_of_le_of_ne allocator.nextLe hopen
    omega
  obtain ⟨used, hsealed, hsorted, hused, -⟩ := hsafe.sealed
  have habove : ∀ position ∈ epoch.handed.map Handed.position, position < allocation.value := by
    intro position hmem
    obtain ⟨handed, hhanded, rfl⟩ := mem_map.mp hmem
    exact hvalue ▸ hready.above handed hhanded
  refine ⟨hsafe.proposed, hsafe.committed, hsafe.durable, ?_, ?_,
    ⟨used, hsealed, hsorted, ?_, ?_⟩, ⟨?_, ?_, ?_⟩, ?_⟩
  · rw [map_append, pairwise_append]
    refine ⟨hsafe.ascending, by simp, fun position hposition last hlast => ?_⟩
    rw [mem_singleton.mp hlast]
    exact habove _ hposition
  · rw [forall_mem_append, forall_mem_singleton, hvalue, take_length, ← hready.limits_eq]
    exact ⟨hready.limits_eq ▸ hsafe.fits, hceiling, hsoft, newest,
      hsafe.durable _ hnewest, hvalue ▸ hbelow⟩
  · intro position hposition
    rw [map_append]
    exact mem_append_left _ (hused _ hposition)
  · rintro _ ⟨rfl⟩ position hposition
    exact habove _ (hused _ hposition)
  · exact hlimits.trans hready.limits_eq
  · rw [forall_mem_append, forall_mem_singleton, hnext, hvalue]
    exact ⟨fun handed hmem => (hready.above handed hmem).trans
      (Nat.lt_succ_self _), Nat.lt_succ_self _⟩
  · exact fun _ => ⟨newest, hnewest, hend ▸ hle⟩
  · simp

/-- Sealing consumes the held position. -/
theorem Safe.sealAllocated (hheld : epoch.writer = .allocated allocator allocation) :
    Safe limits { epoch with
      writer := .idle allocator, sealed := epoch.sealed ++ [bigEndian 8 allocation.value] } := by
  have hwriter := hsafe.writer
  simp only [WriterOk, hheld] at hwriter
  obtain ⟨hready, hmem⟩ := hwriter
  obtain ⟨used, hsealed, hsorted, hused, hbefore⟩ := hsafe.sealed
  refine ⟨hsafe.proposed, hsafe.committed, hsafe.durable, hsafe.ascending,
    hsafe.fits, ⟨used ++ [allocation.value], ?_, ?_, ?_, nofun⟩, hready⟩
  · simp [hsealed]
  · rw [pairwise_append]
    refine ⟨hsorted, by simp, fun position hposition last hlast => ?_⟩
    rw [mem_singleton.mp hlast]
    exact hbefore _ (by rw [hheld]; rfl) _ hposition
  · rw [forall_mem_append, forall_mem_singleton]
    exact ⟨hused, hmem⟩

/-- A held position that is not sealed is lost. -/
theorem Safe.discard (hheld : epoch.writer = .allocated allocator allocation) :
    Safe limits { epoch with writer := .idle allocator } := by
  have hwriter := hsafe.writer
  simp only [WriterOk, hheld] at hwriter
  exact hsafe.rewrite hwriter.1 rfl

/-- A restored writer starts at the durable end. -/
theorem Safe.restore (hdurable : epoch.durable = some record)
    {expected : AesGcmIvDomain} (hok : AesGcmIvAllocator.restore expected record = .ok allocator) :
    Safe limits { epoch with writer := .idle allocator } := by
  obtain ⟨_, -, hok⟩ := bind_eq_ok hok
  cases hok
  have hproposed := (hsafe.committed _ (hsafe.durable _ hdurable)).1
  refine hsafe.rewrite ⟨hsafe.proposed _ hproposed, fun handed hmem => ?_,
    fun hopen => absurd rfl hopen⟩ rfl
  obtain ⟨_, hnewest, hbelow⟩ := hsafe.under hmem
  cases hdurable.symm.trans hnewest
  exact hbelow

theorem Safe.step {input : EpochInput} (hok : epoch.step input = .ok next) : next.Safe limits := by
  unfold Epoch.step at hok
  split at hok
  case h_1 count purpose allocator hidle =>
    split at hok
    · next token hprepare =>
      exact Except.ok.inj hok ▸ hsafe.prepare hidle hprepare
    · exact Except.ok.inj hok ▸ hsafe
  case h_2 record =>
    split at hok
    · next hlands => exact Except.ok.inj hok ▸ hsafe.commit hlands
    · cases hok
  case h_3 committed token hprepared =>
    split at hok
    · next hcommitted =>
      split at hok
      · next allocator hactivate =>
        exact Except.ok.inj hok ▸ hsafe.activate hprepared hcommitted hactivate
      · exact Except.ok.inj hok ▸ hsafe.burn hprepared
    · cases hok
  case h_4 token hprepared => exact Except.ok.inj hok ▸ hsafe.burn hprepared
  case h_5 purpose allocator hidle =>
    split at hok
    · next _ allocation hallocate =>
      exact Except.ok.inj hok ▸ hsafe.allocate hidle hallocate
    · exact Except.ok.inj hok ▸ hsafe
  case h_6 profile keys messagePrefix allocator allocation hheld =>
    split at hok
    · next _ hseal =>
      iterate 2 obtain ⟨_, -, hseal⟩ := bind_eq_ok hseal
      cases hseal
      exact Except.ok.inj hok ▸ hsafe.sealAllocated hheld
    · exact Except.ok.inj hok ▸ hsafe.discard hheld
  case h_7 allocator allocation hheld => exact Except.ok.inj hok ▸ hsafe.discard hheld
  case h_8 => exact Except.ok.inj hok ▸ hsafe.rewrite trivial rfl
  case h_9 expected hdown =>
    split at hok
    · next record hdurable =>
      split at hok
      · next allocator hrestore =>
        exact Except.ok.inj hok ▸ hsafe.restore hdurable hrestore
      · exact Except.ok.inj hok ▸ hsafe
    · cases hok
  case h_10 => cases hok

end

/-- A fresh epoch has handed out nothing. -/
theorem safe_start {inputs : AesGcmEpochInputs}
    (hfresh : AesGcmIvAllocator.fresh inputs limits = .ok allocator) :
    (Epoch.start allocator).Safe limits := by
  obtain ⟨_, -, hfresh⟩ := bind_eq_ok hfresh
  cases hfresh
  refine ⟨by simp [Epoch.start], by simp [Epoch.start], by simp [Epoch.start], .nil,
    by simp [Epoch.start], ⟨[], rfl, .nil, by simp, by simp⟩, rfl, by simp [Epoch.start], ?_⟩
  exact fun hopen => absurd rfl hopen

/-- Eight octets tell every position of an epoch from every other. -/
theorem Safe.sealed_nodup (hsafe : epoch.Safe limits) : epoch.sealed.Nodup := by
  obtain ⟨used, hsealed, hsorted, hused, -⟩ := hsafe.sealed
  have hsmall : ∀ position ∈ used, position < 256 ^ 8 := by
    intro position hposition
    obtain ⟨handed, hmem, rfl⟩ := mem_map.mp (hused _ hposition)
    have hceiling := (hsafe.fits handed hmem).1
    have hle := limits.ceilingLe
    unfold aesGcmMaxReservedAllocations at hle
    omega
  rw [hsealed]
  refine List.Nodup.map_on ?_ (hsorted.imp ne_of_lt)
  intro _ hfirst _ hsecond heq
  exact bigEndian_injective (hsmall _ hfirst) (hsmall _ hsecond) heq

end Steps

/-- No IV is used twice under one key epoch.  Whatever the writer and the
store do, positions are handed out once, each under an end that was committed
before and below its ceiling.  A refused `prepare` leaves the reservation as it
was, above everything handed out.  A refused activation leaves the block burnt:
the cursor stands at its end, past everything handed out and past its start. -/
theorem iv_never_reused {inputs : AesGcmEpochInputs} {limits : AesGcmIvLimits}
    {allocator : AesGcmIvAllocator} {epoch : Epoch}
    (hfresh : AesGcmIvAllocator.fresh inputs limits = .ok allocator)
    (hrun : Leads Epoch.step (Epoch.start allocator) epoch) :
    (epoch.handed.map Handed.position).Nodup ∧ epoch.sealed.Nodup ∧
      (∀ handed ∈ epoch.handed,
        (∃ record ∈ epoch.committed.take handed.committedBefore,
          handed.position < record.exclusiveEnd) ∧
        handed.position < limits.hardCeiling ∧
        (limits.softThreshold ≤ handed.position → handed.purpose ≠ .ordinary)) ∧
      (∀ current count purpose refusal, epoch.writer = .idle current →
        current.prepare count purpose = .error refusal →
        epoch.step (.prepare count purpose) = .ok epoch ∧
        ∀ handed ∈ epoch.handed, handed.position < current.next) ∧
      ∀ token committed refusal, epoch.writer = .prepared token →
        committed ∈ epoch.committed → token.activateAfterCommit committed = .error refusal →
        epoch.step (.activate committed) = .ok { epoch with writer := .idle token.allocator } ∧
        token.allocator.next = token.allocator.end_ ∧ token.start ≤ token.allocator.next ∧
        ∀ handed ∈ epoch.handed, handed.position < token.start := by
  have hsafe : epoch.Safe limits :=
    hrun.invariant (fun _ _ _ hsafe hstep => hsafe.step hstep) (safe_start hfresh)
  refine ⟨hsafe.ascending.imp ne_of_lt, hsafe.sealed_nodup, fun handed hmem => ?_, ?_, ?_⟩
  · obtain ⟨hceiling, hsoft, hbacked⟩ := hsafe.fits handed hmem
    exact ⟨hbacked, hceiling, fun hle hordinary => (hsoft hordinary).not_ge hle⟩
  · intro current count purpose refusal hidle hrefused
    exact ⟨by simp only [Epoch.step, hidle, hrefused], (hsafe.ready hidle).above⟩
  · intro token committed refusal hprepared hcommitted hrefused
    have hwriter := hsafe.writer
    simp only [WriterOk, hprepared] at hwriter
    obtain ⟨-, hburnt, -, habove⟩ := hwriter
    refine ⟨?_, hburnt, hburnt ▸ token.startLe, habove⟩
    simp only [Epoch.step, hprepared, hcommitted, hrefused, if_true]

/-- An epoch with ten positions, four of them for control traffic. -/
def sampleLimits : AesGcmIvLimits := ⟨10, 4, (2, 2, 1), by decide, by decide⟩

def sampleInputs : AesGcmEpochInputs :=
  ⟨1, 2, .initiatorToResponder, .aesGcm16_128, ⟨replicate 20 0, replicate 20 1⟩⟩

def sampleDomain : AesGcmIvDomain :=
  ⟨1, 2, .initiatorToResponder, .aesGcm16_128, replicate 20 0⟩

def sampleRecord (exclusiveEnd : ℕ) (hend : exclusiveEnd ≤ 10) : AesGcmIvRecord :=
  ⟨sampleDomain, ⟨1, 2, .responderToInitiator, .aesGcm16_128, replicate 20 1⟩,
    some canonicalV1, sampleLimits, exclusiveEnd, hend⟩

def sampleAllocator : AesGcmIvAllocator :=
  ⟨sampleDomain, ⟨1, 2, .responderToInitiator, .aesGcm16_128, replicate 20 1⟩,
    some canonicalV1, sampleLimits, 0, 0, le_rfl, Nat.zero_le _⟩

/-- Two positions of the first block, a crash that burns its third, and one
position of the next block. -/
def sampleRun : List EpochInput :=
  [.prepare 3 .ordinary, .commit (sampleRecord 3 (by decide)),
    .activate (sampleRecord 3 (by decide)), .allocate .ordinary, .dropAllocated,
    .allocate .control, .crash, .restore sampleDomain, .prepare 2 .ordinary,
    .commit (sampleRecord 5 (by decide)),
    .activate (sampleRecord 5 (by decide)), .allocate .ordinary]

theorem iv_never_reused_sample :
    ∃ epoch, runInputs Epoch.step sampleRun (Epoch.start sampleAllocator) = .ok epoch ∧
      epoch.handed.map Handed.position = [0, 1, 3] ∧
      (epoch.handed.map Handed.position).Nodup ∧ epoch.sealed.Nodup := by
  have hfresh : AesGcmIvAllocator.fresh sampleInputs sampleLimits = .ok sampleAllocator := rfl
  obtain ⟨epoch, hrun, hpositions⟩ :
      ∃ epoch, runInputs Epoch.step sampleRun (Epoch.start sampleAllocator) = .ok epoch ∧
        epoch.handed.map Handed.position = [0, 1, 3] := ⟨_, rfl, rfl⟩
  obtain ⟨hpositionsNodup, hsealed, -⟩ := iv_never_reused hfresh ⟨sampleRun, hrun⟩
  exact ⟨epoch, hrun, hpositions, hpositionsNodup, hsealed⟩

end Epoch

end PacketCore.Ikev2
