import PacketCore.Library.Loop
import PacketCore.Library.Word

/-!
# Voter slot identities

A fixed quorum has stable slots, and each slot is held by one incarnation after
the other.  Slot and incarnation are packed injectively into the engine's node
number, so that a retired incarnation keeps a number of its own.
-/

namespace PacketCore.VoterSlots

/-- Failure of an incarnation identity or of a durable record. -/
inductive VoterSlotError where
  | invalidSlot
  | invalidIncarnation
  | incarnationExhausted
  | freshInstallationRequired
  | tooLarge
  | invalidRecord
  | regression
deriving DecidableEq

/-- A fixed-width byte string. -/
abbrev Octets (length : ℕ) := List.Vector Byte length

/-- The engine's node number. -/
abbrev ConsensusNodeId := Fin (2 ^ 64)

/-- Largest incarnation whose node number stays positive in 63 bits. -/
def maxVoterIncarnation : ℕ := 2 ^ 47

/-- Stable slot ordinal of the installation manifest. -/
structure SlotId where
  value : ℕ
  positive : 0 < value
  bounded : value < 2 ^ 16
deriving DecidableEq

def SlotId.new (value : Fin (2 ^ 16)) : Except VoterSlotError SlotId :=
  if hvalue : value.val = 0 then .error .invalidSlot
  else .ok ⟨value.val, by omega, value.isLt⟩

/-- Positive configuration epoch. -/
structure ConsensusConfigurationEpoch where
  value : ℕ
  positive : 0 < value
  bounded : value < 2 ^ 64
deriving DecidableEq

/-- Validate a strictly positive epoch. -/
def ConsensusConfigurationEpoch.new (value : Fin (2 ^ 64)) : Option ConsensusConfigurationEpoch :=
  if hvalue : value.val = 0 then none else some ⟨value.val, by omega, value.isLt⟩

/-- Incarnation within a slot; positive and never used again once retired. -/
structure VoterIncarnation where
  value : ℕ
  positive : 0 < value
  bounded : value ≤ maxVoterIncarnation
deriving DecidableEq

namespace VoterIncarnation

def new (value : ℕ) : Except VoterSlotError VoterIncarnation :=
  if hvalue : 0 < value ∧ value ≤ maxVoterIncarnation then .ok ⟨value, hvalue.1, hvalue.2⟩
  else .error .invalidIncarnation

/-- The next incarnation, refused at the end of the domain. -/
def next (incarnation : VoterIncarnation) : Except VoterSlotError VoterIncarnation :=
  if hlast : incarnation.value = maxVoterIncarnation then .error .incarnationExhausted
  else .ok ⟨incarnation.value + 1, by omega, by have := incarnation.bounded; omega⟩

theorem next_eq_ok {incarnation next : VoterIncarnation}
    (hnext : incarnation.next = .ok next) : next.value = incarnation.value + 1 := by
  unfold VoterIncarnation.next at hnext
  split at hnext
  · cases hnext
  · cases hnext
    rfl

end VoterIncarnation

/-- Incarnation-qualified identity. -/
structure VoterSlotIdentity where
  slot : SlotId
  incarnation : VoterIncarnation
deriving DecidableEq

namespace VoterSlotIdentity

def nodeId (identity : VoterSlotIdentity) : ConsensusNodeId :=
  Fin.ofNat (2 ^ 64) ((identity.incarnation.value - 1) <<< 16 ||| identity.slot.value)

def fromNodeId (node : ConsensusNodeId) : Except VoterSlotError VoterSlotIdentity := do
  let slot ← SlotId.new (Fin.ofNat (2 ^ 16) (node.val &&& 0xffff))
  let incarnation ← VoterIncarnation.new ((node.val >>> 16) + 1)
  return ⟨slot, incarnation⟩

theorem nodeId_val (identity : VoterSlotIdentity) :
    identity.nodeId.val = (identity.incarnation.value - 1) * 2 ^ 16 + identity.slot.value := by
  have hslot := identity.slot.bounded
  have hincarnation := identity.incarnation.bounded
  have hor : (identity.incarnation.value - 1) <<< 16 ||| identity.slot.value =
      (identity.incarnation.value - 1) * 2 ^ 16 + identity.slot.value := by
    rw [← Nat.shiftLeft_add_eq_or_of_lt hslot, Nat.shiftLeft_eq]
  unfold maxVoterIncarnation at hincarnation
  unfold nodeId
  rw [hor]
  exact Nat.mod_eq_of_lt (by omega)

/-- The node number gives back the identity it was made from. -/
theorem fromNodeId_nodeId (identity : VoterSlotIdentity) :
    fromNodeId identity.nodeId = .ok identity := by
  obtain ⟨⟨slot, hslot, hslotBound⟩, ⟨incarnation, hincarnation, hbound⟩⟩ := identity
  have hval := nodeId_val ⟨⟨slot, hslot, hslotBound⟩, ⟨incarnation, hincarnation, hbound⟩⟩
  set number := (incarnation - 1) * 2 ^ 16 + slot with hnumber
  have hlow : (Fin.ofNat (2 ^ 16) (number &&& 0xffff)).val = slot := by
    have hmask : number &&& 0xffff = number % 2 ^ 16 := Nat.and_two_pow_sub_one_eq_mod _ 16
    rw [Fin.val_ofNat]
    omega
  have hhigh : number >>> 16 + 1 = incarnation := by
    omega
  have hslotNew : SlotId.new (Fin.ofNat (2 ^ 16) (number &&& 0xffff)) =
      .ok ⟨slot, hslot, hslotBound⟩ := by
    unfold SlotId.new
    rw [dif_neg (by rw [hlow]; omega)]
    simp only [hlow]
  have hincarnationNew : VoterIncarnation.new incarnation =
      .ok ⟨incarnation, hincarnation, hbound⟩ :=
    dif_pos ⟨hincarnation, hbound⟩
  unfold fromNodeId
  rw [hval, hslotNew, hhigh, hincarnationNew]
  rfl

end VoterSlotIdentity

end PacketCore.VoterSlots
