import Mathlib

/-!
# Registers and bytes

Checked arithmetic of unsigned 64-bit registers, and the fixed-width
big-endian form a counter takes on the wire.
-/

namespace PacketCore

abbrev Byte := Fin 256

/-! The sizes of the registers in use are not zero. -/

instance neZeroWord (width : ℕ) : NeZero (256 ^ width) := ⟨pow_ne_zero _ (by decide)⟩

instance neZeroWord1 : NeZero (256 ^ 1) := ⟨by decide⟩

instance neZeroWord2 : NeZero (256 ^ 2) := ⟨by decide⟩

instance neZeroWord4 : NeZero (256 ^ 4) := ⟨by decide⟩

instance neZeroWord8 : NeZero (256 ^ 8) := ⟨by decide⟩

instance neZeroWord16 : NeZero (256 ^ 16) := ⟨by decide⟩

instance neZeroU16 : NeZero (2 ^ 16) := ⟨by decide⟩

instance neZeroU32 : NeZero (2 ^ 32) := ⟨by decide⟩

instance neZeroU64 : NeZero (2 ^ 64) := ⟨by decide⟩

instance neZero8 : NeZero 8 := ⟨by decide⟩

instance neZero9 : NeZero 9 := ⟨by decide⟩

instance neZero16 : NeZero 16 := ⟨by decide⟩

instance neZero256 : NeZero 256 := ⟨by decide⟩

/-- Addition in an unsigned 64-bit register, refused on overflow. -/
def checkedAdd (value amount : ℕ) : Option ℕ :=
  if value + amount < 2 ^ 64 then some (value + amount) else none

theorem checkedAdd_eq_some {value amount result : ℕ}
    (hadd : checkedAdd value amount = some result) : result = value + amount := by
  unfold checkedAdd at hadd
  split at hadd <;> simp_all

/-- Subtraction in an unsigned register, refused on underflow. -/
def checkedSub (value amount : ℕ) : Option ℕ :=
  if amount ≤ value then some (value - amount) else none

/-- Multiplication in an unsigned 64-bit register, refused on overflow. -/
def checkedMul (value factor : ℕ) : Option ℕ :=
  if value * factor < 2 ^ 64 then some (value * factor) else none

/-- Addition in an unsigned 64-bit register that stops at its largest value. -/
def saturatingAdd (value amount : ℕ) : ℕ := min (value + amount) (2 ^ 64 - 1)

theorem saturatingAdd_eq {value amount : ℕ} (hbound : value + amount < 2 ^ 64) :
    saturatingAdd value amount = value + amount := by
  unfold saturatingAdd
  omega

/-- The low `width` bytes of a value, most significant first. -/
def bigEndian : ℕ → ℕ → List Byte
  | 0, _ => []
  | width + 1, value => bigEndian width (value / 256) ++ [Fin.ofNat 256 value]

theorem length_bigEndian (width value : ℕ) : (bigEndian width value).length = width := by
  induction width generalizing value with
  | zero => rfl
  | succ _ ih => simp [bigEndian, ih]

/-- The value of big-endian bytes. -/
def fromBigEndian (bytes : List Byte) : ℕ :=
  bytes.foldl (fun value byte => value * 256 + byte.val) 0

theorem fromBigEndian_bigEndian {width value : ℕ} (hvalue : value < 256 ^ width) :
    fromBigEndian (bigEndian width value) = value := by
  induction width generalizing value with
  | zero =>
    have hzero : value = 0 := by simpa using hvalue
    simp [bigEndian, fromBigEndian, hzero]
  | succ width ih =>
    have hhigh := ih (Nat.div_lt_of_lt_mul (show value < 256 * 256 ^ width by omega))
    unfold fromBigEndian at hhigh ⊢
    rw [bigEndian, List.foldl_append]
    simp only [List.foldl_cons, List.foldl_nil, Fin.val_ofNat]
    omega

/-- Values that fit the width are told apart by their bytes. -/
theorem bigEndian_injective {width left right : ℕ} (hleft : left < 256 ^ width)
    (hright : right < 256 ^ width)
    (hbytes : bigEndian width left = bigEndian width right) : left = right := by
  rw [← fromBigEndian_bigEndian hleft, hbytes, fromBigEndian_bigEndian hright]

theorem fromBigEndian_concat (bytes : List Byte) (byte : Byte) :
    fromBigEndian (bytes ++ [byte]) = fromBigEndian bytes * 256 + byte.val := by
  simp [fromBigEndian, List.foldl_append]

theorem fromBigEndian_lt (bytes : List Byte) : fromBigEndian bytes < 256 ^ bytes.length := by
  induction bytes using List.reverseRecOn with
  | nil => simp [fromBigEndian]
  | append_singleton =>
    rw [fromBigEndian_concat, List.length_append, List.length_singleton]
    omega

/-- Bytes are the big-endian form of their value. -/
theorem bigEndian_fromBigEndian (bytes : List Byte) :
    bigEndian bytes.length (fromBigEndian bytes) = bytes := by
  induction bytes using List.reverseRecOn with
  | nil => rfl
  | append_singleton bytes byte =>
    have hquotient : (fromBigEndian bytes * 256 + byte.val) / 256 = fromBigEndian bytes := by
      omega
    rw [fromBigEndian_concat, List.length_append, List.length_singleton, bigEndian, hquotient]
    congr 2
    apply Fin.ext
    simp only [Fin.val_ofNat]
    omega

/-- The value tells byte strings of one length apart. -/
theorem fromBigEndian_injective {left right : List Byte} (hlength : left.length = right.length)
    (heq : fromBigEndian left = fromBigEndian right) : left = right := by
  rw [← bigEndian_fromBigEndian left, ← bigEndian_fromBigEndian right, hlength, heq]

/-- An unsigned register of `width` bytes. -/
abbrev Word (width : ℕ) := Fin (256 ^ width)

namespace Word

variable {width : ℕ}

/-- The register that holds these bytes, most significant first. -/
def ofBytes (width : ℕ) (bytes : List Byte) : Word width :=
  Fin.ofNat (256 ^ width) (fromBigEndian bytes)

def bytes (word : Word width) : List Byte :=
  bigEndian width word.val

@[simp]
theorem length_bytes (word : Word width) : word.bytes.length = width :=
  length_bigEndian _ _

@[simp]
theorem ofBytes_bytes (word : Word width) : ofBytes width word.bytes = word := by
  apply Fin.ext
  rw [ofBytes, bytes, fromBigEndian_bigEndian word.isLt]
  exact Nat.mod_eq_of_lt word.isLt

/-- Bytes of the register's width are not changed by it. -/
theorem bytes_ofBytes {bytes : List Byte} (hlength : bytes.length = width) :
    (ofBytes width bytes).bytes = bytes := by
  subst hlength
  have hvalue : (ofBytes bytes.length bytes).val = fromBigEndian bytes :=
    Nat.mod_eq_of_lt (fromBigEndian_lt _)
  rw [Word.bytes, hvalue, bigEndian_fromBigEndian]

end Word

/-- A register that is never zero. -/
abbrev NonZero (width : ℕ) := {word : Word width // 0 < word.val}

/-- The non-zero register with this value. -/
def NonZero.ofNat? (width value : ℕ) : Option (NonZero width) :=
  if hpositive : 0 < (Fin.ofNat (256 ^ width) value).val then some ⟨_, hpositive⟩ else none

def NonZero.bytes {width : ℕ} (word : NonZero width) : List Byte :=
  word.1.bytes

theorem NonZero.ofNat?_val {width : ℕ} (word : NonZero width) :
    NonZero.ofNat? width word.1.val = some word := by
  have hword : Fin.ofNat (256 ^ width) word.1.val = word.1 := Fin.ext (Nat.mod_eq_of_lt word.1.isLt)
  unfold NonZero.ofNat?
  simp only [hword, word.2, dif_pos]

end PacketCore
