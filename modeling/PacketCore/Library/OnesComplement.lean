import PacketCore.Library.Word

/-!
# One's-complement sums

An accumulator that adds a word of sixteen bits and folds the carry back in
holds a representative of the plain total modulo `2 ^ 16 - 1`.  There are two
representatives of zero; it holds the small one for a total of zero only.
-/

namespace PacketCore.OnesComplement

/-- What the accumulator holds after words of this total. -/
def fold (total : ℕ) : ℕ := if total = 0 then 0 else (total - 1) % 65535 + 1

theorem fold_le (total : ℕ) : fold total ≤ 65535 := by
  unfold fold
  split <;> omega

theorem fold_of_le {total : ℕ} (hle : total ≤ 65535) : fold total = total := by
  unfold fold
  split <;> omega

/-- One addition with its carry. -/
theorem carry_fold {word : ℕ} (total : ℕ) (hword : word ≤ 65535) :
    (fold total + word) % 65536 + (fold total + word) / 65536 = fold (total + word) := by
  unfold fold
  split_ifs <;> omega

/-- The two zeros: a positive total that the modulus divides is held as all ones. -/
theorem fold_eq_ones_iff {total : ℕ} (hpos : 0 < total) :
    fold total = 65535 ↔ total % 65535 = 0 := by
  unfold fold
  split <;> omega

/-- The big-endian words of a byte string; an odd last octet is a high half. -/
def words : List Byte → List ℕ
  | high :: low :: rest => (256 * high.val + low.val) :: words rest
  | [high] => [256 * high.val]
  | [] => []

theorem word_le {bytes : List Byte} : ∀ word ∈ words bytes, word ≤ 65535 := by
  induction bytes using words.induct with
  | case1 _ _ _ ih =>
    rw [words, List.forall_mem_cons]
    exact ⟨by omega, ih⟩
  | case2 =>
    rw [words, List.forall_mem_singleton]
    omega
  | case3 => nofun

theorem words_append {left : List Byte} (right : List Byte) (heven : left.length % 2 = 0) :
    words (left ++ right) = words left ++ words right := by
  induction left using words.induct with
  | case1 _ _ _ ih =>
    rw [List.length_cons, List.length_cons] at heven
    simp [words, ih (by omega)]
  | case2 => simp at heven
  | case3 => rfl

def total (bytes : List Byte) : ℕ := (words bytes).sum

@[simp]
theorem total_append {left : List Byte} (right : List Byte) (heven : left.length % 2 = 0) :
    total (left ++ right) = total left + total right := by
  rw [total, words_append _ heven, List.sum_append]
  rfl

@[simp]
theorem total_bigEndian {word : ℕ} (hword : word ≤ 65535) : total (bigEndian 2 word) = word := by
  simp [total, words, bigEndian]
  omega

end PacketCore.OnesComplement
