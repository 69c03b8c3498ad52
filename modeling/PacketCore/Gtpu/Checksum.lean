import PacketCore.Library.OnesComplement

/-!
# Internet checksums

The checksum is the complement of the one's-complement sum of the 16-bit words,
and a receiver accepts when the words, checksum included, add up to all ones.
The outer headers compute it over segments that need not end on a word.
-/

namespace PacketCore.Gtpu

open OnesComplement List

def addChecksumWord (sum word : ℕ) : ℕ :=
  let expanded := (sum + word) % 2 ^ 32
  expanded % 65536 + expanded / 65536

def addChecksumBytes : ℕ → List Byte → ℕ
  | sum, high :: low :: rest => addChecksumBytes (addChecksumWord sum (256 * high + low)) rest
  | sum, [high] => addChecksumWord sum (256 * high)
  | sum, [] => sum

def addChecksumContiguousSegments (sum : ℕ) (first second : List Byte) : ℕ :=
  if first.length % 2 = 0 then addChecksumBytes (addChecksumBytes sum first) second
  else
    let pairedEnd := first.length - 1
    let sum := addChecksumBytes sum (first.take pairedEnd)
    let last := first.getD pairedEnd 0
    match second with
    | next :: remainder => addChecksumBytes (addChecksumWord sum (256 * last + next)) remainder
    | [] => addChecksumWord sum (256 * last)

def checksumFromSum (sum : ℕ) : ℕ := 65535 - (sum % 65536 + sum / 65536) % 65536

def internetChecksumSumIsValid (sum : ℕ) : Bool :=
  let first := sum % 65536 + sum / 65536
  first % 65536 + first / 65536 = 65535

def internetChecksum (bytes : List Byte) : ℕ := checksumFromSum (addChecksumBytes 0 bytes)

/-- The sum over the IPv4 pseudo-header. -/
def pseudoIpv4 (source destination : List.Vector Byte 4) (length : ℕ) : ℕ :=
  let sum := addChecksumBytes (addChecksumBytes 0 source.toList) destination.toList
  addChecksumWord (addChecksumWord sum 17) length

/-- The sum over the IPv6 pseudo-header. -/
def pseudoIpv6 (source destination : List.Vector Byte 16) (length : ℕ) : ℕ :=
  let sum := addChecksumBytes (addChecksumBytes 0 source.toList) destination.toList
  addChecksumWord (addChecksumWord (addChecksumWord sum (length / 65536)) (length % 65536)) 17

/-- A computed zero is sent as all ones. -/
def transmitted (checksum : ℕ) : ℕ := if checksum = 0 then 65535 else checksum

def udpIpv4Checksum (source destination : List.Vector Byte 4) (udp : List Byte) : Option ℕ :=
  if udp.length ≤ 65535 then
    let sum := addChecksumBytes (pseudoIpv4 source destination udp.length) udp
    some (transmitted (checksumFromSum sum))
  else none

def udpIpv4ChecksumIsValid (source destination : List.Vector Byte 4) (udp : List Byte) : Bool :=
  udp.length ≤ 65535 ∧ 8 ≤ udp.length ∧ (udp.drop 6).take 2 ≠ [0, 0] ∧
    internetChecksumSumIsValid (addChecksumBytes (pseudoIpv4 source destination udp.length) udp)

def udpIpv6ChecksumSegments (source destination : List.Vector Byte 16)
    (udpPrefix payload : List Byte) : Option ℕ :=
  let length := udpPrefix.length + payload.length
  if udpPrefix.length < 8 ∨ (udpPrefix.drop 6).take 2 ≠ [0, 0] ∨ 65535 < length ∨
      length ≠ fromBigEndian ((udpPrefix.drop 4).take 2) then none
  else
    let sum := pseudoIpv6 source destination length
    some (transmitted (checksumFromSum (addChecksumContiguousSegments sum udpPrefix payload)))

def udpIpv6Checksum (source destination : List.Vector Byte 16) (udp : List Byte) : Option ℕ :=
  udpIpv6ChecksumSegments source destination udp []

def udpIpv6ChecksumIsValid (source destination : List.Vector Byte 16) (udp : List Byte) : Bool :=
  8 ≤ udp.length ∧ (udp.drop 6).take 2 ≠ [0, 0] ∧ udp.length ≤ 65535 ∧
    fromBigEndian ((udp.drop 4).take 2) = udp.length ∧
    internetChecksumSumIsValid (addChecksumBytes (pseudoIpv6 source destination udp.length) udp)

/-! ## The sums -/

theorem addChecksumBytes_eq_foldl (sum : ℕ) (bytes : List Byte) :
    addChecksumBytes sum bytes = (words bytes).foldl addChecksumWord sum := by
  induction sum, bytes using addChecksumBytes.induct with
  | case1 _ _ _ _ ih => exact ih
  | case2 => rfl
  | case3 => rfl

theorem addChecksumWord_fold {word : ℕ} (total : ℕ) (hword : word ≤ 65535) :
    addChecksumWord (fold total) word = fold (total + word) := by
  have hle := fold_le total
  rw [addChecksumWord, Nat.mod_eq_of_lt (show fold total + word < 2 ^ 32 by omega)]
  exact carry_fold _ hword

theorem foldl_addChecksumWord {added : List ℕ} (hadded : ∀ word ∈ added, word ≤ 65535)
    (total : ℕ) : added.foldl addChecksumWord (fold total) = fold (total + added.sum) := by
  induction added generalizing total with
  | nil => rfl
  | cons _ _ ih =>
    rw [forall_mem_cons] at hadded
    rw [foldl_cons, addChecksumWord_fold _ hadded.1, ih hadded.2, sum_cons, Nat.add_assoc]

theorem addChecksumBytes_fold (sum : ℕ) (bytes : List Byte) :
    addChecksumBytes (fold sum) bytes = fold (sum + total bytes) := by
  rw [addChecksumBytes_eq_foldl]
  exact foldl_addChecksumWord word_le _

/-- A boundary inside a word makes no difference. -/
theorem addChecksumContiguousSegments_eq (sum : ℕ) (first second : List Byte) :
    addChecksumContiguousSegments sum first second = addChecksumBytes sum (first ++ second) := by
  induction sum, first using addChecksumBytes.induct with
  | case1 _ _ _ rest ih =>
    rw [cons_append, cons_append, addChecksumBytes, ← ih]
    cases rest with
    | nil => simp [addChecksumContiguousSegments, addChecksumBytes]
    | cons _ rest =>
      have hparity : (rest.length + 1 + 1 + 1) % 2 = (rest.length + 1) % 2 := by omega
      simp [addChecksumContiguousSegments, addChecksumBytes, hparity]
  | case2 => cases second <;> simp [addChecksumContiguousSegments, addChecksumBytes]
  | case3 => rfl

theorem pseudoIpv4_eq (source destination : List.Vector Byte 4) {length : ℕ}
    (hlength : length ≤ 65535) : pseudoIpv4 source destination length =
      fold (total source.toList + total destination.toList + 17 + length) := by
  have hstart := addChecksumBytes_fold 0 source.toList
  rw [fold_of_le (Nat.zero_le _), Nat.zero_add] at hstart
  rw [pseudoIpv4, hstart, addChecksumBytes_fold,
    addChecksumWord_fold _ (by omega), addChecksumWord_fold _ hlength]

theorem pseudoIpv6_eq (source destination : List.Vector Byte 16) {length : ℕ}
    (hlength : length ≤ 65535) : pseudoIpv6 source destination length =
      fold (total source.toList + total destination.toList + length + 17) := by
  have hstart := addChecksumBytes_fold 0 source.toList
  rw [fold_of_le (Nat.zero_le _), Nat.zero_add] at hstart
  rw [pseudoIpv6, hstart, addChecksumBytes_fold, Nat.div_eq_of_lt (by omega),
    Nat.mod_eq_of_lt (by omega), addChecksumWord_fold _ (by omega),
    addChecksumWord_fold _ hlength, addChecksumWord_fold _ (by omega)]
  rfl

theorem isValid_fold {sum : ℕ} (hpos : 0 < sum) :
    internetChecksumSumIsValid (fold sum) = true ↔ sum % 65535 = 0 := by
  have hle := fold_le sum
  rw [← fold_eq_ones_iff hpos]
  simp only [internetChecksumSumIsValid, decide_eq_true_eq]
  omega

theorem checksumFromSum_fold (sum : ℕ) : checksumFromSum (fold sum) = 65535 - fold sum := by
  have hle := fold_le sum
  unfold checksumFromSum
  omega

/-! ## Writing and changing a word -/

section Word

variable {before : List Byte} (after : List Byte) {word other : ℕ}

theorem total_word (heven : before.length % 2 = 0) (hword : word ≤ 65535) :
    total (before ++ (bigEndian 2 word ++ after)) = total before + word + total after := by
  rw [total_append _ heven, total_append _ (by rw [length_bigEndian]),
    total_bigEndian hword, Nat.add_assoc]

theorem length_word (word other : ℕ) : (before ++ (bigEndian 2 word ++ after)).length =
    (before ++ (bigEndian 2 other ++ after)).length := by simp [length_bigEndian]

/-- The complement of the rest fills the sum up to all ones. -/
theorem transmitted_spec (sum : ℕ) : 0 < transmitted (65535 - fold sum) ∧
    transmitted (65535 - fold sum) ≤ 65535 ∧
    (sum + transmitted (65535 - fold sum)) % 65535 = 0 := by
  unfold transmitted fold
  split_ifs <;> omega

/-- The word computed for a datagram is not omitted and makes its sum valid. -/
theorem isValid_transmitted {sum : ℕ} (hpos : 0 < sum)
    (hlength : before.length = 6) (hword : transmitted (checksumFromSum
      (addChecksumBytes (fold sum) (before ++ (bigEndian 2 0 ++ after)))) = word) :
    ((before ++ (bigEndian 2 word ++ after)).drop 6).take 2 ≠ [0, 0] ∧ internetChecksumSumIsValid
      (addChecksumBytes (fold sum) (before ++ (bigEndian 2 word ++ after))) = true := by
  have heven : before.length % 2 = 0 := by omega
  rw [addChecksumBytes_fold, checksumFromSum_fold, total_word _ heven (by omega)] at hword
  obtain ⟨hnonzero, hle, hsum⟩ := transmitted_spec _
  rw [hword] at hnonzero hle hsum
  constructor
  · rw [← hlength, drop_left, take_left' (length_bigEndian 2 _)]
    intro hzero
    have hsame : word = 0 := bigEndian_injective (by omega) (by omega) hzero
    omega
  · rw [addChecksumBytes_fold, isValid_fold (by omega), total_word _ heven hle]
    omega

/-- The complement of a header's sum makes the header's checksum zero. -/
theorem internetChecksum_word (heven : before.length % 2 = 0) : internetChecksum (before ++
    (bigEndian 2 (internetChecksum (before ++ (bigEndian 2 0 ++ after))) ++ after)) = 0 := by
  have hsum := fun bytes => addChecksumBytes_fold 0 bytes
  simp only [fold_of_le (Nat.zero_le _), Nat.zero_add] at hsum
  simp only [internetChecksum, hsum, checksumFromSum_fold,
    total_word _ heven (Nat.sub_le ..), total_word _ heven (Nat.zero_le _)]
  unfold fold
  split_ifs <;> omega

end Word

/-- The verification of a UDP datagram between two addresses. -/
def Verification (verify : List Byte → Bool) : Prop :=
  (∃ source destination, verify = udpIpv4ChecksumIsValid source destination) ∨
    ∃ source destination, verify = udpIpv6ChecksumIsValid source destination

/-- A datagram that verifies adds up with its pseudo-header. -/
theorem Verification.total_eq {verify : List Byte → Bool} (hverify : Verification verify) :
    ∃ pseudo : ℕ → ℕ, ∀ udp, verify udp = true → (pseudo udp.length + total udp) % 65535 = 0 := by
  rcases hverify with ⟨source, destination, rfl⟩ | ⟨source, destination, rfl⟩
  · refine ⟨fun length => total source.toList + total destination.toList + 17 + length,
      fun udp hvalid => ?_⟩
    obtain ⟨hlength, -, -, hsum⟩ := of_decide_eq_true hvalid
    rwa [pseudoIpv4_eq _ _ hlength, addChecksumBytes_fold, isValid_fold (by omega)] at hsum
  · refine ⟨fun length => total source.toList + total destination.toList + length + 17,
      fun udp hvalid => ?_⟩
    obtain ⟨-, -, hlength, -, hsum⟩ := of_decide_eq_true hvalid
    rwa [pseudoIpv6_eq _ _ hlength, addChecksumBytes_fold, isValid_fold (by omega)] at hsum

/-- Two datagrams of one length verify only with congruent totals. -/
theorem Verification.false_of_total {verify : List Byte → Bool}
    {udp changed : List Byte} (hverify : Verification verify)
    (hvalid : verify udp = true) (hlength : changed.length = udp.length)
    (htotal : total changed % 65535 ≠ total udp % 65535) : verify changed = false := by
  obtain ⟨_, hpseudo⟩ := hverify.total_eq
  by_contra hother
  have hfirst := hpseudo _ hvalid
  have hsecond := hpseudo _ (Bool.eq_true_of_not_eq_false hother)
  rw [hlength] at hsecond
  omega

/-- What senders and receivers rely on. -/
structure ChecksumsVerify : Prop where
  /-- Where the segments meet makes no difference. -/
  segments : ∀ source destination udpPrefix payload, 8 ≤ udpPrefix.length →
    udpIpv6ChecksumSegments source destination udpPrefix payload =
      udpIpv6Checksum source destination (udpPrefix ++ payload)
  header : ∀ before after, before.length = 10 → internetChecksum (before ++
    (bigEndian 2 (internetChecksum (before ++ ([0, 0] ++ after))) ++ after)) = 0
  /-- A datagram with a zero field and a length that fits gets a checksum that verifies. -/
  ipv4 : ∀ source destination before after, before.length = 6 → 8 + after.length ≤ 65535 →
    ∃ checksum,
      udpIpv4Checksum source destination (before ++ ([0, 0] ++ after)) = some checksum ∧
      udpIpv4ChecksumIsValid source destination (before ++ (bigEndian 2 checksum ++ after)) = true
  /-- Over IPv6 the length is also the declared one. -/
  ipv6 : ∀ source destination before after payload, before.length = 6 →
    8 + after.length + payload.length ≤ 65535 →
    fromBigEndian (before.drop 4) = 8 + after.length + payload.length →
    ∃ checksum,
      udpIpv6ChecksumSegments source destination (before ++ ([0, 0] ++ after)) payload =
        some checksum ∧
      udpIpv6ChecksumIsValid source destination
        (before ++ (bigEndian 2 checksum ++ after) ++ payload) = true
  /-- Every sum adds words one after another from zero; none leaves its register. -/
  sums : ∀ sum bytes, addChecksumBytes sum bytes = (words bytes).foldl addChecksumWord sum
  bounded : ∀ (added : List ℕ) word, (∀ earlier ∈ added, earlier ≤ 65535) →
    word ≤ 65535 → added.foldl addChecksumWord 0 + word < 2 ^ 32
  changed : ∀ verify, Verification verify → ∀ before word other after, before.length % 2 = 0 →
    word ≤ 65535 → other ≤ 65535 → word ≠ other → (word, other) ∉ [(0, 65535), (65535, 0)] →
    verify (before ++ (bigEndian 2 word ++ after)) = true →
    verify (before ++ (bigEndian 2 other ++ after)) = false
  /-- The last octet of an odd datagram is the high half of its word. -/
  changedLast : ∀ verify, Verification verify → ∀ before last other, before.length % 2 = 0 →
    last ≠ other → verify (before ++ [last]) = true → verify (before ++ [other]) = false

/-- The checksums the sender writes are those the receiver accepts, in one piece or in
segments, and no change of a single word passes unseen, except between the two zeros. -/
theorem checksums_verify : ChecksumsVerify where
  segments := by
    intro source destination udpPrefix payload hlength
    have hfield : ∀ offset ≤ 6, ((udpPrefix ++ payload).drop offset).take 2 =
        (udpPrefix.drop offset).take 2 := by
      intro offset _
      rw [drop_append_of_le_length (by omega),
        take_append_of_le_length (by rw [length_drop]; omega)]
    have hshort : udpPrefix.length + payload.length < 8 ↔ udpPrefix.length < 8 := by omega
    simp only [udpIpv6Checksum, udpIpv6ChecksumSegments, addChecksumContiguousSegments_eq,
      hfield 6 le_rfl, hfield 4 (by omega), append_nil, length_append,
      length_nil, Nat.add_zero, hshort]
  header := by
    intro before after hlength
    exact internetChecksum_word _ (by omega)
  ipv4 := by
    intro source destination before after hlength hfits
    set zeroed := before ++ ([0, 0] ++ after) with hzeroed
    have hbound : zeroed.length ≤ 65535 := by
      simp [hzeroed, hlength]
      omega
    obtain ⟨checksum, hchecksum⟩ : ∃ checksum,
        udpIpv4Checksum source destination zeroed = some checksum := by
      rw [udpIpv4Checksum, if_pos hbound]
      exact ⟨_, rfl⟩
    refine ⟨checksum, hchecksum, ?_⟩
    rw [udpIpv4Checksum, if_pos hbound] at hchecksum
    have hword := Option.some.inj hchecksum
    rw [pseudoIpv4_eq _ _ hbound] at hword
    obtain ⟨hfield, hsum⟩ := isValid_transmitted _ (by omega) hlength hword
    have hsame : (before ++ (bigEndian 2 checksum ++ after)).length = zeroed.length :=
      length_word _ _ 0
    rw [udpIpv4ChecksumIsValid, hsame, pseudoIpv4_eq _ _ hbound]
    exact decide_eq_true ⟨hbound, by simp [hzeroed, hlength]; omega, hfield, hsum⟩
  ipv6 := by
    intro source destination before after payload hlength hfits hdeclared
    have hfield (word rest : List Byte) : ((before ++ (word ++ rest)).drop 4).take 2 =
        before.drop 4 := by
      rw [drop_append_of_le_length (by omega), take_left' (by simp [hlength])]
    set zeroed := before ++ ([0, 0] ++ after) with hzeroed
    have hsize : zeroed.length = 8 + after.length := by
      simp [hzeroed, hlength]
      omega
    have haccepted : ¬ (zeroed.length < 8 ∨ (zeroed.drop 6).take 2 ≠ [0, 0] ∨
        65535 < zeroed.length + payload.length ∨
        zeroed.length + payload.length ≠ fromBigEndian ((zeroed.drop 4).take 2)) := by
      have hzero : (zeroed.drop 6).take 2 = [0, 0] := by
        rw [hzeroed, ← hlength, drop_left]
        rfl
      rw [hzero, hzeroed, hfield, hdeclared, ← hzeroed, hsize]
      simp
      omega
    obtain ⟨checksum, hchecksum⟩ : ∃ checksum,
        udpIpv6ChecksumSegments source destination zeroed payload = some checksum := by
      rw [udpIpv6ChecksumSegments, if_neg haccepted]
      exact ⟨_, rfl⟩
    refine ⟨checksum, hchecksum, ?_⟩
    rw [udpIpv6ChecksumSegments, if_neg haccepted] at hchecksum
    have hword := Option.some.inj hchecksum
    rw [hsize, addChecksumContiguousSegments_eq, pseudoIpv6_eq _ _ hfits] at hword
    simp only [hzeroed, append_assoc] at hword ⊢
    obtain ⟨hnonzero, hsum⟩ := isValid_transmitted (after ++ payload) (by omega) hlength hword
    have hsame : (before ++ (bigEndian 2 checksum ++ (after ++ payload))).length =
        8 + after.length + payload.length := by
      simp [hlength, length_bigEndian]
      omega
    rw [udpIpv6ChecksumIsValid, hsame, pseudoIpv6_eq _ _ hfits]
    exact decide_eq_true ⟨by omega, hnonzero, hfits, by rw [hfield, hdeclared], hsum⟩
  sums := addChecksumBytes_eq_foldl
  bounded := by
    intro added word hadded hword
    have hsum := foldl_addChecksumWord hadded 0
    rw [fold_of_le (Nat.zero_le _)] at hsum
    have hle := fold_le (0 + added.sum)
    omega
  changed := by
    intro verify hverify before word other after heven hword hother hne hswap hvalid
    refine hverify.false_of_total hvalid (length_word _ _ _) ?_
    rw [total_word _ heven hword, total_word _ heven hother]
    simp only [mem_cons, Prod.mk.injEq] at hswap
    omega
  changedLast := by
    intro verify hverify before last other heven hne hvalid
    refine hverify.false_of_total hvalid (by simp) ?_
    have hbytes : last.val ≠ other.val := Fin.val_ne_of_ne hne
    rw [total_append _ heven, total_append _ heven]
    simp only [total, words, sum_singleton]
    omega

/-- A datagram of nine octets between two addresses, and the same with a word changed. -/
theorem checksums_verify_sample :
    let address : List.Vector Byte 16 := List.Vector.replicate 16 1
    let before : List Byte := [8, 104, 8, 104, 0, 9]
    ∃ checksum, udpIpv6ChecksumSegments address address (before ++ ([0, 0] ++ [])) [7] =
        some checksum ∧
      udpIpv6ChecksumIsValid address address (before ++ (bigEndian 2 checksum ++ []) ++ [7]) =
        true ∧
      udpIpv6ChecksumIsValid address address (before ++ (bigEndian 2 checksum ++ []) ++ [8]) =
        false := by
  intro address before
  obtain ⟨checksum, hchecksum, hvalid⟩ :=
    checksums_verify.ipv6 address address before [] [7] rfl (by decide) rfl
  refine ⟨checksum, hchecksum, hvalid, ?_⟩
  exact checksums_verify.changedLast _ (.inr ⟨address, address, rfl⟩) _ 7 8
    (by simp [before, length_bigEndian]) (by decide) hvalid

end PacketCore.Gtpu
