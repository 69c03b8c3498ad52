import PacketCore.Gtpu.TftFragment

/-!
# One datagram at a time

A bucket is a map from keys to what it remembers of their datagrams: the scan
finds the one live slot of a key, stale ranges are out of sight, and the masks
compare as they should.
-/

namespace PacketCore.Gtpu

open List

/-! ## Comparisons by masks -/

theorem foldl_lor_eq_zero {α : Type*} (mask : α → ℕ) (items : List α) (start : ℕ) :
    items.foldl (fun masks item => masks ||| mask item) start = 0 ↔
      start = 0 ∧ ∀ item ∈ items, mask item = 0 := by
  induction items generalizing start with
  | nil => simp
  | cons _ _ ih =>
    rw [foldl_cons, ih, Nat.or_eq_zero_iff, forall_mem_cons, and_assoc]

theorem differences_eq_zero {left right : List ℕ} (hlength : left.length = right.length) :
    differences left right = 0 ↔ left = right := by
  rw [differences, foldl_lor_eq_zero fun word => word]
  simp only [true_and]
  induction left generalizing right with
  | nil => simp [length_eq_zero_iff.mp hlength.symm]
  | cons _ _ ih =>
    cases right with
    | nil => cases hlength
    | cons =>
      rw [zipWith_cons_cons, forall_mem_cons, Nat.xor_eq_zero_iff,
        ih (Nat.succ.inj hlength), cons.injEq]

/-- Byte strings with the same words of four are the same as far as those go. -/
theorem take_eq_of_words (left right : List Byte) (count : ℕ)
    (hwords : ∀ index < count, (left.drop (4 * index)).take 4 = (right.drop (4 * index)).take 4) :
    left.take (4 * count) = right.take (4 * count) := by
  induction count with
  | zero => simp
  | succ _ ih =>
    rw [Nat.mul_succ, take_add, take_add,
      ih fun index hindex => hwords _ (Nat.lt_succ_of_lt hindex),
      hwords _ (Nat.lt_succ_self _)]

theorem TftFragmentKey.matches_iff {left right : TftFragmentKey} :
    left.matches right = true ↔ left = right := by
  rw [TftFragmentKey.matches, beq_iff_eq, differences_eq_zero (by simp [TftFragmentKey.words])]
  constructor
  · intro hwords
    apply List.Vector.toList_injective
    have htake := take_eq_of_words left.toList right.toList 5 ?_
    · rwa [take_of_length_le (by simp), take_of_length_le (by simp)] at htake
    intro index hindex
    have hword := map_inj_left.mp hwords index (mem_range.mpr hindex)
    have hreverse := fromBigEndian_injective (by simp) hword
    exact reverse_injective hreverse
  · rintro rfl
    rfl

theorem borrow_eq {left right : ℕ} (hleft : left < 2 ^ 31) (hright : right < 2 ^ 31) :
    borrow left right = if left < right then 1 else 0 := by
  unfold borrow wrappingSub
  split <;> omega

/-! ## What a bucket remembers of a datagram -/

structure Affinity where
  identity : List ℕ
  firstPacket : List ℕ
  expiresAt : ℕ
  mark : ℕ
  firstEnd : ℕ
  finalEnd : ℕ
  poisoned : Bool
  firstHeaderLen : ℕ
  ranges : List (ℕ × ℕ)

namespace Affinity

def poison (affinity : Affinity) : Affinity := { affinity with poisoned := true }

/-- The declared end of the datagram, if it is UDP. -/
def udpEnd (affinity : Affinity) : Option ℕ :=
  if affinity.firstPacket.getD 4 0 / 2 ^ 8 % 2 ^ 8 = 17 then
    some (affinity.firstPacket.getD 4 0 / 2 ^ 16)
  else none

/-- A later fragment fits what was accepted before it. -/
structure Fits (affinity : Affinity) (fragment : TftIpv4Fragment) : Prop where
  room : affinity.ranges.length < tftFragmentMaxRanges
  header : fragment.stop ≤ 65535 - affinity.firstHeaderLen
  final : affinity.finalEnd ≠ 0 → fragment.stop ≤ affinity.finalEnd ∧ fragment.more = true
  udp : ∀ stop, affinity.udpEnd = some stop →
    if fragment.more then fragment.stop < stop else fragment.stop = stop
  apart : ∀ range ∈ affinity.ranges, range.2 ≤ fragment.start ∨ fragment.stop ≤ range.1
  last : fragment.more = false → ∀ range ∈ affinity.ranges, range.2 ≤ fragment.stop

def record (affinity : Affinity) (fragment : TftIpv4Fragment) : Affinity :=
  { affinity with
    ranges := affinity.ranges ++ [(fragment.start, fragment.stop)]
    finalEnd := if fragment.more then affinity.finalEnd else fragment.stop }

def ofOpening (opening : TftFragmentOpening) : Affinity where
  identity := opening.identity
  firstPacket := opening.firstPacket
  expiresAt := opening.expiresAt
  mark := opening.mark
  firstEnd := opening.firstEnd
  finalEnd := 0
  poisoned := false
  firstHeaderLen := opening.firstHeaderLen
  ranges := [(0, opening.firstEnd)]

/-- A later copy of the first fragment. -/
def Repeats (affinity : Affinity) (fragment : TftIpv4Fragment)
    (first : Option (TftClassifierIpv4Packet × ℕ)) : Prop :=
  ∃ parsed, first = some (parsed, affinity.mark) ∧ packetWords parsed = affinity.firstPacket ∧
    fragment.stop = affinity.firstEnd ∧ fragment.headerLen = affinity.firstHeaderLen

open Classical in
/-- One packet of a datagram that is remembered. -/
noncomputable def accept (affinity : Affinity) (packet : TftFragmentPacket) :
    Affinity × TftFragmentDisposition :=
  match packet.fragment, packet.classifier with
  | none, _ => (affinity.poison, .malformed)
  | some _, none => (affinity.poison, .drop)
  | some fragment, some classifier =>
    if packet.now < affinity.expiresAt - tftFragmentLifetimeNs ∨ affinity.poisoned = true ∨
        identityWords classifier ≠ affinity.identity then (affinity.poison, .drop)
    else if fragment.start = 0 then
      if affinity.Repeats fragment packet.first then (affinity, .selected affinity.mark)
      else (affinity.poison, .drop)
    else if affinity.Fits fragment then (affinity.record fragment, .selected affinity.mark)
    else (affinity.poison, .drop)

end Affinity

/-! ## Slots as affinities -/

namespace TftFragmentEntry

/-- The recorded ranges; what lies behind `rangeCount` is out of sight. -/
def affinity (entry : TftFragmentEntry) : Affinity where
  identity := entry.identity
  firstPacket := entry.firstPacket
  expiresAt := entry.expiresAt
  mark := entry.mark
  firstEnd := entry.firstEnd
  finalEnd := entry.finalEnd
  poisoned := entry.poisoned
  firstHeaderLen := entry.firstHeaderLen
  ranges := ((finRange 64).take entry.rangeCount).map entry.ranges

/-- The widths of the stored words and ranges. -/
structure Sized (entry : TftFragmentEntry) : Prop where
  identity : entry.identity.length = 9
  firstPacket : entry.firstPacket.length = 6
  rangeCount : entry.rangeCount ≤ 64
  ranges : ∀ index, (entry.ranges index).1 < 2 ^ 16 ∧ (entry.ranges index).2 < 2 ^ 16

variable {entry : TftFragmentEntry} {fragment : TftIpv4Fragment} {packet : TftFragmentPacket}

theorem mem_ranges {range : ℕ × ℕ} :
    range ∈ entry.affinity.ranges ↔
      ∃ index : Fin 64, index.val < entry.rangeCount ∧ entry.ranges index = range := by
  simp only [affinity, mem_map]
  constructor
  · rintro ⟨index, hindex, rfl⟩
    obtain ⟨_, hposition, rfl⟩ := mem_take_iff_getElem.mp hindex
    refine ⟨_, ?_, rfl⟩
    simp at hposition ⊢
    omega
  · rintro ⟨index, hindex, rfl⟩
    refine ⟨index, mem_take_iff_getElem.mpr ⟨index.val, ?_, ?_⟩, rfl⟩
    · simp
      omega
    · simp

/-- The new range follows those recorded, whatever the slot held there. -/
theorem affinity_record (hroom : entry.rangeCount < 64) :
    (entry.record fragment).affinity = entry.affinity.record fragment := by
  have htake : (finRange 64).take (entry.rangeCount + 1) =
      (finRange 64).take entry.rangeCount ++ [⟨entry.rangeCount, hroom⟩] := by
    rw [take_succ_eq_append_getElem (by simpa using hroom)]
    simp
  have hindex : Fin.ofNat 64 entry.rangeCount = ⟨entry.rangeCount, hroom⟩ :=
    Fin.ext (Nat.mod_eq_of_lt hroom)
  have hranges : ((finRange 64).take (entry.rangeCount + 1)).map
      (Function.update entry.ranges ⟨entry.rangeCount, hroom⟩ (fragment.start, fragment.stop)) =
      ((finRange 64).take entry.rangeCount).map entry.ranges ++
        [(fragment.start, fragment.stop)] := by
    rw [htake, map_append, map_singleton, Function.update_self]
    congr 1
    apply map_congr_left
    intro _ hmem
    obtain ⟨_, hposition, rfl⟩ := mem_take_iff_getElem.mp hmem
    apply Function.update_of_ne
    intro heq
    have hval := congrArg Fin.val heq
    simp at hval hposition
    omega
  unfold record affinity Affinity.record
  simp only [hindex, hranges]

theorem affinity_reopen (opening : TftFragmentOpening) :
    (entry.reopen opening).affinity = .ofOpening opening := by
  unfold reopen affinity Affinity.ofOpening
  simp only [finRange_succ, take_succ_cons, take_zero, map_cons, map_nil, Function.update_self]

theorem sized_empty : empty.Sized where
  identity := length_replicate
  firstPacket := length_replicate
  rangeCount := Nat.zero_le _
  ranges := fun _ => ⟨Nat.two_pow_pos 16, Nat.two_pow_pos 16⟩

section

variable (hsized : entry.Sized)
include hsized

theorem length_ranges : entry.affinity.ranges.length = entry.rangeCount := by
  simp [affinity, hsized.rangeCount]

theorem conflict_eq_zero :
    entry.conflict fragment = 0 ↔
      (∀ range ∈ entry.affinity.ranges, range.2 ≤ fragment.start ∨ fragment.stop ≤ range.1) ∧
      (fragment.more = false → ∀ range ∈ entry.affinity.ranges, range.2 ≤ fragment.stop) := by
  have hstop := fragment.stop_le
  have hstart := fragment.start_lt
  have hcount := hsized.rangeCount
  have hmask : ∀ index : Fin 64,
      borrow index.val entry.rangeCount &&&
        ((borrow fragment.start (entry.ranges index).2 &&&
          borrow (entry.ranges index).1 fragment.stop) |||
        ((!fragment.more).toNat &&& borrow fragment.stop (entry.ranges index).2)) = 0 ↔
      (index.val < entry.rangeCount →
        ((entry.ranges index).2 ≤ fragment.start ∨ fragment.stop ≤ (entry.ranges index).1) ∧
        (fragment.more = false → (entry.ranges index).2 ≤ fragment.stop)) := by
    intro index
    obtain ⟨_, _⟩ := hsized.ranges index
    rw [borrow_eq (by omega) (by omega), borrow_eq (by omega) (by omega),
      borrow_eq (by omega) (by omega), borrow_eq (by omega) (by omega)]
    cases fragment.more <;> split_ifs <;> simp <;> omega
  unfold conflict
  rw [foldl_lor_eq_zero]
  simp only [true_and, mem_finRange, forall_const, hmask, mem_ranges]
  constructor
  · intro hall
    constructor
    · rintro range ⟨index, hindex, rfl⟩
      exact (hall _ hindex).1
    · rintro hmore range ⟨index, hindex, rfl⟩
      exact (hall _ hindex).2 hmore
  · rintro ⟨hapart, hlast⟩ index hindex
    exact ⟨hapart _ ⟨index, hindex, rfl⟩, fun hmore => hlast hmore _ ⟨index, hindex, rfl⟩⟩

theorem outside_eq_false :
    entry.outside fragment = false ↔
      entry.affinity.ranges.length < tftFragmentMaxRanges ∧
      fragment.stop ≤ 65535 - entry.firstHeaderLen ∧
      (entry.finalEnd ≠ 0 → fragment.stop ≤ entry.finalEnd ∧ fragment.more = true) ∧
      ∀ stop, entry.affinity.udpEnd = some stop →
        if fragment.more then fragment.stop < stop else fragment.stop = stop := by
  have hudp : entry.affinity.udpEnd =
      if entry.firstPacket.getD 4 0 / 2 ^ 8 % 2 ^ 8 = 17 then
        some (entry.firstPacket.getD 4 0 / 2 ^ 16) else none := rfl
  rw [length_ranges hsized, hudp, outside]
  generalize entry.firstPacket.getD 4 0 / 2 ^ 8 % 2 ^ 8 = protocol
  by_cases hprotocol : protocol = 17
  · cases fragment.more <;> simp [hprotocol] <;> omega
  · cases fragment.more <;> simp [hprotocol] <;> omega

theorem fits_iff :
    entry.affinity.Fits fragment ↔
      entry.outside fragment = false ∧ entry.conflict fragment = 0 := by
  rw [outside_eq_false hsized, conflict_eq_zero hsized]
  constructor
  · rintro ⟨hroom, hheader, hfinal, hudp, hapart, hlast⟩
    exact ⟨⟨hroom, hheader, hfinal, hudp⟩, hapart, hlast⟩
  · rintro ⟨⟨hroom, hheader, hfinal, hudp⟩, hapart, hlast⟩
    exact ⟨hroom, hheader, hfinal, hudp, hapart, hlast⟩

theorem repeats_iff {first : Option (TftClassifierIpv4Packet × ℕ)} :
    entry.affinity.Repeats fragment first ↔ entry.repeatsFirst fragment first = true := by
  unfold repeatsFirst Affinity.Repeats
  cases first with
  | none => simp
  | some pair =>
    obtain ⟨parsed, _⟩ := pair
    have hwords : differences entry.firstPacket (packetWords parsed) = 0 ↔
        entry.firstPacket = packetWords parsed :=
      differences_eq_zero (by rw [hsized.firstPacket]; simp [packetWords])
    simp only [Bool.and_eq_true, beq_iff_eq, hwords]
    constructor
    · rintro ⟨_, hpair, hpacket, hstop, hheader⟩
      cases hpair
      exact ⟨⟨⟨rfl, hpacket.symm⟩, hstop⟩, hheader⟩
    · rintro ⟨⟨⟨hmark, hpacket⟩, hstop⟩, hheader⟩
      exact ⟨parsed, by rw [hmark]; rfl, hpacket.symm, hstop, hheader⟩

theorem affinity_accept :
    ((entry.accept packet).1.affinity, (entry.accept packet).2) = entry.affinity.accept packet := by
  unfold accept Affinity.accept
  cases hfragment : packet.fragment with
  | none => rfl
  | some fragment =>
    cases hclassifier : packet.classifier with
    | none =>
      simp only
      split <;> rfl
    | some classifier =>
      have hidentity : differences entry.identity (identityWords classifier) = 0 ↔
          identityWords classifier = entry.identity := by
        rw [differences_eq_zero (by rw [hsized.identity]; simp [identityWords]), eq_comm]
      simp only
      by_cases hearly : packet.now < entry.expiresAt - tftFragmentLifetimeNs
      · rw [if_pos hearly, if_pos (.inl hearly)]
        rfl
      rw [if_neg hearly]
      by_cases hrefused : entry.poisoned = true ∨ identityWords classifier ≠ entry.identity
      · rw [if_pos (by simpa [hidentity] using hrefused), if_pos (.inr hrefused)]
        rfl
      have hkept : ¬ (packet.now < entry.affinity.expiresAt - tftFragmentLifetimeNs ∨
          entry.affinity.poisoned = true ∨
          identityWords classifier ≠ entry.affinity.identity) :=
        fun h => h.elim hearly hrefused
      rw [if_neg (by simpa [hidentity] using hrefused), if_neg hkept]
      by_cases hfirst : fragment.start = 0
      · rw [if_pos (by simpa [TftIpv4Fragment.isFirst] using hfirst), if_pos hfirst]
        by_cases hrepeats : entry.repeatsFirst fragment packet.first = true
        · rw [if_pos hrepeats, if_pos ((repeats_iff hsized).mpr hrepeats)]
          rfl
        · rw [if_neg hrepeats, if_neg fun h => hrepeats ((repeats_iff hsized).mp h)]
          rfl
      · rw [if_neg (by simpa [TftIpv4Fragment.isFirst] using hfirst), if_neg hfirst]
        by_cases hfits : entry.affinity.Fits fragment
        · obtain ⟨hinside, hclear⟩ := (fits_iff hsized).mp hfits
          rw [if_pos hfits, if_neg (by simp [hinside]), if_neg (by simp [hclear])]
          have hroom := hfits.room
          rw [length_ranges hsized] at hroom
          rw [affinity_record hroom]
          rfl
        · rw [if_neg hfits]
          by_cases hinside : entry.outside fragment = true
          · rw [if_pos hinside]
            rfl
          · rw [if_neg hinside]
            have hclash : entry.conflict fragment ≠ 0 := fun hclear =>
              hfits ((fits_iff hsized).mpr ⟨by simpa using hinside, hclear⟩)
            rw [if_pos hclash]
            rfl

theorem Sized.poison : entry.poison.Sized :=
  { hsized with }

theorem Sized.record (hroom : entry.rangeCount < 64) : (entry.record fragment).Sized := by
  refine ⟨hsized.identity, hsized.firstPacket, hroom, ?_⟩
  intro index
  have hstop := fragment.stop_le
  have hstart := fragment.start_lt
  unfold TftFragmentEntry.record
  simp only
  by_cases hindex : index = Fin.ofNat 64 entry.rangeCount
  · rw [hindex, Function.update_self]
    omega
  · rw [Function.update_of_ne hindex]
    exact hsized.ranges _

theorem Sized.accept : (entry.accept packet).1.Sized := by
  unfold TftFragmentEntry.accept
  split
  · exact hsized.poison
  · split
    · exact hsized.poison
    · split
      · exact hsized.poison
      · split
        · exact hsized.poison
        · split
          · split
            · exact hsized
            · exact hsized.poison
          · split
            · exact hsized.poison
            · rename_i houtside
              split
              · exact hsized.poison
              · apply hsized.record
                have hroom := ((outside_eq_false hsized).mp (by simpa using houtside)).1
                rwa [length_ranges hsized] at hroom

end

end TftFragmentEntry

end PacketCore.Gtpu
