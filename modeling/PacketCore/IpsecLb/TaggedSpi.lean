import PacketCore.Library.Loop
import PacketCore.Library.Word

/-!
# Tagged SPIs and the shards they route to

The high bits of an SPI are a routing tag.  A tag belongs to the shard that scores
highest for it, so every allocator with the same shards decodes it alike, and a change
of the shards moves only the keys of the shards that come or go.
-/

namespace PacketCore.IpsecLb

open List

inductive IpsecLbError
  | invalidSpiLayout (totalBits tagBits minUnpredictableBits : ℕ)
  | unknownShard
  | emptyShardSet
  | duplicateShard
  | tagSpaceExhausted
  | entropyUnavailable
  | allocationAttemptsExhausted
  | spiOutOfRange
deriving DecidableEq

def maxAllocationAttempts : ℕ := 256

def maxTagBits : ℕ := 16

inductive SpiKind
  | ikev2Responder
  | childEsp
  | custom (totalBits : ℕ)
deriving DecidableEq

def SpiKind.totalBits : SpiKind → ℕ
  | ikev2Responder => 64
  | childEsp => 32
  | custom totalBits => totalBits

def maskForBits (bits : ℕ) : ℕ := if 64 ≤ bits then 2 ^ 64 - 1 else 2 ^ bits - 1

theorem maskForBits_eq {bits : ℕ} (hbits : bits ≤ 64) : maskForBits bits = 2 ^ bits - 1 := by
  unfold maskForBits
  split
  · rw [le_antisymm hbits ‹_›]
  · rfl

theorem le_maskForBits_iff {bits value : ℕ} (hbits : bits ≤ 64) :
    value ≤ maskForBits bits ↔ value < 2 ^ bits := by
  rw [maskForBits_eq hbits, Nat.le_sub_one_iff_lt (by positivity)]

structure TaggedSpiLayout where
  kind : SpiKind
  tagBits : ℕ
  minUnpredictableBits : ℕ
  valid : tagBits ≠ 0 ∧ tagBits < kind.totalBits ∧ tagBits ≤ maxTagBits ∧
    kind.totalBits ≤ 64 ∧ minUnpredictableBits ≤ kind.totalBits - tagBits

namespace TaggedSpiLayout

def new (kind : SpiKind) (tagBits minUnpredictableBits : ℕ) : Except IpsecLbError TaggedSpiLayout :=
  if hvalid : _ then .ok ⟨kind, tagBits, minUnpredictableBits, hvalid⟩
  else .error (.invalidSpiLayout kind.totalBits tagBits minUnpredictableBits)

variable (layout : TaggedSpiLayout)

def unpredictableBits : ℕ := layout.kind.totalBits - layout.tagBits

def tagMask : ℕ := maskForBits layout.tagBits

def randomMask : ℕ := maskForBits layout.unpredictableBits

def maxValue : ℕ := maskForBits layout.kind.totalBits

def minValue : ℕ := if layout.kind = .childEsp then 256 else 1

def encode (tag random : ℕ) : Except IpsecLbError ℕ := do
  refuseIf (layout.tagMask < tag ∨ layout.randomMask < random) .spiOutOfRange
  let value := tag <<< layout.unpredictableBits ||| random
  refuseIf (value < layout.minValue ∨ layout.maxValue < value) .spiOutOfRange
  return value

def decodeTag (value : ℕ) : Except IpsecLbError ℕ := do
  refuseIf (value < layout.minValue ∨ layout.maxValue < value) .spiOutOfRange
  return (value >>> layout.unpredictableBits) &&& layout.tagMask

variable {layout}

/-- What is encoded is legal and is decoded to its tag. -/
theorem encode_eq_ok {tag random value : ℕ} (hok : layout.encode tag random = .ok value) :
    layout.minValue ≤ value ∧ value ≤ layout.maxValue ∧ layout.decodeTag value = .ok tag := by
  obtain ⟨-, htotal, -, hwide, -⟩ := layout.valid
  have htagBits : layout.tagBits ≤ 64 := htotal.le.trans hwide
  have hrandomBits : layout.unpredictableBits ≤ 64 := (Nat.sub_le _ _).trans hwide
  obtain ⟨_, hfields, hok⟩ := bind_eq_ok hok
  obtain ⟨_, hrange, hok⟩ := bind_eq_ok hok
  cases hok
  have hfields := refuseIf_eq_ok.mp hfields
  rw [not_or, not_lt, not_lt, tagMask, randomMask, le_maskForBits_iff htagBits,
    le_maskForBits_iff hrandomBits] at hfields
  have htag : (tag <<< layout.unpredictableBits ||| random) >>> layout.unpredictableBits = tag := by
    rw [← Nat.shiftLeft_add_eq_or_of_lt hfields.2, Nat.shiftRight_eq_div_pow, Nat.shiftLeft_eq,
      mul_comm, Nat.mul_add_div (by positivity), Nat.div_eq_of_lt hfields.2, add_zero]
  have hlegal := not_or.mp (refuseIf_eq_ok.mp hrange)
  refine ⟨not_lt.mp hlegal.1, not_lt.mp hlegal.2, ?_⟩
  unfold decodeTag
  rw [hrange, ok_bind, htag, tagMask, maskForBits_eq htagBits,
    Nat.and_two_pow_sub_one_eq_mod, Nat.mod_eq_of_lt hfields.1]
  rfl

end TaggedSpiLayout

abbrev ShardId := Word 2

structure ShardSet where
  shards : List ShardId
  nonempty : shards ≠ []
  sorted : shards.Pairwise (· < ·)

/-- Equal neighbours in the sorted list are the only way not to be strictly sorted. -/
def ShardSet.new (shards : List ShardId) : Except IpsecLbError ShardSet :=
  let sorted := shards.mergeSort
  if hempty : sorted = [] then .error .emptyShardSet
  else if hsorted : sorted.Pairwise (· < ·) then .ok ⟨sorted, hempty, hsorted⟩
  else .error .duplicateShard

inductive SelectionKey
  | tag (tag : ℕ)
  | ikeInit (initiatorSpi : ℕ) (sourceIp : List Byte)
  | bytes (bytes : List Byte)

section Selector

variable {κ : Type} (score : ShardId → κ → ℕ)

/-- Keep the shard with the higher score, and of two equal ones the smaller. -/
def keepBest (key : κ) (best : Option (ℕ × ShardId)) (shard : ShardId) :
    Option (ℕ × ShardId) :=
  match best with
  | some (bestScore, bestShard) =>
    if score shard key < bestScore ∨ (score shard key = bestScore ∧ bestShard ≤ shard) then best
    else some (score shard key, shard)
  | none => some (score shard key, shard)

/-- The loop of both selectors. -/
def bestOf (shards : List ShardId) (key : κ) : Option ShardId :=
  (shards.foldl (keepBest score key) none).map Prod.snd

/-- The order in which shards win a key. -/
def rank (key : κ) (shard : ShardId) : ℕᵒᵈ ×ₗ ShardId :=
  toLex (OrderDual.toDual (score shard key), shard)

variable {score} {key : κ} {first second : List ShardId} {source target : ShardId}

/-- The fold finds the shard that ranks first. -/
theorem foldl_keepBest (shards : List ShardId) (best : Option ShardId) :
    (shards.foldl (keepBest score key) (best.map fun shard => (score shard key, shard))).map
      Prod.snd =
    shards.foldl (argAux fun left right => rank score key left < rank score key right) best := by
  induction shards generalizing best with
  | nil => cases best <;> rfl
  | cons shard _ ih =>
    rw [foldl_cons, foldl_cons, ← ih]
    congr 2
    cases best with
    | none => rfl
    | some best =>
      have hkeeps : (score shard key < score best key ∨
          (score shard key = score best key ∧ best ≤ shard)) ↔
          ¬ rank score key shard < rank score key best := by
        simp only [rank, Prod.Lex.lt_iff, ofLex_toLex, OrderDual.toDual_lt_toDual,
          OrderDual.toDual_inj, not_or, not_and, not_lt]
        grind
      simp only [Option.map_some, keepBest, argAux, hkeeps]
      split_ifs <;> rfl

theorem bestOf_eq_argmin (shards : List ShardId) :
    bestOf score shards key = shards.argmin (rank score key) :=
  foldl_keepBest shards none

theorem exists_bestOf (hnonempty : first ≠ []) : ∃ shard, bestOf score first key = some shard := by
  rw [bestOf_eq_argmin, ← Option.ne_none_iff_exists']
  exact mt argmin_eq_none.mp hnonempty

theorem mem_of_bestOf (hbest : bestOf score first key = some source) : source ∈ first :=
  argmin_mem (bestOf_eq_argmin first ▸ hbest)

/-- A key moves only from a shard that goes or to one that comes. -/
theorem bestOf_moves (hfirst : bestOf score first key = some source)
    (hsecond : bestOf score second key = some target)
    (hmoves : source ≠ target) : source ∉ second ∨ target ∉ first := by
  by_contra hboth
  push Not at hboth
  rw [bestOf_eq_argmin] at hfirst hsecond
  have hrank := le_antisymm (le_of_mem_argmin hboth.2 hfirst) (le_of_mem_argmin hboth.1 hsecond)
  exact hmoves (Prod.mk.inj (toLex.injective hrank)).2

end Selector

variable (score : ShardId → SelectionKey → ℕ)

def select (shards : ShardSet) (key : SelectionKey) : Except IpsecLbError ShardId :=
  okOr (bestOf score shards.shards key) .emptyShardSet

inductive OwnershipSelectionError
  | emptyMembership

structure EligibleOwnershipMembers where
  generation : ℕ+
  members : List ShardId
  nonempty : members ≠ []
  sorted : members.Pairwise (· < ·)

structure OwnerSelection (δ : Type) where
  owner : ShardId
  membershipGeneration : ℕ+
  keyDigest : δ

section Owner

variable {σ δ : Type} (canonicalDigest : σ → δ) (scoreOwnershipKey : ShardId → δ → ℕ)

/-- The generation has no part in the score. -/
def selectOwner (membership : EligibleOwnershipMembers) (key : σ) :
    Except OwnershipSelectionError (OwnerSelection δ) := do
  let keyDigest := canonicalDigest key
  let owner ← okOr (bestOf scoreOwnershipKey membership.members keyDigest) .emptyMembership
  return ⟨owner, membership.generation, keyDigest⟩

theorem exists_selectOwner (membership : EligibleOwnershipMembers) (key : σ) :
    ∃ selection, selectOwner canonicalDigest scoreOwnershipKey membership key = .ok selection := by
  obtain ⟨owner, howner⟩ := exists_bestOf membership.nonempty
  exact ⟨_, by rw [selectOwner, howner]; rfl⟩

variable {canonicalDigest scoreOwnershipKey}

/-- Two views of the members give a session to different owners only if one of the two is a
member of one view alone. -/
theorem selectOwner_moves {first second : EligibleOwnershipMembers} {key : σ}
    {source target : OwnerSelection δ}
    (hfirst : selectOwner canonicalDigest scoreOwnershipKey first key = .ok source)
    (hsecond : selectOwner canonicalDigest scoreOwnershipKey second key = .ok target)
    (hmoves : source.owner ≠ target.owner) :
    source.owner ∉ second.members ∨ target.owner ∉ first.members := by
  obtain ⟨_, hsource, hfirst⟩ := okOr_bind hfirst
  obtain ⟨_, htarget, hsecond⟩ := okOr_bind hsecond
  cases hfirst
  cases hsecond
  exact bestOf_moves hsource htarget hmoves

end Owner

variable {score}

/-- The order in which the shards are listed does not matter. -/
theorem ShardSet.new_of_perm {left right : List ShardId}
    (hperm : left.Perm right) : ShardSet.new left = ShardSet.new right := by
  have hsorted : left.mergeSort = right.mergeSort :=
    ((mergeSort_perm left _).trans (hperm.trans (mergeSort_perm right _).symm)).eq_of_pairwise
      (fun _ _ _ _ => by simpa using le_antisymm) (pairwise_mergeSort' _ _)
      (pairwise_mergeSort' _ _)
  simp only [ShardSet.new, hsorted]

structure TaggedSpi where
  kind : SpiKind
  value : ℕ
  tag : ℕ
  shard : ShardId
deriving DecidableEq

/-- The values in `reserved` belong to live SAs. -/
structure TaggedSpiAllocator where
  layout : TaggedSpiLayout
  shards : ShardSet
  reserved : Finset ℕ

namespace TaggedSpiAllocator

variable (score) (allocator : TaggedSpiAllocator)

/-- The precomputed tags of a shard. -/
def shardTags (shard : ShardId) : List ℕ :=
  (range (2 ^ allocator.layout.tagBits)).filter fun tag =>
    select score allocator.shards (.tag tag) = .ok shard

/-- One draw of eight octets; the source may fail. -/
def randomLowBits : List (Option (Word 8)) → Except IpsecLbError (ℕ × List (Option (Word 8)))
  | some bytes :: draws => .ok (bytes.val &&& allocator.layout.randomMask, draws)
  | _ => .error .entropyUnavailable

def tagsForShard (shard : ShardId) : Except IpsecLbError (List ℕ) := do
  refuseIf (shard ∉ allocator.shards.shards) .unknownShard
  refuseIf (allocator.shardTags score shard = []) .tagSpaceExhausted
  return allocator.shardTags score shard

def chooseTag (shard : ShardId) (draws : List (Option (Word 8))) :
    Except IpsecLbError (ℕ × List (Option (Word 8))) := do
  let tags ← allocator.tagsForShard score shard
  let (random, draws) ← allocator.randomLowBits draws
  return (tags.getD (random % tags.length) 0, draws)

/-- Draw until a value is legal and not to be skipped. -/
def attempt (tag : ℕ) (skipped : ℕ → Bool) : ℕ → List (Option (Word 8)) → Except IpsecLbError ℕ
  | 0, _ => .error .allocationAttemptsExhausted
  | attempts + 1, draws => do
    let (random, draws) ← allocator.randomLowBits draws
    match allocator.layout.encode tag random with
    | .ok value => if skipped value then attempt tag skipped attempts draws else return value
    | .error _ => attempt tag skipped attempts draws

def allocate (kind : SpiKind) (shard : ShardId)
    (draws : List (Option (Word 8))) : Except IpsecLbError TaggedSpi := do
  refuseIf (kind ≠ allocator.layout.kind) .spiOutOfRange
  let (tag, draws) ← allocator.chooseTag score shard draws
  let value ← allocator.attempt tag (· ∈ allocator.reserved) maxAllocationAttempts draws
  return ⟨kind, value, tag, shard⟩

def allocateRekey (replaces : TaggedSpi) (draws : List (Option (Word 8))) :
    Except IpsecLbError TaggedSpi := do
  refuseIf (replaces.kind ≠ allocator.layout.kind) .spiOutOfRange
  let value ← allocator.attempt replaces.tag
    (fun value => value = replaces.value ∨ value ∈ allocator.reserved) maxAllocationAttempts draws
  return { replaces with value }

def decode (kind : SpiKind) (value : ℕ) : Except IpsecLbError TaggedSpi := do
  refuseIf (kind ≠ allocator.layout.kind) .spiOutOfRange
  let tag ← allocator.layout.decodeTag value
  let shard ← select score allocator.shards (.tag tag)
  return ⟨kind, value, tag, shard⟩

variable {score} {allocator}

variable {layout : TaggedSpiLayout} {shards : ShardSet} {shard : ShardId}
  {spi : TaggedSpi} {draws : List (Option (Word 8))}

/-- The value of a successful draw is legal, keeps the tag and was not to be skipped. -/
theorem attempt_eq_ok {tag value attempts : ℕ} {skipped : ℕ → Bool}
    (hattempt : allocator.attempt tag skipped attempts draws = .ok value) :
    allocator.layout.minValue ≤ value ∧ value ≤ allocator.layout.maxValue ∧
      allocator.layout.decodeTag value = .ok tag ∧ skipped value = false := by
  induction attempts generalizing draws with
  | zero => cases hattempt
  | succ _ ih =>
    obtain ⟨⟨random, draws⟩, -, hattempt⟩ := bind_eq_ok hattempt
    dsimp only at hattempt
    split at hattempt
    · next encoded hencode =>
      split at hattempt
      · exact ih hattempt
      · next hkept =>
        cases hattempt
        obtain ⟨hlow, hhigh, htag⟩ := TaggedSpiLayout.encode_eq_ok hencode
        exact ⟨hlow, hhigh, htag, by simpa using hkept⟩
    · exact ih hattempt

theorem chooseTag_eq_ok {tag : ℕ} {rest : List (Option (Word 8))}
    (hok : allocator.chooseTag score shard draws = .ok (tag, rest)) :
    select score allocator.shards (.tag tag) = .ok shard := by
  obtain ⟨tags, htags, hok⟩ := bind_eq_ok hok
  obtain ⟨⟨random, draws⟩, -, hok⟩ := bind_eq_ok hok
  obtain ⟨_, -, htags⟩ := bind_eq_ok htags
  obtain ⟨_, hsome, htags⟩ := bind_eq_ok htags
  cases htags
  cases hok
  have hindex := Nat.mod_lt random (length_pos_iff.mpr (refuseIf_eq_ok.mp hsome))
  rw [getD_eq_getElem _ _ hindex]
  exact of_decide_eq_true (mem_filter.mp (getElem_mem hindex)).2

/-- The SPIs of a layout that a shard set decodes to what they say. -/
structure Routes (score : ShardId → SelectionKey → ℕ) (layout : TaggedSpiLayout)
    (shards : ShardSet) (spi : TaggedSpi) : Prop where
  kind : spi.kind = layout.kind
  low : layout.minValue ≤ spi.value
  high : spi.value ≤ layout.maxValue
  tag : layout.decodeTag spi.value = .ok spi.tag
  shard : select score shards (.tag spi.tag) = .ok spi.shard

theorem allocate_eq_ok {kind : SpiKind}
    (hok : allocator.allocate score kind shard draws = .ok spi) :
    Routes score allocator.layout allocator.shards spi ∧ spi.shard = shard ∧
      spi.value ∉ allocator.reserved := by
  obtain ⟨_, hkind, hok⟩ := bind_eq_ok hok
  obtain ⟨⟨tag, draws⟩, hchoose, hok⟩ := bind_eq_ok hok
  obtain ⟨value, hattempt, hok⟩ := bind_eq_ok hok
  cases hok
  obtain ⟨hlow, hhigh, htag, hfree⟩ := attempt_eq_ok hattempt
  exact ⟨⟨not_not.mp (refuseIf_eq_ok.mp hkind), hlow, hhigh, htag, chooseTag_eq_ok hchoose⟩,
    rfl, of_decide_eq_false hfree⟩

/-- A rekey keeps the tag, and with it the shard. -/
theorem allocateRekey_eq_ok {replaces : TaggedSpi}
    (hok : allocator.allocateRekey replaces draws = .ok spi) :
    spi.shard = replaces.shard ∧ spi.value ∉ allocator.reserved ∧ spi.value ≠ replaces.value ∧
      (Routes score allocator.layout allocator.shards replaces →
        Routes score allocator.layout allocator.shards spi) := by
  obtain ⟨_, hkind, hok⟩ := bind_eq_ok hok
  obtain ⟨value, hattempt, hok⟩ := bind_eq_ok hok
  cases hok
  obtain ⟨hlow, hhigh, htag, hfree⟩ := attempt_eq_ok hattempt
  have hfree := not_or.mp (of_decide_eq_false hfree)
  exact ⟨rfl, hfree.2, hfree.1, fun hroutes => ⟨hroutes.kind, hlow, hhigh, htag, hroutes.shard⟩⟩

theorem Routes.decode (hroutes : Routes score layout shards spi) (reserved : Finset ℕ) :
    TaggedSpiAllocator.decode score ⟨layout, shards, reserved⟩ spi.kind spi.value = .ok spi := by
  unfold TaggedSpiAllocator.decode
  rw [refuseIf_of_not (not_not.mpr hroutes.kind), ok_bind, hroutes.tag, ok_bind, hroutes.shard]
  rfl

/-- The SPIs of one shard that any allocators with one layout and shard set hand out. -/
inductive Issued (score : ShardId → SelectionKey → ℕ) (layout : TaggedSpiLayout)
    (shards : ShardSet) (shard : ShardId) : TaggedSpi → Prop
  | fresh {reserved kind draws spi}
      (hfresh : allocate score ⟨layout, shards, reserved⟩ kind shard draws = .ok spi) :
      Issued score layout shards shard spi
  | rekeyed {earlier reserved draws spi} (hearlier : Issued score layout shards shard earlier)
      (hrekey : allocateRekey ⟨layout, shards, reserved⟩ earlier draws = .ok spi) :
      Issued score layout shards shard spi

theorem Issued.routes (hissued : Issued score layout shards shard spi) :
    Routes score layout shards spi ∧ spi.shard = shard := by
  induction hissued with
  | fresh hfresh =>
    obtain ⟨hroutes, hshard, -⟩ := allocate_eq_ok hfresh
    exact ⟨hroutes, hshard⟩
  | rekeyed _ hrekey ih =>
    obtain ⟨hshard, -, -, hkeeps⟩ := allocateRekey_eq_ok hrekey
    exact ⟨hkeeps ih.1, hshard.trans ih.2⟩

variable (score) in
/-- A tagged SPI routes to the shard it was allocated for: every SPI of an allocation or of a
chain of rekeys is legal, is not in use, and is decoded to its tag and shard by every allocator
of the layout and the shards.  Every key has a shard, and a change of the shards moves only
the keys of a shard that goes or comes. -/
theorem tagged_spi_routes :
    (∀ layout shards shard spi, Issued score layout shards shard spi →
      layout.minValue ≤ spi.value ∧ spi.value ≤ layout.maxValue ∧ spi.shard = shard ∧
      ∀ reserved, decode score ⟨layout, shards, reserved⟩ spi.kind spi.value = .ok spi) ∧
    (∀ allocator kind shard draws spi, allocate score allocator kind shard draws = .ok spi →
      spi.value ∉ allocator.reserved) ∧
    (∀ allocator replaces draws spi, allocateRekey allocator replaces draws = .ok spi →
      spi.value ∉ allocator.reserved ∧ spi.value ≠ replaces.value) ∧
    (∀ shards key, ∃ shard ∈ shards.shards, select score shards key = .ok shard) ∧
    (∀ first second key source target, select score first key = .ok source →
      select score second key = .ok target → source ≠ target →
      (source ∉ second.shards ∨ target ∉ first.shards) ∧
      (second.shards ⊆ first.shards → source ∉ second.shards) ∧
      (first.shards ⊆ second.shards → target ∉ first.shards)) ∧
    ∀ left right : List ShardId, left.Perm right → ShardSet.new left = ShardSet.new right := by
  refine ⟨fun layout shards shard spi hissued => ?_, fun _ _ _ _ _ hfresh => ?_,
    fun _ _ _ _ hrekey => ?_, fun shards key => ?_,
    fun first second key source target hfirst hsecond hmoves => ?_,
    fun _ _ => ShardSet.new_of_perm⟩
  · obtain ⟨hroutes, hshard⟩ := hissued.routes
    exact ⟨hroutes.low, hroutes.high, hshard, hroutes.decode⟩
  · exact (allocate_eq_ok hfresh).2.2
  · obtain ⟨-, hfree, hnew, -⟩ := @allocateRekey_eq_ok score _ _ _ _ hrekey
    exact ⟨hfree, hnew⟩
  · obtain ⟨shard, hshard⟩ := exists_bestOf shards.nonempty
    exact ⟨shard, mem_of_bestOf hshard, okOr_eq_ok.mpr hshard⟩
  · have hfirst := okOr_eq_ok.mp hfirst
    have hsecond := okOr_eq_ok.mp hsecond
    have hmember := bestOf_moves hfirst hsecond hmoves
    exact ⟨hmember,
      fun hremoved => hmember.resolve_right (not_not.mpr (hremoved (mem_of_bestOf hsecond))),
      fun hadded => hmember.resolve_left (not_not.mpr (hadded (mem_of_bestOf hfirst)))⟩

/-- Even tags go to shard 0 and odd ones to shard 1. -/
def parityScore (shard : ShardId) : SelectionKey → ℕ
  | .tag tag => if tag % 2 = shard.val then 1 else 0
  | _ => 0

/-- An SPI of shard 1, its rekey, and the shard of their tag when shard 1 is gone. -/
theorem tagged_spi_routes_rekeyed :
    let layout : TaggedSpiLayout := ⟨.custom 8, 2, 0, by decide⟩
    let shards : ShardSet := ⟨[0, 1], by decide, by decide⟩
    let spi : TaggedSpi := ⟨.custom 8, 70, 1, 1⟩
    Issued parityScore layout shards 1 spi ∧
      decode parityScore ⟨layout, shards, {70}⟩ (.custom 8) 70 = .ok spi ∧
      (1 : ShardId) ∉ [0] := by
  intro layout shards spi
  have hissued : Issued parityScore layout shards 1 spi :=
    .rekeyed (.fresh (show allocate parityScore ⟨layout, shards, ∅⟩ (.custom 8) 1
      [some 0, some 5] = .ok ⟨.custom 8, 69, 1, 1⟩ by decide +kernel))
      (show allocateRekey ⟨layout, shards, {69}⟩ _ [some 5, some 6] = _ by decide +kernel)
  obtain ⟨hroutes, -, -, -, hmoves, -⟩ := tagged_spi_routes parityScore
  exact ⟨hissued, (hroutes _ _ _ _ hissued).2.2.2 {70}, (hmoves shards ⟨[0], by decide, by decide⟩
    (.tag 1) 1 0 (by decide) (by decide) (by decide)).2.1 (by decide)⟩

end TaggedSpiAllocator

end PacketCore.IpsecLb
