import PacketCore.Gtpu.FragmentAffinity

/-!
# A bucket as a map

Each key has at most one live slot, and what the bucket does with a packet is
what the affinity of its key does, unless all slots are taken.
-/

namespace PacketCore.Gtpu

open List

/-! ## The first fragment -/

variable {opening : TftFragmentOpening} {packet : TftFragmentPacket}
  {available matched : Option (Fin 4)}

/-- What a packet that no slot knows has to bring. -/
theorem TftFragmentPacket.opening_eq_ok (hopening : packet.opening = .ok opening) :
    ∃ classifier fragment parsed, packet.classifier = some classifier ∧
      packet.fragment = some fragment ∧ fragment.start = 0 ∧
      packet.first = some (parsed, opening.mark) ∧
      (∀ stop, parsed.udpLength = some stop → fragment.stop < stop) ∧
      opening.key = packet.key ∧ opening.identity = identityWords classifier ∧
      opening.firstPacket = packetWords parsed ∧
      opening.expiresAt = packet.now + tftFragmentLifetimeNs ∧
      opening.firstEnd = fragment.stop ∧ opening.firstHeaderLen = fragment.headerLen := by
  unfold TftFragmentPacket.opening at hopening
  split at hopening
  · cases hopening
  · rename_i classifier hclassifier
    split at hopening
    · cases hopening
    · rename_i fragment hfragment
      split at hopening
      · cases hopening
      · rename_i hfirst
        split at hopening
        · cases hopening
        · rename_i parsed mark hparsed
          split at hopening
          · cases hopening
          · rename_i hudp
            split at hopening
            · cases hopening
            · rename_i expiresAt hexpires
              cases hopening
              refine ⟨classifier, fragment, parsed, hclassifier, hfragment, ?_,
                hparsed, ?_, rfl, rfl, rfl, checkedAdd_eq_some hexpires, rfl, rfl⟩
              · simpa [TftIpv4Fragment.isFirst] using hfirst
              · intro stop hstop
                rw [hstop] at hudp
                simp at hudp
                exact hudp.1

theorem TftFragmentEntry.sized_reopen {entry : TftFragmentEntry} (hsized : entry.Sized)
    (hopening : packet.opening = .ok opening) : (entry.reopen opening).Sized := by
  obtain ⟨_, fragment, _, _, _, _, _, _, _, hidentity, hpacket, _, _, _⟩ :=
    TftFragmentPacket.opening_eq_ok hopening
  refine ⟨?_, ?_, by simp [reopen], ?_⟩
  · simp [reopen, hidentity, identityWords]
  · simp [reopen, hpacket, packetWords]
  · intro index
    have hstop := fragment.stop_le
    unfold reopen
    simp only
    by_cases hindex : index = 0
    · rw [hindex, Function.update_self]
      omega
    · rw [Function.update_of_ne hindex]
      exact hsized.ranges _

/-! ## The scan -/

namespace TftFragmentBucket

variable {bucket : TftFragmentBucket} {key : TftFragmentKey} {now : ℕ}

variable {found : Option (Fin 4) × Option (Fin 4)} {index : Fin 4}

theorem look_expired (hexpired : (bucket.entries index).expiresAt ≤ now) :
    bucket.look key now found index = (found.1, found.2.or (some index)) := by
  rw [look, if_pos hexpired]
  cases found.2 <;> rfl

theorem look_live (hlive : now < (bucket.entries index).expiresAt) :
    bucket.look key now found index =
      (if (bucket.entries index).key = key then some index else found.1, found.2) := by
  rw [look, if_neg (not_le.mpr hlive)]
  simp only [TftFragmentKey.matches_iff]
  split <;> rfl

/-- The scan finds a live slot of the key if there is one. -/
theorem matched_foldl (indices : List (Fin 4)) :
    (∀ index, (indices.foldl (bucket.look key now) found).1 = some index → found.1 = some index ∨
      now < (bucket.entries index).expiresAt ∧ (bucket.entries index).key = key) ∧
    ((indices.foldl (bucket.look key now) found).1 = none → found.1 = none ∧
      ∀ index ∈ indices, now < (bucket.entries index).expiresAt →
        (bucket.entries index).key ≠ key) := by
  induction indices generalizing found with
  | nil => exact ⟨fun _ => .inl, fun hnone => ⟨hnone, nofun⟩⟩
  | cons slot _ ih =>
    obtain ⟨hsome, hnone⟩ := @ih (bucket.look key now found slot)
    rw [foldl_cons]
    rcases le_or_gt (bucket.entries slot).expiresAt _ with hexpired | hlive
    · rw [look_expired hexpired] at hsome hnone ⊢
      refine ⟨hsome, fun hempty => ⟨(hnone hempty).1, ?_⟩⟩
      rw [forall_mem_cons]
      exact ⟨fun hlive => absurd hexpired (not_le.mpr hlive), (hnone hempty).2⟩
    · rw [look_live hlive] at hsome hnone ⊢
      by_cases hkey : (bucket.entries slot).key = key
      · rw [if_pos hkey] at hsome hnone ⊢
        refine ⟨?_, fun hempty => by cases (hnone hempty).1⟩
        intro index hindex
        rcases hsome _ hindex with hslot | hfound
        · cases hslot
          exact .inr ⟨hlive, hkey⟩
        · exact .inr hfound
      · rw [if_neg hkey] at hsome hnone ⊢
        refine ⟨hsome, fun hempty => ⟨(hnone hempty).1, ?_⟩⟩
        rw [forall_mem_cons]
        exact ⟨fun _ => hkey, (hnone hempty).2⟩

/-- The scan finds an expired slot if there is one. -/
theorem available_foldl (indices : List (Fin 4)) :
    (∀ index, (indices.foldl (bucket.look key now) found).2 = some index →
      found.2 = some index ∨ (bucket.entries index).expiresAt ≤ now) ∧
    ((indices.foldl (bucket.look key now) found).2 = none → found.2 = none ∧
      ∀ index ∈ indices, now < (bucket.entries index).expiresAt) := by
  induction indices generalizing found with
  | nil => exact ⟨fun _ => .inl, fun hnone => ⟨hnone, nofun⟩⟩
  | cons slot _ ih =>
    obtain ⟨hsome, hnone⟩ := @ih (bucket.look key now found slot)
    rw [foldl_cons]
    rcases le_or_gt (bucket.entries slot).expiresAt _ with hexpired | hlive
    · rw [look_expired hexpired] at hsome hnone ⊢
      refine ⟨?_, fun hempty => ?_⟩
      · intro index hindex
        rcases hsome _ hindex with hslot | hfound
        · rcases hfirst : found.2 with _ | _
          · rw [hfirst] at hslot
            cases hslot
            exact .inr hexpired
          · rw [hfirst] at hslot
            exact .inl hslot
        · exact .inr hfound
      · have hor := (hnone hempty).1
        cases hfirst : found.2 <;> rw [hfirst] at hor <;> cases hor
    · rw [look_live hlive] at hsome hnone ⊢
      refine ⟨hsome, fun hempty => ⟨(hnone hempty).1, ?_⟩⟩
      rw [forall_mem_cons]
      exact ⟨hlive, (hnone hempty).2⟩

theorem scan_matched (hscan : bucket.scan key now = (some index, available)) :
    now < (bucket.entries index).expiresAt ∧ (bucket.entries index).key = key := by
  have hmatched := (matched_foldl _).1 _ (congrArg _ hscan)
  exact hmatched.resolve_left nofun

theorem scan_unmatched (hscan : bucket.scan key now = (none, available)) (index : Fin 4)
    (hlive : now < (bucket.entries index).expiresAt) : (bucket.entries index).key ≠ key :=
  ((matched_foldl _).2 (congrArg _ hscan)).2 _ (mem_finRange _) hlive

theorem scan_available (hscan : bucket.scan key now = (matched, some index)) :
    (bucket.entries index).expiresAt ≤ now := by
  have havailable := (available_foldl _).1 _ (congrArg _ hscan)
  exact havailable.resolve_left nofun

theorem scan_full (hscan : bucket.scan key now = (matched, none))
    (index : Fin 4) : now < (bucket.entries index).expiresAt :=
  ((available_foldl _).2 (congrArg _ hscan)).2 _ (mem_finRange _)

/-! ## The map -/

/-- What the bucket remembers of a key at a time. -/
def remembered (bucket : TftFragmentBucket) (now : ℕ) (key : TftFragmentKey) : Option Affinity :=
  (bucket.scan key now).1.map fun index => (bucket.entries index).affinity

/-- No two live slots have one key. -/
structure Sound (bucket : TftFragmentBucket) (now : ℕ) : Prop where
  sized : ∀ index, (bucket.entries index).Sized
  distinct : ∀ left right, now < (bucket.entries left).expiresAt →
    now < (bucket.entries right).expiresAt →
    (bucket.entries left).key = (bucket.entries right).key → left = right

variable {later : ℕ} {affinity : Affinity} {packet : TftFragmentPacket}

section

variable (hsound : bucket.Sound now)
include hsound

theorem Sound.mono (hlater : now ≤ later) : bucket.Sound later :=
  ⟨hsound.sized, fun _ _ hleft hright =>
    hsound.distinct _ _ (hlater.trans_lt hleft) (hlater.trans_lt hright)⟩

theorem Sound.remembered_eq_some :
    bucket.remembered now key = some affinity ↔
      ∃ index, now < (bucket.entries index).expiresAt ∧ (bucket.entries index).key = key ∧
        (bucket.entries index).affinity = affinity := by
  unfold remembered
  rcases hscan : bucket.scan key now with ⟨_ | index, _⟩
  · constructor
    · intro hnone
      cases hnone
    · rintro ⟨index, hlive, hkey, _⟩
      exact absurd hkey (scan_unmatched hscan _ hlive)
  · obtain ⟨hlive, hkey⟩ := scan_matched hscan
    constructor
    · intro hsome
      exact ⟨index, hlive, hkey, Option.some.inj hsome⟩
    · rintro ⟨_, hother, hotherKey, rfl⟩
      rw [hsound.distinct _ _ hother hlive (hotherKey.trans hkey.symm)]
      rfl

theorem Sound.live_of_remembered
    (hremembered : bucket.remembered now key = some affinity) : now < affinity.expiresAt := by
  obtain ⟨_, hlive, _, rfl⟩ := hsound.remembered_eq_some.mp hremembered
  exact hlive

theorem Sound.remembered_eq_none :
    bucket.remembered now key = none ↔
      ∀ index, now < (bucket.entries index).expiresAt → (bucket.entries index).key ≠ key := by
  rw [Option.eq_none_iff_forall_ne_some]
  constructor
  · intro hnone index hlive hkey
    exact hnone _ (hsound.remembered_eq_some.mpr ⟨index, hlive, hkey, rfl⟩)
  · intro hnone _ hsome
    obtain ⟨index, hlive, hkey, _⟩ := hsound.remembered_eq_some.mp hsome
    exact hnone _ hlive hkey

/-- Time only takes datagrams away. -/
theorem Sound.remembered_later (hlater : now ≤ later) :
    bucket.remembered later key =
      (bucket.remembered now key).filter fun affinity => decide (later < affinity.expiresAt) := by
  ext affinity
  rw [(hsound.mono hlater).remembered_eq_some, Option.filter_eq_some_iff, hsound.remembered_eq_some]
  constructor
  · rintro ⟨index, hlive, hkey, rfl⟩
    exact ⟨⟨index, hlater.trans_lt hlive, hkey, rfl⟩, decide_eq_true hlive⟩
  · rintro ⟨⟨index, _, hkey, rfl⟩, hlive⟩
    exact ⟨index, of_decide_eq_true hlive, hkey, rfl⟩

end

variable {index : Fin 4} {entry : TftFragmentEntry}

theorem entries_set (other : Fin 4) :
    (bucket.set index entry).entries other =
      if other = index then entry else bucket.entries other :=
  Function.update_apply _ _ _ _

/-- A slot that is expired, or the key's own, can be written for the key. -/
theorem Sound.set (hsound : bucket.Sound now) (index : Fin 4)
    {entry : TftFragmentEntry} (hsized : entry.Sized)
    (hslot : now < (bucket.entries index).expiresAt → (bucket.entries index).key = entry.key)
    (hfree : ∀ other, other ≠ index → now < (bucket.entries other).expiresAt →
      (bucket.entries other).key ≠ entry.key) :
    (bucket.set index entry).Sound now ∧
      (bucket.set index entry).remembered now entry.key =
        (if now < entry.expiresAt then some entry.affinity else none) ∧
      ∀ key, key ≠ entry.key →
        (bucket.set index entry).remembered now key = bucket.remembered now key := by
  have hset : (bucket.set index entry).Sound now := by
    constructor
    · intro other
      rw [entries_set]
      split
      · exact hsized
      · exact hsound.sized _
    · intro _ _ hleft hright hkey
      rw [entries_set] at hleft hright
      rw [entries_set, entries_set] at hkey
      split at hleft <;> split at hright
      · simp_all
      · rename_i hl hr
        rw [if_pos hl, if_neg hr] at hkey
        exact absurd hkey.symm (hfree _ hr hright)
      · rename_i hl hr
        rw [if_neg hl, if_pos hr] at hkey
        exact absurd hkey (hfree _ hl hleft)
      · rename_i hl hr
        rw [if_neg hl, if_neg hr] at hkey
        exact hsound.distinct _ _ hleft hright hkey
  refine ⟨hset, ?_, ?_⟩
  · split
    · rw [hset.remembered_eq_some]
      exact ⟨index, by rwa [entries_set, if_pos rfl],
        by rw [entries_set, if_pos rfl], by rw [entries_set, if_pos rfl]⟩
    · rename_i hexpired
      rw [hset.remembered_eq_none]
      intro other hlive
      rw [entries_set] at hlive ⊢
      split at hlive
      · exact absurd hlive hexpired
      · rename_i hother
        rw [if_neg hother]
        exact hfree _ hother hlive
  · intro key hkey
    ext affinity
    rw [hset.remembered_eq_some, hsound.remembered_eq_some]
    constructor
    · rintro ⟨other, hlive, hotherKey, rfl⟩
      rw [entries_set] at hlive hotherKey ⊢
      split at hlive
      · rename_i hother
        rw [if_pos hother] at hotherKey
        exact absurd hotherKey.symm hkey
      · rename_i hother
        rw [if_neg hother] at hotherKey ⊢
        exact ⟨other, hlive, hotherKey, rfl⟩
    · rintro ⟨other, hlive, hotherKey, rfl⟩
      have hother : other ≠ index := by
        rintro rfl
        exact hkey (hotherKey.symm.trans (hslot hlive))
      exact ⟨other, by rwa [entries_set, if_neg hother],
        by rwa [entries_set, if_neg hother], by rw [entries_set, if_neg hother]⟩

end TftFragmentBucket

/-! ## One packet -/

/-- A packet of a key, given what is remembered of it. -/
noncomputable def Affinity.step (current : Option Affinity)
    (packet : TftFragmentPacket) : Option Affinity × TftFragmentDisposition :=
  match current with
  | some affinity => (some (affinity.accept packet).1, (affinity.accept packet).2)
  | none =>
    match packet.opening with
    | .error disposition => (none, disposition)
    | .ok opening => (some (.ofOpening opening), .selected opening.mark)

theorem TftFragmentEntry.accept_fixed (entry : TftFragmentEntry) (packet : TftFragmentPacket) :
    (entry.accept packet).1.key = entry.key ∧
      (entry.accept packet).1.expiresAt = entry.expiresAt := by
  unfold accept
  repeat' split
  all_goals exact ⟨rfl, rfl⟩

namespace TftFragmentBucket

variable {bucket : TftFragmentBucket} {packet : TftFragmentPacket}

/-- The bucket does what the affinity of the key does, and leaves the other keys;
only if it is full, a new key is refused instead. -/
theorem Sound.apply (hsound : bucket.Sound packet.now) :
    (bucket.apply packet).1.Sound packet.now ∧
      (∀ key, key ≠ packet.key →
        (bucket.apply packet).1.remembered packet.now key = bucket.remembered packet.now key) ∧
      (((bucket.apply packet).1.remembered packet.now packet.key, (bucket.apply packet).2) =
          Affinity.step (bucket.remembered packet.now packet.key) packet ∨
        bucket.apply packet = (bucket, .capacity) ∧
          bucket.remembered packet.now packet.key = none ∧
          ∀ index, packet.now < (bucket.entries index).expiresAt) := by
  unfold TftFragmentBucket.apply
  rcases hscan : bucket.scan packet.key packet.now with ⟨_ | index, available⟩
  · have hnone : bucket.remembered packet.now packet.key = none := by
      rw [remembered, hscan]
      rfl
    simp only [hnone, Affinity.step]
    cases hopening : packet.opening with
    | error => exact ⟨hsound, fun _ _ => rfl, .inl (by simp [hnone])⟩
    | ok opening =>
      cases available with
      | none => exact ⟨hsound, fun _ _ => rfl, .inr ⟨rfl, trivial, scan_full hscan⟩⟩
      | some index =>
        obtain ⟨_, _, _, _, _, _, _, _, hkey, _, _, hexpires, _⟩ :=
          TftFragmentPacket.opening_eq_ok hopening
        have hexpired := scan_available hscan
        have hreopened : ((bucket.entries index).reopen opening).key = packet.key := hkey
        obtain ⟨hset, hown, hothers⟩ := hsound.set _
          (TftFragmentEntry.sized_reopen (hsound.sized _) hopening)
          (fun hlive => absurd hexpired (not_le.mpr hlive))
          (fun other _ hlive => hreopened ▸ scan_unmatched hscan _ hlive)
        rw [hreopened] at hown hothers
        refine ⟨hset, hothers, .inl ?_⟩
        have hlive : packet.now < ((bucket.entries index).reopen opening).expiresAt := by
          rw [show ((bucket.entries index).reopen opening).expiresAt = opening.expiresAt from rfl,
            hexpires]
          exact Nat.lt_add_of_pos_right (by decide)
        rw [hown, if_pos hlive, TftFragmentEntry.affinity_reopen]
  · obtain ⟨hlive, hkey⟩ := scan_matched hscan
    have hsome : bucket.remembered packet.now packet.key =
        some (bucket.entries index).affinity := by
      rw [remembered, hscan]
      rfl
    obtain ⟨hsameKey, hsameExpiry⟩ := (bucket.entries index).accept_fixed packet
    have haccepted : ((bucket.entries index).accept packet).1.key = packet.key :=
      hsameKey.trans hkey
    obtain ⟨hset, hown, hothers⟩ := hsound.set _ (hsound.sized _).accept
      (fun _ => hsameKey.symm)
      (fun other hother hotherLive hsame => hother
        (hsound.distinct _ _ hotherLive hlive (hsame.trans hsameKey)))
    rw [haccepted] at hown hothers
    refine ⟨hset, hothers, .inl ?_⟩
    simp only [hsome, Affinity.step, ← TftFragmentEntry.affinity_accept (hsound.sized _)]
    rw [hown, if_pos (hsameExpiry ▸ hlive)]

theorem sound_new : new.Sound 0 :=
  ⟨fun _ => TftFragmentEntry.sized_empty, fun _ _ hlive => absurd hlive (Nat.lt_irrefl 0)⟩

theorem remembered_new (now : ℕ) (key : TftFragmentKey) : new.remembered now key = none := by
  rw [(sound_new.mono (Nat.zero_le _)).remembered_eq_none]
  exact fun _ hlive => absurd hlive (Nat.not_lt_zero _)

end TftFragmentBucket

end PacketCore.Gtpu
