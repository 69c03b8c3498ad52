import PacketCore.Gtpu.AffinityRuns

/-!
# Datagrams of other keys

A key is answered as if it were alone in its bucket, unless the others have taken
the last slot.  With that, what a run on one bucket guarantees is complete.
-/

namespace PacketCore.Gtpu

open Affinity List

/-! ## Other datagrams -/

/-- The answers to the packets of one key, from what is remembered of it. -/
noncomputable def Affinity.follow (current : Option Affinity) :
    List TftFragmentPacket → List (TftFragmentPacket × TftFragmentDisposition)
  | [] => []
  | packet :: packets =>
    let live := current.filter fun affinity => decide (packet.now < affinity.expiresAt)
    (packet, (step live packet).2) :: follow (step live packet).1 packets

variable {affinity : Affinity}

namespace TftFragmentBucket

variable {bucket : TftFragmentBucket} {packet : TftFragmentPacket}
  {packets : List TftFragmentPacket} {clock now : ℕ} {key : TftFragmentKey}

/-- What has expired makes no difference to later packets. -/
theorem follow_filter {current : Option Affinity} (hnow : ∀ packet ∈ packets, now ≤ packet.now) :
    follow (current.filter fun affinity => decide (now < affinity.expiresAt)) packets =
      follow current packets := by
  cases packets with
  | nil => rfl
  | cons packet =>
    have hlater := hnow _ mem_cons_self
    have hfilter : (current.filter fun affinity => decide (now < affinity.expiresAt)).filter
        (fun affinity => decide (packet.now < affinity.expiresAt)) =
        current.filter fun affinity => decide (packet.now < affinity.expiresAt) := by
      rw [Option.filter_filter]
      congr 1
      funext affinity
      by_cases hlive : packet.now < affinity.expiresAt
      · simp [hlater.trans_lt hlive]
      · simp [hlive]
    rw [follow, follow, hfilter]

/-- Unless it is refused for lack of room, a key is answered as if it were alone. -/
theorem Sound.answers_of (hsound : bucket.Sound clock) (htimed : Timed clock packets)
    (hroom : ∀ packet, (packet, .capacity) ∈ bucket.answers packets → packet.key ≠ key) :
    (bucket.answers packets).filter (fun answer => decide (answer.1.key = key)) =
      follow (bucket.remembered clock key)
        (packets.filter fun packet => decide (packet.key = key)) := by
  induction packets generalizing bucket clock with
  | nil => rfl
  | cons packet packets ih =>
    obtain ⟨hnow, hrest⟩ := htimed.split
    have hsoundNow := hsound.mono hnow
    obtain ⟨hnext, hothers, hown⟩ := hsoundNow.apply
    have hih := ih hnext hrest fun other hother =>
      hroom _ (mem_cons_of_mem _ hother)
    have hlive : bucket.remembered packet.now key = _ := hsound.remembered_later hnow
    by_cases hkey : packet.key = key
    · subst hkey
      have hstep : ((bucket.apply packet).1.remembered packet.now packet.key,
          (bucket.apply packet).2) = step (bucket.remembered packet.now packet.key) packet := by
        refine hown.resolve_right fun hcapacity => ?_
        refine hroom _ ?_ rfl
        rw [answers, hcapacity.1]
        exact mem_cons_self
      rw [answers, filter_cons_of_pos (by simp), filter_cons_of_pos (by simp),
        hih, follow, ← hlive, ← hstep]
    · have htimes : ∀ other ∈ packets.filter (fun packet => decide (packet.key = key)),
          packet.now ≤ other.now := by
        intro other hother
        exact (pairwise_cons.mp hrest).1 _ (mem_map_of_mem (mem_filter.mp hother).1)
      rw [answers, filter_cons_of_neg (by simpa using hkey),
        filter_cons_of_neg (by simpa using hkey), hih, hothers _ (Ne.symm hkey),
        hlive, follow_filter htimes]

/-- A key that is alone always finds room. -/
theorem Sound.room_of_alone (hsound : bucket.Sound clock) (htimed : Timed clock packets)
    (halone : ∀ other, other ≠ key → bucket.remembered clock other = none)
    (hkeys : ∀ packet ∈ packets, packet.key = key) :
    ∀ packet, (packet, .capacity) ∉ bucket.answers packets := by
  induction packets generalizing bucket clock with
  | nil => exact fun _ => not_mem_nil
  | cons packet _ ih =>
    obtain ⟨hnow, hrest⟩ := htimed.split
    obtain rfl := hkeys _ mem_cons_self
    have hsoundNow := hsound.mono hnow
    obtain ⟨hnext, hothers, hown⟩ := hsoundNow.apply
    have haloneNow : ∀ other, other ≠ packet.key → bucket.remembered packet.now other = none := by
      intro other hother
      rw [hsound.remembered_later hnow, halone _ hother]
      rfl
    have hih := ih hnext hrest
      (fun other hother => (hothers _ hother).trans (haloneNow _ hother))
      fun other hother => hkeys _ (mem_cons_of_mem _ hother)
    intro other hmem
    rcases mem_cons.mp hmem with hhead | hmem
    · obtain ⟨rfl, hanswer⟩ := Prod.mk.inj hhead
      rcases hown with hown | ⟨_, hnone, hfull⟩
      · exact step_ne_capacity _ _ ((congrArg _ hown).symm.trans hanswer.symm)
      · have hslot : bucket.remembered other.now (bucket.entries 0).key =
            some (bucket.entries 0).affinity :=
          hsoundNow.remembered_eq_some.mpr ⟨0, hfull 0, rfl, rfl⟩
        by_cases hkey : (bucket.entries 0).key = other.key
        · rw [hkey, hnone] at hslot
          cases hslot
        · rw [haloneNow _ hkey] at hslot
          cases hslot
    · exact hih _ hmem

/-- The answers to the packets of one key are all of its own. -/
theorem filter_answers (hkeys : ∀ packet ∈ packets, packet.key = key) :
    (bucket.answers packets).filter (fun answer => decide (answer.1.key = key)) =
      bucket.answers packets := by
  induction packets generalizing bucket with
  | nil => rfl
  | cons _ _ ih =>
    rw [forall_mem_cons] at hkeys
    rw [answers, filter_cons_of_pos (by simpa using hkeys.1), ih hkeys.2]

/-! ## Where a datagram was opened -/

/-- The packet opened the datagram with what is remembered of it. -/
structure Opened (bucket : TftFragmentBucket) (packet : TftFragmentPacket)
    (affinity : Affinity) : Prop where
  opens : bucket.Opens packet affinity.mark
  expiresAt : affinity.expiresAt = packet.now + tftFragmentLifetimeNs
  identity : packet.classifier.map identityWords = some affinity.identity

theorem Opened.same {changed : Affinity} (hopened : Opened bucket packet affinity)
    (hsame : affinity.Same changed) : Opened bucket packet changed :=
  ⟨hsame.mark.symm ▸ hopened.opens, hsame.expiresAt.trans hopened.expiresAt,
    hsame.identity.symm ▸ hopened.identity⟩

theorem run_concat (bucket : TftFragmentBucket)
    (packets : List TftFragmentPacket) (packet : TftFragmentPacket) :
    bucket.run (packets ++ [packet]) = ((bucket.run packets).apply packet).1 := by
  rw [run, foldl_append]
  rfl

theorem sound_run_new {rest : List TftFragmentPacket}
    (htimed : Timed 0 (packets ++ packet :: rest)) : (new.run packets).Sound packet.now :=
  sound_new.run htimed.left htimed.right.1 htimed.right.2.1

/-- What opens a datagram is its first fragment, and the mark is the one found
for that fragment. -/
theorem Sound.first_of_opens {mark : ℕ} (hsound : bucket.Sound packet.now)
    (hopens : bucket.Opens packet mark) :
    ∃ fragment parsed, packet.fragment = some fragment ∧ fragment.start = 0 ∧
      packet.first = some (parsed, mark) := by
  obtain ⟨opening, hopening, rfl, _⟩ := hsound.opens hopens
  obtain ⟨_, fragment, parsed, _, hfragment, hstart, hparsed, _⟩ :=
    TftFragmentPacket.opening_eq_ok hopening
  exact ⟨fragment, parsed, hfragment, hstart, hparsed⟩

/-- A packet after which a new datagram is remembered opened it. -/
theorem Sound.opened (hsound : bucket.Sound packet.now)
    (hbefore : bucket.remembered packet.now packet.key = none)
    (hafter : (bucket.apply packet).1.remembered packet.now packet.key = some affinity) :
    Opened bucket packet affinity := by
  obtain ⟨_, _, hown | ⟨hcapacity, _⟩⟩ := hsound.apply
  · rw [hbefore, hafter, step] at hown
    cases hopening : packet.opening with
    | error =>
      rw [hopening] at hown
      cases (Prod.mk.inj hown).1
    | ok =>
      rw [hopening] at hown
      obtain ⟨hsame, hanswer⟩ := Prod.mk.inj hown
      cases hsame
      obtain ⟨_, _, _, hclassifier, _, _, _, _, _, hidentity, _, hexpires, _⟩ :=
        TftFragmentPacket.opening_eq_ok hopening
      refine ⟨⟨hbefore, hanswer⟩, hexpires, ?_⟩
      rw [hclassifier, Option.map_some, ← hidentity]
      rfl
  · rw [hcapacity, hbefore] at hafter
    cases hafter

theorem exists_opened (htimed : Timed 0 packets) (hnow : ∀ packet ∈ packets, packet.now ≤ now)
    (hremembered : (new.run packets).remembered now key = some affinity) :
    ∃ before packet between, packets = before ++ packet :: between ∧
      packet.key = key ∧ Opened (new.run before) packet affinity := by
  induction packets using reverseRecOn generalizing now affinity with
  | nil =>
    have hnone := remembered_new now key
    cases hremembered
  | append_singleton packets packet ih =>
    have hsound := sound_run_new htimed
    have hlast : packet.now ≤ now := hnow _ (by simp)
    have htimes := htimed.right.2.1
    have hearly := htimed.left
    have hextend : ∀ {affinity : Affinity} {now : ℕ}, (∀ other ∈ packets, other.now ≤ now) →
        (new.run packets).remembered now key = some affinity →
        ∃ before opening between, packets ++ [packet] = before ++ opening :: between ∧
          opening.key = key ∧ Opened (new.run before) opening affinity := by
      intro affinity now htimesNow hbefore
      obtain ⟨before, opening, between, rfl, hkey, hopened⟩ := ih hearly htimesNow hbefore
      exact ⟨before, opening, between ++ [packet], by simp, hkey, hopened⟩
    obtain ⟨hnext, hothers, _⟩ := hsound.apply
    rw [run_concat, hnext.remembered_later hlast, Option.filter_eq_some_iff] at hremembered
    obtain ⟨hafter, _⟩ := hremembered
    by_cases hkey : key = packet.key
    · subst hkey
      cases hbefore : (new.run packets).remembered packet.now packet.key with
      | some earlier =>
        obtain ⟨hsame, _⟩ := hsound.apply_remembered hbefore
        rw [hafter] at hsame
        cases hsame
        obtain ⟨before, opening, between, hsplit, hopeningKey, hopened⟩ := hextend htimes hbefore
        exact ⟨before, opening, between, hsplit, hopeningKey,
          hopened.same (earlier.same_accept packet)⟩
      | none =>
        exact ⟨packets, packet, [], rfl, rfl, hsound.opened hbefore hafter⟩
    · rw [hothers _ hkey] at hafter
      exact hextend htimes hafter

variable {fragment other : TftIpv4Fragment}

/-- The fragments selected while one datagram is remembered fit together. -/
theorem Sound.chosen_fit {mark : ℕ} (hsound : bucket.Sound packet.now)
    (hopens : bucket.Opens packet mark) (htimed : Timed packet.now packets)
    (hlive : ∀ later ∈ packets, later.now < packet.now + tftFragmentLifetimeNs)
    (hfragment : fragment ∈ chosen packet.key (bucket.answers (packet :: packets))) :
    (∀ other ∈ chosen packet.key (bucket.answers (packet :: packets)),
      ((fragment.start, fragment.stop) = (other.start, other.stop) ∨
        fragment.stop ≤ other.start ∨ other.stop ≤ fragment.start) ∧
      (other.more = false → fragment.stop ≤ other.stop)) ∧
    ∀ parsed stop, packet.first = some (parsed, mark) → parsed.udpLength = some stop →
      fragment.stop ≤ stop ∧ (fragment.more = false → fragment.stop = stop) := by
  obtain ⟨_, hopening, _, hfollows⟩ := hsound.opens hopens
  obtain ⟨_, _, parsed, _, _, _, hparsed, _, _, _, hpacket, hexpires, _⟩ :=
    TftFragmentPacket.opening_eq_ok hopening
  obtain ⟨last, _, hlast, hsame, _⟩ := hfollows.run htimed fun later hlater =>
    (hlive _ hlater).trans_eq hexpires.symm
  rw [← chosen_cons] at hlast
  have hholds := hlast.holds _ hfragment
  refine ⟨?_, ?_⟩
  · intro other hother
    have hotherHolds := hlast.holds _ hother
    exact ⟨hlast.consistent.apart hholds hotherHolds,
      fun hfinal => hlast.consistent.within hholds hotherHolds hfinal⟩
  · intro _ stop hfound hstop
    rw [hparsed] at hfound
    cases hfound
    have hudp : last.udpEnd = some stop := by
      rw [← hstop, ← udpEnd_ofOpening hpacket, udpEnd, udpEnd, hsame.firstPacket]
    obtain ⟨hranges, hend⟩ := hlast.consistent.udp _ hudp
    refine ⟨hranges _ hholds.range, fun hfinal => ?_⟩
    have hfinalEnd := hholds.final hfinal
    have hlt := fragment.start_lt
    rw [← hfinalEnd]
    exact hend (by omega)

end TftFragmentBucket

open TftFragmentBucket in
/-- Over every run on one bucket: a key has one live entry with at most 64 ranges;
a selection carries the mark that was found for the first fragment of the
datagram, and its classifier, while it is remembered; the selected fragments fit
together; a remembered datagram stays until its deadline; once poisoned it is
refused; and packets of other keys matter only when they take the last slot. -/
theorem fragments_follow_first (packets : List TftFragmentPacket)
    (htimes : (packets.map TftFragmentPacket.now).Pairwise (· ≤ ·)) :
    (∀ now, (∀ packet ∈ packets, packet.now ≤ now) → ∀ left right,
      now < ((new.run packets).entries left).expiresAt →
      now < ((new.run packets).entries right).expiresAt →
      ((new.run packets).entries left).key = ((new.run packets).entries right).key →
      left = right) ∧
    (∀ index, ((new.run packets).entries index).rangeCount ≤ tftFragmentMaxRanges) ∧
    (∀ earlier packet later mark, packets = earlier ++ packet :: later →
      ((new.run earlier).apply packet).2 = .selected mark →
      ∃ before opening between, earlier ++ [packet] = before ++ opening :: between ∧
        opening.key = packet.key ∧ (new.run before).Opens opening mark ∧
        (∃ fragment parsed, opening.fragment = some fragment ∧
          fragment.start = 0 ∧ opening.first = some (parsed, mark)) ∧
        packet.now < opening.now + tftFragmentLifetimeNs ∧
        ∃ identity, opening.classifier.map identityWords = some identity ∧
          packet.classifier.map identityWords = some identity) ∧
    (∀ earlier opening later rest mark, packets = earlier ++
      opening :: (later ++ rest) → (new.run earlier).Opens opening mark →
      (∀ packet ∈ later, packet.now < opening.now + tftFragmentLifetimeNs) →
      ∀ fragment ∈ chosen opening.key ((new.run earlier).answers (opening :: later)),
        (∀ other ∈ chosen opening.key ((new.run earlier).answers (opening :: later)),
          ((fragment.start, fragment.stop) = (other.start, other.stop) ∨
            fragment.stop ≤ other.start ∨ other.stop ≤ fragment.start) ∧
          (other.more = false → fragment.stop ≤ other.stop)) ∧
        ∀ parsed stop, opening.first = some (parsed, mark) → parsed.udpLength = some stop →
          fragment.stop ≤ stop ∧ (fragment.more = false → fragment.stop = stop)) ∧
    (∀ earlier packet later, packets = earlier ++ packet :: later →
      (∀ key affinity now, packet.now ≤ now →
        (new.run earlier).remembered now key = some affinity →
        ∃ changed, ((new.run earlier).apply packet).1.remembered now key = some changed ∧
          affinity.Same changed) ∧
      ∀ affinity, (new.run earlier).remembered packet.now packet.key = some affinity →
        affinity.poisoned = true →
        ((new.run earlier).apply packet).2 = .malformed ∨
          ((new.run earlier).apply packet).2 = .drop) ∧
    ∀ key, (∀ packet, (packet, .capacity) ∈ new.answers packets → packet.key ≠ key) →
      (new.answers packets).filter (fun answer => decide (answer.1.key = key)) =
        new.answers (packets.filter fun packet => decide (packet.key = key)) := by
  have htimed : Timed 0 packets := pairwise_cons.mpr ⟨fun _ _ => Nat.zero_le _, htimes⟩
  refine ⟨?_, ?_, ?_, ?_, ?_, ?_⟩
  · intro now hnow
    exact (sound_new.run htimed (Nat.zero_le _) hnow).distinct
  · intro index
    have hbound : ∀ packet ∈ packets, packet.now ≤ (packets.map TftFragmentPacket.now).sum :=
      fun packet hpacket => le_sum_of_mem (mem_map_of_mem hpacket)
    exact ((sound_new.run htimed (Nat.zero_le _) hbound).sized index).rangeCount
  · rintro earlier packet later mark rfl hselected
    have hsound := sound_run_new htimed
    cases hremembered : (new.run earlier).remembered packet.now packet.key with
    | some affinity =>
      rw [(hsound.apply_remembered hremembered).2] at hselected
      obtain ⟨rfl, hidentity⟩ := of_selected hselected
      obtain ⟨before, opening, between, rfl, hkey, hopened⟩ :=
        exists_opened htimed.left htimed.right.2.1 hremembered
      have hbefore : (new.run before).Sound opening.now := by
        rw [append_assoc, cons_append] at htimed
        exact sound_run_new htimed
      refine ⟨before, opening, between ++ [packet], by simp, hkey, hopened.opens,
        hbefore.first_of_opens hopened.opens, ?_, affinity.identity, hopened.identity, hidentity⟩
      rw [← hopened.expiresAt]
      exact hsound.live_of_remembered hremembered
    | none =>
      obtain ⟨opening, hopening, rfl, _⟩ := hsound.opens ⟨hremembered, hselected⟩
      obtain ⟨classifier, _, _, hclassifier, _⟩ := TftFragmentPacket.opening_eq_ok hopening
      refine ⟨earlier, packet, [], rfl, rfl, ⟨hremembered, hselected⟩,
        hsound.first_of_opens ⟨hremembered, hselected⟩, by simp [tftFragmentLifetimeNs],
        identityWords classifier, ?_, ?_⟩ <;> rw [hclassifier] <;> rfl
  · rintro earlier opening later rest mark rfl hopens hlive fragment hfragment
    exact (sound_run_new htimed).chosen_fit hopens htimed.right.2.2.left hlive hfragment
  · rintro earlier packet later rfl
    have hsound := sound_run_new htimed
    refine ⟨fun key affinity now hnow hremembered => hsound.keeps_later hnow hremembered, ?_⟩
    intro affinity hremembered hpoisoned
    rw [(hsound.apply_remembered hremembered).2]
    exact accept_of_poisoned hpoisoned
  · intro key hroom
    have hkeys : ∀ packet ∈ packets.filter (fun packet => decide (packet.key = key)),
        packet.key = key :=
      fun packet hpacket => of_decide_eq_true (mem_filter.mp hpacket).2
    have halone : Timed 0 (packets.filter fun packet => decide (packet.key = key)) :=
      htimed.sublist ((filter_sublist.map _).cons_cons _)
    rw [sound_new.answers_of htimed hroom, ← filter_answers hkeys,
      sound_new.answers_of halone, filter_filter]
    · simp
    · intro packet hcapacity
      exact absurd hcapacity (sound_new.room_of_alone halone
        (fun other _ => remembered_new 0 other) hkeys packet)

/-- The first eight bytes of a UDP datagram of 24, and then the rest. -/
def datagramOfTwo : List TftFragmentPacket :=
  let zeros := fun width => List.Vector.replicate width (0 : Byte)
  let classifier : TftClassifierMeta :=
    ⟨1, 4, 0, 0, zeros 16, zeros 8, zeros 8, zeros 2, zeros 32, zeros 2⟩
  let parsed : TftClassifierIpv4Packet :=
    ⟨zeros 4, zeros 4, zeros 2, zeros 2, zeros 4, ⟨[0, 24], rfl⟩, 17, 0, 3, 0⟩
  [⟨zeros 20, TftIpv4Fragment.fromHeader 0x45 28 28 0x2000, some classifier, some (parsed, 7), 5⟩,
    ⟨zeros 20, TftIpv4Fragment.fromHeader 0x45 36 36 1, some classifier, none, 6⟩]

theorem fragments_follow_first_of_two :
    (TftFragmentBucket.new.answers datagramOfTwo).map Prod.snd = [.selected 7, .selected 7] ∧
      ∀ index, ((TftFragmentBucket.new.run datagramOfTwo).entries index).rangeCount ≤
        tftFragmentMaxRanges :=
  ⟨by decide +kernel, (fragments_follow_first _ (by decide)).2.1⟩

end PacketCore.Gtpu
