import PacketCore.Gtpu.AffinityBucket

/-!
# Runs of a fragment bucket

A datagram is remembered from the first fragment that opened it to its deadline.
In that time its fragments carry the mark of the first one and fit together.
-/

namespace PacketCore.Gtpu

open List

/-! ## Fragments that fit together -/

variable {mark : ℕ} {opening : TftFragmentOpening} {rest : List TftFragmentPacket}

namespace Affinity

/-- The recorded ranges do not overlap, and end where the datagram ends. -/
structure Consistent (affinity : Affinity) : Prop where
  disjoint : affinity.ranges.Pairwise fun left right => left.2 ≤ right.1 ∨ right.2 ≤ left.1
  first : (0, affinity.firstEnd) ∈ affinity.ranges
  final : affinity.finalEnd ≠ 0 → ∀ range ∈ affinity.ranges, range.2 ≤ affinity.finalEnd
  udp : ∀ stop, affinity.udpEnd = some stop →
    (∀ range ∈ affinity.ranges, range.2 ≤ stop) ∧ (affinity.finalEnd ≠ 0 → affinity.finalEnd = stop)

/-- The fragment was recorded. -/
structure Holds (affinity : Affinity) (fragment : TftIpv4Fragment) : Prop where
  range : (fragment.start, fragment.stop) ∈ affinity.ranges
  final : fragment.more = false → affinity.finalEnd = fragment.stop

/-- Everything that the first fragment decided is the same. -/
structure Same (affinity changed : Affinity) : Prop where
  identity : changed.identity = affinity.identity
  firstPacket : changed.firstPacket = affinity.firstPacket
  expiresAt : changed.expiresAt = affinity.expiresAt
  mark : changed.mark = affinity.mark
  poisoned : affinity.poisoned = true → changed.poisoned = true

variable {affinity changed : Affinity} {fragment other : TftIpv4Fragment}
  {packet : TftFragmentPacket}

theorem Same.refl (affinity : Affinity) : affinity.Same affinity := ⟨rfl, rfl, rfl, rfl, id⟩

theorem Same.trans {last : Affinity} (hfirst : affinity.Same changed)
    (hsecond : changed.Same last) : affinity.Same last :=
  ⟨hsecond.identity.trans hfirst.identity, hsecond.firstPacket.trans hfirst.firstPacket,
    hsecond.expiresAt.trans hfirst.expiresAt, hsecond.mark.trans hfirst.mark,
    fun hpoisoned => hsecond.poisoned (hfirst.poisoned hpoisoned)⟩

/-- The outcomes of a packet of a remembered datagram. -/
inductive Accepts (affinity : Affinity) (packet : TftFragmentPacket) :
    Affinity × TftFragmentDisposition → Prop
  | refused {disposition} (hrefused : disposition = .malformed ∨ disposition = .drop) :
      Accepts affinity packet (affinity.poison, disposition)
  | repeated {fragment classifier} (hfragment : packet.fragment = some fragment)
      (hclassifier : packet.classifier = some classifier)
      (hidentity : identityWords classifier = affinity.identity)
      (hclean : affinity.poisoned = false) (hstart : fragment.start = 0)
      (hstop : fragment.stop = affinity.firstEnd) :
      Accepts affinity packet (affinity, .selected affinity.mark)
  | recorded {fragment classifier} (hfragment : packet.fragment = some fragment)
      (hclassifier : packet.classifier = some classifier)
      (hidentity : identityWords classifier = affinity.identity)
      (hclean : affinity.poisoned = false) (hstart : fragment.start ≠ 0)
      (hfits : affinity.Fits fragment) :
      Accepts affinity packet (affinity.record fragment, .selected affinity.mark)

theorem accepts (affinity : Affinity) (packet : TftFragmentPacket) :
    Accepts affinity packet (affinity.accept packet) := by
  unfold accept
  split
  · exact .refused (.inl rfl)
  · exact .refused (.inr rfl)
  · rename_i fragment classifier hfragment hclassifier
    split
    · exact .refused (.inr rfl)
    · rename_i hkept
      push Not at hkept
      obtain ⟨_, hclean, hidentity⟩ := hkept
      have hpoisoned : affinity.poisoned = false := by simpa using hclean
      split
      · rename_i hstart
        split
        · rename_i hrepeats
          obtain ⟨_, _, _, hstop, _⟩ := hrepeats
          exact .repeated hfragment hclassifier hidentity hpoisoned hstart hstop
        · exact .refused (.inr rfl)
      · rename_i hstart
        split
        · rename_i hfits
          exact .recorded hfragment hclassifier hidentity hpoisoned hstart hfits
        · exact .refused (.inr rfl)

theorem Consistent.poison (hconsistent : affinity.Consistent) : affinity.poison.Consistent :=
  { hconsistent with }

theorem Consistent.record (hconsistent : affinity.Consistent)
    (hfits : affinity.Fits fragment) : (affinity.record fragment).Consistent := by
  have hranges {bound : ℕ} (hold : ∀ range ∈ affinity.ranges, range.2 ≤ bound)
      (hnew : fragment.stop ≤ bound) :
      ∀ range ∈ affinity.ranges ++ [(fragment.start, fragment.stop)], range.2 ≤ bound :=
    forall_mem_append.mpr ⟨hold, forall_mem_singleton.mpr hnew⟩
  refine ⟨?_, mem_append_left _ hconsistent.first, ?_, ?_⟩
  · refine pairwise_append.mpr ⟨hconsistent.disjoint, pairwise_singleton _ _, ?_⟩
    intro range hrange _ hnew
    rw [mem_singleton.mp hnew]
    exact hfits.apart _ hrange
  · intro hfinal
    unfold Affinity.record at hfinal ⊢
    cases hmore : fragment.more with
    | true =>
      simp only [hmore] at hfinal ⊢
      exact hranges (hconsistent.final hfinal) (hfits.final hfinal).1
    | false => exact hranges (hfits.last hmore) le_rfl
  · intro stop hstop
    obtain ⟨hold, hend⟩ := hconsistent.udp _ hstop
    have hudp := hfits.udp _ hstop
    unfold Affinity.record
    cases hmore : fragment.more with
    | true =>
      rw [hmore] at hudp
      exact ⟨hranges hold hudp.le, by simpa using hend⟩
    | false =>
      rw [hmore, if_neg (by decide)] at hudp
      exact ⟨hranges hold hudp.le, fun _ => by simpa using hudp⟩

/-- What was recorded stays recorded; a second final fragment does not fit. -/
theorem Holds.record (hholds : affinity.Holds other) (hfits : affinity.Fits fragment) :
    (affinity.record fragment).Holds other := by
  refine ⟨mem_append_left _ hholds.range, ?_⟩
  intro hlast
  have hend := hholds.final hlast
  have hne : affinity.finalEnd ≠ 0 := by
    have hlt := other.start_lt
    omega
  unfold Affinity.record
  rw [(hfits.final hne).2, if_pos rfl]
  exact hend

theorem holds_record : (affinity.record fragment).Holds fragment := by
  refine ⟨mem_append_right _ mem_cons_self, ?_⟩
  intro hlast
  unfold Affinity.record
  rw [hlast]
  rfl

/-- No packet changes what the first fragment decided, or clears poison. -/
theorem same_accept (affinity : Affinity) (packet : TftFragmentPacket) :
    affinity.Same (affinity.accept packet).1 := by
  have haccepts := affinity.accepts packet
  generalize affinity.accept packet = result at haccepts ⊢
  cases haccepts with
  | refused => exact ⟨rfl, rfl, rfl, rfl, fun _ => rfl⟩
  | repeated => exact .refl _
  | recorded => exact ⟨rfl, rfl, rfl, rfl, id⟩

theorem accept_of_poisoned (hpoisoned : affinity.poisoned = true) :
    (affinity.accept packet).2 = .malformed ∨ (affinity.accept packet).2 = .drop := by
  have haccepts := affinity.accepts packet
  generalize affinity.accept packet = result at haccepts ⊢
  cases haccepts with
  | refused hrefused => exact hrefused
  | repeated _ _ _ hclean | recorded _ _ _ hclean => rw [hpoisoned] at hclean; cases hclean

/-- A selection carries the mark and the classifier of the first fragment. -/
theorem of_selected (hselected : (affinity.accept packet).2 = .selected mark) :
    mark = affinity.mark ∧ packet.classifier.map identityWords = some affinity.identity := by
  have haccepts := affinity.accepts packet
  generalize affinity.accept packet = result at haccepts hselected
  cases haccepts with
  | refused hrefused =>
    subst hselected
    rcases hrefused with hrefused | hrefused <;> cases hrefused
  | repeated _ hclassifier hidentity | recorded _ hclassifier hidentity =>
    cases hselected
    rw [hclassifier, ← hidentity]
    exact ⟨rfl, rfl⟩

/-- One packet keeps a datagram consistent, and what it selects is recorded. -/
theorem Consistent.accept (hconsistent : affinity.Consistent) (packet : TftFragmentPacket) :
    (affinity.accept packet).1.Consistent ∧
      (∀ fragment, affinity.Holds fragment → (affinity.accept packet).1.Holds fragment) ∧
      ∀ mark, (affinity.accept packet).2 = .selected mark →
        ∀ fragment, packet.fragment = some fragment →
          (affinity.accept packet).1.Holds fragment := by
  have haccepts := affinity.accepts packet
  generalize affinity.accept packet = result at haccepts ⊢
  cases haccepts with
  | refused hrefused =>
    refine ⟨hconsistent.poison, fun fragment hholds => ⟨hholds.range, hholds.final⟩, ?_⟩
    rintro mark rfl
    rcases hrefused with hrefused | hrefused <;> cases hrefused
  | @repeated fragment _ hfragment _ _ _ hstart hstop =>
    refine ⟨hconsistent, fun _ => id, ?_⟩
    intro _ _ found hfound
    rw [hfragment] at hfound
    cases hfound
    refine ⟨?_, ?_⟩
    · rw [hstart, hstop]
      exact hconsistent.first
    · intro hlast
      rw [fragment.more_of_first hstart] at hlast
      cases hlast
  | @recorded fragment _ hfragment _ _ _ _ hfits =>
    refine ⟨hconsistent.record hfits, fun _ hholds => hholds.record hfits, ?_⟩
    intro _ _ found hfound
    rw [hfragment] at hfound
    cases hfound
    exact holds_record

theorem udpEnd_ofOpening {parsed : TftClassifierIpv4Packet}
    (hpacket : opening.firstPacket = packetWords parsed) :
    (ofOpening opening).udpEnd = parsed.udpLength := by
  have hword : (packetWords parsed).getD 4 0 = parsed.fragmentPacketWord 4 := rfl
  obtain ⟨hlength, hprotocol⟩ := parsed.fragmentPacketWord_transport
  unfold udpEnd TftClassifierIpv4Packet.udpLength
  rw [show (ofOpening opening).firstPacket = packetWords parsed from hpacket,
    hword, hlength, hprotocol]
  simp only [Fin.ext_iff]
  rfl

/-- The first fragment opens a consistent datagram. -/
theorem consistent_ofOpening (hopening : packet.opening = .ok opening) :
    (ofOpening opening).Consistent ∧ ∃ fragment,
      packet.fragment = some fragment ∧ (ofOpening opening).Holds fragment := by
  obtain ⟨_, fragment, _, _, hfragment, hstart, _, hudp, _, _, hpacket, _, hend, _⟩ :=
    TftFragmentPacket.opening_eq_ok hopening
  refine ⟨⟨pairwise_singleton _ _, mem_singleton.mpr rfl,
    fun hfinal => absurd rfl hfinal, ?_⟩, fragment, hfragment, ?_, ?_⟩
  · intro _ hstop
    rw [udpEnd_ofOpening hpacket] at hstop
    refine ⟨fun range hrange => ?_, fun hfinal => absurd rfl hfinal⟩
    rw [mem_singleton.mp hrange]
    exact hend.trans_le (hudp _ hstop).le
  · rw [hstart, ← hend]
    exact mem_singleton.mpr rfl
  · intro hlast
    rw [fragment.more_of_first hstart] at hlast
    cases hlast

/-- Two recorded fragments are the same range or apart. -/
theorem Consistent.apart (hconsistent : affinity.Consistent)
    (hfragment : affinity.Holds fragment) (hother : affinity.Holds other) :
    (fragment.start, fragment.stop) = (other.start, other.stop) ∨
      fragment.stop ≤ other.start ∨ other.stop ≤ fragment.start := by
  have : Std.Symm fun left right : ℕ × ℕ => left.2 ≤ right.1 ∨ right.2 ≤ left.1 :=
    ⟨fun _ _ => Or.symm⟩
  by_cases hsame : (fragment.start, fragment.stop) = (other.start, other.stop)
  · exact .inl hsame
  · exact .inr (hconsistent.disjoint.forall hfragment.range hother.range hsame)

/-- No recorded fragment ends beyond the final one. -/
theorem Consistent.within (hconsistent : affinity.Consistent) (hfragment : affinity.Holds fragment)
    (hother : affinity.Holds other) (hlast : other.more = false) : fragment.stop ≤ other.stop := by
  have hend := hother.final hlast
  have hlt := other.start_lt
  rw [← hend]
  exact hconsistent.final (by omega) _ hfragment.range

end Affinity

/-! ## Runs -/

theorem TftFragmentPacket.opening_eq_error {packet : TftFragmentPacket}
    {disposition : TftFragmentDisposition} (hopening : packet.opening = .error disposition) :
    disposition = .absent ∨ disposition = .malformed ∨ disposition = .drop := by
  unfold TftFragmentPacket.opening at hopening
  repeat' split at hopening
  all_goals cases hopening
  all_goals decide

/-- Only a full bucket answers with its capacity. -/
theorem Affinity.step_ne_capacity (current : Option Affinity)
    (packet : TftFragmentPacket) : (Affinity.step current packet).2 ≠ .capacity := by
  cases current with
  | some affinity =>
    have haccepts := affinity.accepts packet
    rw [Affinity.step]
    generalize affinity.accept packet = result at haccepts ⊢
    cases haccepts with
    | refused hrefused => rcases hrefused with rfl | rfl <;> simp
    | repeated | recorded => simp
  | none =>
    rw [Affinity.step]
    cases hopening : packet.opening with
    | error =>
      rcases TftFragmentPacket.opening_eq_error hopening with rfl | rfl | rfl <;> simp
    | ok => simp

namespace TftFragmentBucket

def run (bucket : TftFragmentBucket) (packets : List TftFragmentPacket) : TftFragmentBucket :=
  packets.foldl (fun bucket packet => (bucket.apply packet).1) bucket

/-- Each packet of a run with its answer. -/
def answers (bucket : TftFragmentBucket) :
    List TftFragmentPacket → List (TftFragmentPacket × TftFragmentDisposition)
  | [] => []
  | packet :: packets =>
    (packet, (bucket.apply packet).2) :: answers (bucket.apply packet).1 packets

/-- The packet opens a datagram that the bucket does not remember. -/
def Opens (bucket : TftFragmentBucket) (packet : TftFragmentPacket) (mark : ℕ) : Prop :=
  bucket.remembered packet.now packet.key = none ∧ (bucket.apply packet).2 = .selected mark

/-- Times do not go back, from `clock` on. -/
def Timed (clock : ℕ) (packets : List TftFragmentPacket) : Prop :=
  (clock :: packets.map TftFragmentPacket.now).Pairwise (· ≤ ·)

variable {bucket : TftFragmentBucket} {packet : TftFragmentPacket}
  {packets : List TftFragmentPacket} {clock now : ℕ} {key : TftFragmentKey} {affinity : Affinity}

theorem Timed.split (htimed : Timed clock (packet :: packets)) :
    clock ≤ packet.now ∧ Timed packet.now packets := by
  rw [Timed, pairwise_cons] at htimed
  exact ⟨htimed.1 _ mem_cons_self, htimed.2⟩

theorem Sound.run (hsound : bucket.Sound clock) (htimed : Timed clock packets)
    (hclock : clock ≤ now) (hnow : ∀ packet ∈ packets, packet.now ≤ now) :
    (bucket.run packets).Sound now := by
  induction packets generalizing bucket clock with
  | nil => exact hsound.mono hclock
  | cons _ _ ih =>
    obtain ⟨hpacket, hrest⟩ := htimed.split
    obtain ⟨hfirst, hothers⟩ := forall_mem_cons.mp hnow
    exact ih (hsound.mono hpacket).apply.1 hrest hfirst hothers

theorem Timed.left (htimed : Timed clock (packets ++ rest)) : Timed clock packets := by
  rw [Timed, map_append] at htimed
  exact (pairwise_append.mp htimed).1

theorem Timed.right (htimed : Timed clock (packets ++ packet :: rest)) :
    clock ≤ packet.now ∧ (∀ other ∈ packets, other.now ≤ packet.now) ∧ Timed packet.now rest := by
  rw [Timed, map_append, pairwise_cons, pairwise_append] at htimed
  exact ⟨htimed.1 _ (by simp), fun other hother => htimed.2.2.2 _ (mem_map_of_mem hother) _
    mem_cons_self, htimed.2.2.1⟩

/-- A packet of a remembered datagram is one for its affinity. -/
theorem Sound.apply_remembered (hsound : bucket.Sound packet.now)
    (hremembered : bucket.remembered packet.now packet.key = some affinity) :
    (bucket.apply packet).1.remembered packet.now packet.key = some (affinity.accept packet).1 ∧
      (bucket.apply packet).2 = (affinity.accept packet).2 := by
  obtain ⟨_, _, hown | ⟨_, hnone, _⟩⟩ := hsound.apply
  · rw [hremembered] at hown
    exact Prod.mk.inj hown
  · rw [hremembered] at hnone
    cases hnone

/-- A packet leaves every remembered datagram as it was opened. -/
theorem Sound.keeps (hsound : bucket.Sound packet.now)
    (hremembered : bucket.remembered packet.now key = some affinity) :
    ∃ changed, (bucket.apply packet).1.remembered packet.now key = some changed ∧
      affinity.Same changed := by
  by_cases hkey : key = packet.key
  · subst hkey
    exact ⟨_, (hsound.apply_remembered hremembered).1, affinity.same_accept packet⟩
  · obtain ⟨_, hothers, _⟩ := hsound.apply
    exact ⟨affinity, (hothers _ hkey).trans hremembered, .refl _⟩

theorem Sound.keeps_later (hsound : bucket.Sound packet.now) (hnow : packet.now ≤ now)
    (hremembered : bucket.remembered now key = some affinity) :
    ∃ changed, (bucket.apply packet).1.remembered now key = some changed ∧
      affinity.Same changed := by
  rw [hsound.remembered_later hnow, Option.filter_eq_some_iff] at hremembered
  obtain ⟨hbefore, hlive⟩ := hremembered
  obtain ⟨changed, hafter, hsame⟩ := hsound.keeps hbefore
  refine ⟨changed, ?_, hsame⟩
  rw [hsound.apply.1.remembered_later hnow, hafter]
  exact Option.filter_eq_some_iff.mpr ⟨rfl, hsame.expiresAt.symm ▸ hlive⟩

/-- The fragments that were selected for a key. -/
def chosen (key : TftFragmentKey)
    (answered : List (TftFragmentPacket × TftFragmentDisposition)) : List TftIpv4Fragment :=
  answered.filterMap fun answer =>
    match answer.2 with
    | .selected _ => if answer.1.key = key then answer.1.fragment else none
    | _ => none

theorem of_mem_chosen {disposition : TftFragmentDisposition} {fragment : TftIpv4Fragment}
    (hmem : fragment ∈ chosen key [(packet, disposition)]) :
    packet.key = key ∧ packet.fragment = some fragment ∧ ∃ mark, disposition = .selected mark := by
  obtain ⟨_, hanswer, hfragment⟩ := mem_filterMap.mp hmem
  rw [mem_singleton.mp hanswer] at hfragment
  cases disposition with
  | selected mark =>
    obtain ⟨hkey, hsome⟩ := Option.ite_none_right_eq_some.mp hfragment
    exact ⟨hkey, hsome, mark, rfl⟩
  | absent | malformed | drop | capacity => cases hfragment

theorem chosen_cons (key : TftFragmentKey) (answer : TftFragmentPacket × TftFragmentDisposition)
    (answered : List (TftFragmentPacket × TftFragmentDisposition)) :
    chosen key (answer :: answered) = chosen key [answer] ++ chosen key answered := by
  rw [chosen, chosen, chosen, ← filterMap_append]
  rfl

/-- The bucket remembers a datagram with these fragments. -/
structure Follows (bucket : TftFragmentBucket) (clock : ℕ) (key : TftFragmentKey)
    (affinity : Affinity) (fragments : List TftIpv4Fragment) : Prop where
  sound : bucket.Sound clock
  remembered : bucket.remembered clock key = some affinity
  consistent : affinity.Consistent
  holds : ∀ fragment ∈ fragments, affinity.Holds fragment

variable {fragments : List TftIpv4Fragment}

theorem Follows.mono (hfollows : Follows bucket clock key affinity fragments) (hnow : clock ≤ now)
    (hlive : now < affinity.expiresAt) : Follows bucket now key affinity fragments where
  sound := hfollows.sound.mono hnow
  remembered := by
    rw [hfollows.sound.remembered_later hnow, hfollows.remembered]
    exact Option.filter_eq_some_iff.mpr ⟨rfl, decide_eq_true hlive⟩
  consistent := hfollows.consistent
  holds := hfollows.holds

/-- One packet while the datagram is remembered. -/
theorem Follows.step (hfollows : Follows bucket packet.now key affinity fragments) :
    ∃ changed, Follows (bucket.apply packet).1 packet.now key changed
        (fragments ++ chosen key [(packet, (bucket.apply packet).2)]) ∧
      affinity.Same changed ∧
      (packet.key = key → ∀ mark, (bucket.apply packet).2 = .selected mark →
        mark = affinity.mark ∧ packet.classifier.map identityWords = some affinity.identity) := by
  obtain ⟨hnext, hothers, _⟩ := hfollows.sound.apply
  by_cases hkey : packet.key = key
  · subst hkey
    obtain ⟨hremembered, hanswer⟩ := hfollows.sound.apply_remembered hfollows.remembered
    obtain ⟨hconsistent, hkept, hselected⟩ := hfollows.consistent.accept _
    refine ⟨_, ⟨hnext, hremembered, hconsistent, ?_⟩, affinity.same_accept packet, ?_⟩
    · refine forall_mem_append.mpr ⟨fun _ hold => hkept _ (hfollows.holds _ hold), ?_⟩
      intro fragment hnew
      obtain ⟨_, hfound, _, hmark⟩ := of_mem_chosen hnew
      exact hselected _ (hanswer ▸ hmark) _ hfound
    · intro _ mark hmark
      exact Affinity.of_selected (hanswer ▸ hmark)
  · refine ⟨affinity, ⟨hnext, ?_, hfollows.consistent, ?_⟩, .refl _, fun h => absurd h hkey⟩
    · exact (hothers _ (Ne.symm hkey)).trans hfollows.remembered
    · refine forall_mem_append.mpr ⟨hfollows.holds, fun fragment hnew => ?_⟩
      exact absurd (of_mem_chosen hnew).1 hkey

/-- A whole run within the lifetime. -/
theorem Follows.run (hfollows : Follows bucket clock key affinity fragments)
    (htimed : Timed clock packets) (hlive : ∀ packet ∈ packets, packet.now < affinity.expiresAt) :
    ∃ last time, Follows (bucket.run packets) time key last
        (fragments ++ chosen key (bucket.answers packets)) ∧
      affinity.Same last ∧
      ∀ packet mark, (packet, .selected mark) ∈ bucket.answers packets → packet.key = key →
        mark = affinity.mark ∧ packet.classifier.map identityWords = some affinity.identity := by
  induction packets generalizing bucket clock affinity fragments with
  | nil =>
    refine ⟨affinity, clock, ?_, .refl _, nofun⟩
    rwa [show chosen key (bucket.answers []) = [] from rfl, append_nil]
  | cons _ _ ih =>
    obtain ⟨hnow, hrest⟩ := htimed.split
    obtain ⟨_, hnext, hsame, hselected⟩ :=
      (hfollows.mono hnow (hlive _ mem_cons_self)).step
    obtain ⟨last, time, hlast, hlater, hanswers⟩ := ih hnext hrest fun other hother =>
      hsame.expiresAt.symm ▸ hlive _ (mem_cons_of_mem _ hother)
    refine ⟨last, time, ?_, hsame.trans hlater, ?_⟩
    · rw [append_assoc] at hlast
      rwa [answers, chosen_cons]
    · intro other mark hmem hkey
      rcases mem_cons.mp hmem with hhead | hrestMem
      · obtain ⟨rfl, hmark⟩ := Prod.mk.inj hhead
        exact hselected hkey _ hmark.symm
      · obtain ⟨hmarks, hidentity⟩ := hanswers _ _ hrestMem hkey
        exact ⟨hmarks.trans hsame.mark, hidentity.trans (by rw [hsame.identity])⟩

/-- The first fragment of a datagram starts a life. -/
theorem Sound.opens (hsound : bucket.Sound packet.now) (hopens : bucket.Opens packet mark) :
    ∃ opening, packet.opening = .ok opening ∧ opening.mark = mark ∧
      Follows (bucket.apply packet).1 packet.now packet.key (.ofOpening opening)
        (chosen packet.key [(packet, (bucket.apply packet).2)]) := by
  obtain ⟨hnone, hselected⟩ := hopens
  obtain ⟨hnext, _, hown | ⟨hcapacity, _⟩⟩ := hsound.apply
  · rw [hnone, Affinity.step] at hown
    cases hopening : packet.opening with
    | error =>
      rw [hopening] at hown
      obtain ⟨_, hanswer⟩ := Prod.mk.inj hown
      rw [hanswer] at hselected
      rcases TftFragmentPacket.opening_eq_error hopening with rfl | rfl | rfl <;> cases hselected
    | ok opening =>
      rw [hopening] at hown
      obtain ⟨hremembered, hanswer⟩ := Prod.mk.inj hown
      obtain ⟨hconsistent, _, hfragment, hholds⟩ := Affinity.consistent_ofOpening hopening
      refine ⟨opening, rfl, ?_, hnext, hremembered, hconsistent, ?_⟩
      · rw [hanswer] at hselected
        exact TftFragmentDisposition.selected.inj hselected
      · intro _ hother
        cases hfragment.symm.trans (of_mem_chosen hother).2.1
        exact hholds
  · rw [hcapacity] at hselected
    cases hselected

end TftFragmentBucket

end PacketCore.Gtpu
