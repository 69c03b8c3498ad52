import PacketCore.Gtpu.BucketRuns
import PacketCore.Gtpu.FragmentBudget

/-!
# Identifications do not repeat within a lifetime

The sliding count keeps every admission of the last 255 seconds of a tracked
destination, so its sequence cannot come round in that time.  A destination is
only forgotten when its last use is that long ago.
-/

namespace PacketCore.Gtpu

open List

/-! ## What the bins count -/

theorem countP_split {α : Type*} {whole left right : α → Bool} {items : List α}
    (hsplit : ∀ item ∈ items, (whole item).toNat = (left item).toNat + (right item).toNat) :
    items.countP whole = items.countP left + items.countP right := by
  induction items with
  | nil => rfl
  | cons _ _ ih =>
    have hitem := hsplit _ mem_cons_self
    have hrest := ih fun other hother => hsplit _ (mem_cons_of_mem _ hother)
    have hone : ∀ flag : Bool, (if flag = true then 1 else 0) = flag.toNat := by decide
    rw [countP_cons, countP_cons, countP_cons, hone, hone, hone]
    omega

/-- An admission in `second` that is counted until `upto`. -/
def keptSecond (upto second : ℕ) : Bool := decide (upto < second + 256)

namespace FragmentLifetimeBudget

/-- The bins and the total count the seconds of the last 256 up to `upto`. -/
structure Retains (budget : FragmentLifetimeBudget) (upto : ℕ) (seconds : List ℕ) : Prop where
  bounded : ∀ second ∈ seconds, second ≤ upto
  bins : ∀ bin, budget.bins bin =
    seconds.countP fun second => decide (second % 256 = bin.val) && keptSecond upto second
  total : budget.total = seconds.countP (keptSecond upto)

variable {budget : FragmentLifetimeBudget} {upto : ℕ} {seconds : List ℕ}

theorem retains_new (now : ℕ) : (new now).Retains 0 [] :=
  ⟨nofun, fun _ => rfl, rfl⟩

/-- One more second drops exactly the bin that it reuses. -/
theorem Retains.expireBin (hretains : budget.Retains upto seconds) :
    (budget.expireBin (upto + 1)).Retains (upto + 1) seconds where
  bounded := fun second hsecond => (hretains.bounded _ hsecond).trans (Nat.le_succ _)
  bins := by
    intro bin
    unfold FragmentLifetimeBudget.expireBin
    by_cases hbin : bin = Fin.ofNat 256 (upto + 1)
    · subst hbin
      simp only [Function.update_self]
      symm
      rw [countP_eq_zero]
      intro second hsecond
      have hle := hretains.bounded _ hsecond
      simp [keptSecond]
      omega
    · simp only [Function.update_of_ne hbin, hretains.bins]
      apply countP_congr
      intro second hsecond
      have hne : bin.val ≠ (upto + 1) % 256 := fun heq => hbin (Fin.ext heq)
      simp [keptSecond]
      omega
  total := by
    have hsplit : seconds.countP (keptSecond upto) =
        (seconds.countP fun second => decide (second % 256 = (Fin.ofNat 256 (upto + 1)).val) &&
          keptSecond upto second) + seconds.countP (keptSecond (upto + 1)) := by
      apply countP_split
      intro second hsecond
      have hle := hretains.bounded _ hsecond
      simp only [keptSecond]
      by_cases h1 : upto < second + 256 <;> by_cases h2 : upto + 1 < second + 256 <;>
        by_cases h3 : second % 256 = (upto + 1) % 256 <;> simp [h2, h3] <;> omega
    have hbin := hretains.bins (Fin.ofNat 256 (upto + 1))
    have htotal := hretains.total
    simp only [FragmentLifetimeBudget.expireBin]
    omega

theorem Retains.expireBins (hretains : budget.Retains upto seconds) (count : ℕ) :
    ((range' (upto + 1) count).foldl FragmentLifetimeBudget.expireBin budget).Retains
      (upto + count) seconds := by
  induction count generalizing budget upto with
  | zero => exact hretains
  | succ count ih =>
    rw [range'_succ, foldl_cons, show upto + (count + 1) = upto + 1 + count by omega]
    exact ih hretains.expireBin

theorem Retains.expire {second : ℕ} (hretains : budget.Retains budget.second seconds)
    (hsecond : budget.second ≤ second) : (budget.expire second).Retains second seconds := by
  unfold FragmentLifetimeBudget.expire
  split
  · have hnone : ∀ earlier ∈ seconds, keptSecond second earlier = false := by
      intro earlier hearlier
      have hle := hretains.bounded _ hearlier
      simp [keptSecond]
      omega
    refine ⟨fun earlier hearlier => (hretains.bounded _ hearlier).trans hsecond, ?_, ?_⟩
    · intro _
      symm
      rw [countP_eq_zero]
      intro earlier hearlier
      simp [hnone _ hearlier]
    · symm
      rw [countP_eq_zero]
      intro earlier hearlier
      simp [hnone _ hearlier]
  · have hexpired := hretains.expireBins (second - budget.second)
    rw [Nat.add_sub_of_le hsecond] at hexpired
    exact { hexpired with }

theorem second_expire (budget : FragmentLifetimeBudget) (second : ℕ) :
    (budget.expire second).second = second := by
  unfold expire
  split <;> rfl

theorem origin_expireBins (budget : FragmentLifetimeBudget) (seconds : List ℕ) :
    (seconds.foldl expireBin budget).origin = budget.origin := by
  induction seconds generalizing budget with
  | nil => rfl
  | cons _ _ ih => exact ih _

theorem origin_expire (budget : FragmentLifetimeBudget) (second : ℕ) :
    (budget.expire second).origin = budget.origin := by
  unfold expire
  split
  · rfl
  · exact origin_expireBins _ _

theorem origin_admission (budget : FragmentLifetimeBudget) (now : ℕ) :
    (budget.admission now).2.origin = budget.origin := by
  unfold admission
  simp only
  split <;> exact budget.origin_expire _

/-- An admission is counted if fewer than 65,535 are. -/
theorem Retains.admission {now : ℕ} (hretains : budget.Retains budget.second seconds)
    (hnow : budget.second ≤ (now - budget.origin) / 10 ^ 9) :
    (budget.admission now).2.second = (now - budget.origin) / 10 ^ 9 ∧
      if (budget.admission now).1 then
        seconds.countP (keptSecond ((now - budget.origin) / 10 ^ 9)) < u16Max ∧
          (budget.admission now).2.Retains (budget.admission now).2.second
            ((now - budget.origin) / 10 ^ 9 :: seconds)
      else (budget.admission now).2.Retains (budget.admission now).2.second seconds := by
  have hexpired := hretains.expire hnow
  unfold FragmentLifetimeBudget.admission
  rw [max_eq_left hnow]
  generalize (now - budget.origin) / 10 ^ 9 = second at hexpired
  by_cases hfull : u16Max ≤ (budget.expire second).total
  · simp only [if_pos hfull, second_expire, true_and]
    exact hexpired
  · simp only [if_neg hfull, second_expire, true_and]
    have htotal := hexpired.total
    refine ⟨by omega, ?_, ?_, ?_⟩
    · intro _ hearlier
      rcases mem_cons.mp hearlier with rfl | hearlier
      · exact le_rfl
      · exact hexpired.bounded _ hearlier
    · intro bin
      rw [countP_cons, ← hexpired.bins]
      by_cases hbin : bin = Fin.ofNat 256 second
      · subst hbin
        simp [keptSecond]
      · have hne : second % 256 ≠ bin.val := fun heq => hbin (Fin.ext heq.symm)
        simp only [Function.update_of_ne hbin]
        simp [hne]
    · rw [htotal]
      simp [keptSecond]

end FragmentLifetimeBudget

/-! ## Assignments in one life of a destination -/

/-- A successful admission. -/
structure Assignment where
  destination : BucketKey
  time : ℕ
  identification : Option ℕ
deriving DecidableEq

variable {entry : Assignment}

namespace FragmentSequence

variable {identification next : ℕ}

theorem following_range (identification : ℕ) :
    following identification ≠ 0 ∧ following identification ≤ u16Max := by
  unfold following u16Max
  split <;> omega

/-- The sequence goes round the 65,535 non-zero values. -/
theorem following_modEq (hhigh : identification ≤ u16Max) :
    following identification ≡ identification + 1 [MOD u16Max] := by
  unfold following u16Max Nat.ModEq at *
  split <;> omega

/-- The newest assignment precedes `next`, and each one the next newer. -/
def Sequenced : ℕ → List Assignment → Prop
  | _, [] => True
  | next, newest :: older =>
    match newest.identification with
    | none => Sequenced next older
    | some value => value ≠ 0 ∧ value ≤ u16Max ∧ following value = next ∧ Sequenced value older

/-- An assignment is as far from `next` as there are newer ones. -/
theorem Sequenced.distance {newer older : List Assignment} {value : ℕ}
    (hsequenced : Sequenced next (newer ++ entry :: older))
    (hvalue : entry.identification = some value) :
    value + 1 + newer.countP (fun entry => entry.identification.isSome) ≡ next [MOD u16Max] := by
  induction newer generalizing next with
  | nil =>
    rw [nil_append, Sequenced, hvalue] at hsequenced
    obtain ⟨_, hhigh, rfl, _⟩ := hsequenced
    exact (following_modEq hhigh).symm
  | cons newest _ ih =>
    rw [cons_append, Sequenced] at hsequenced
    cases hnewest : newest.identification with
    | none =>
      rw [hnewest] at hsequenced
      rw [countP_cons_of_neg (by simp [hnewest])]
      exact ih hsequenced
    | some =>
      rw [hnewest] at hsequenced
      obtain ⟨_, hhigh, rfl, hrest⟩ := hsequenced
      rw [countP_cons_of_pos (by simp [hnewest])]
      exact ((ih hrest).add_right 1).trans (following_modEq hhigh).symm

/-- The second of an admission since the life began. -/
def secondOf (sequence : FragmentSequence) (entry : Assignment) : ℕ :=
  (entry.time - sequence.lifetime.origin) / 10 ^ 9

/-- The assignments since the destination was last created, newest first. -/
structure Lives (sequence : FragmentSequence) (lastUse : ℕ) (life : List Assignment) : Prop where
  range : sequence.next ≠ 0 ∧ sequence.next ≤ u16Max
  sequenced : Sequenced sequence.next life
  sorted : life.Pairwise fun newer older => older.time ≤ newer.time
  within : ∀ entry ∈ life, entry.time ≤ lastUse
  origin_le : sequence.lifetime.origin ≤ lastUse
  second_le : sequence.lifetime.second ≤ (lastUse - sequence.lifetime.origin) / 10 ^ 9
  retains : sequence.lifetime.Retains sequence.lifetime.second (life.map sequence.secondOf)

variable {sequence : FragmentSequence} {lastUse now : ℕ} {life : List Assignment} {atomic : Bool}

theorem lives_seeded (hashed now : ℕ) : (seeded hashed now).Lives now [] where
  range := by
    have hmod : hashed % u16Max < u16Max := Nat.mod_lt _ (by decide)
    exact ⟨Nat.succ_ne_zero _, hmod⟩
  sequenced := trivial
  sorted := .nil
  within := nofun
  origin_le := le_rfl
  second_le := Nat.zero_le _
  retains := FragmentLifetimeBudget.retains_new _

theorem Lives.mono (hlives : sequence.Lives lastUse life)
    (hnow : lastUse ≤ now) : sequence.Lives now life :=
  { hlives with
    within := fun _ hentry => (hlives.within _ hentry).trans hnow
    origin_le := hlives.origin_le.trans hnow
    second_le := hlives.second_le.trans (Nat.div_le_div_right (Nat.sub_le_sub_right hnow _)) }

/-- What an assignment is compared with: those of the last lifetime. -/
def recentAt (now : ℕ) (entry : Assignment) : Bool :=
  decide (now < entry.time + maximumDatagramLifetime)

/-- Admissions of the last lifetime are still counted. -/
theorem keptSecond_of_recent (hrecent : recentAt now entry = true) :
    keptSecond ((now - sequence.lifetime.origin) / 10 ^ 9) (sequence.secondOf entry) = true := by
  have htime : now < entry.time + 255 * 10 ^ 9 := of_decide_eq_true hrecent
  apply decide_eq_true
  unfold secondOf
  omega

/-- Fewer recent assignments than the sequence is long keep the next one apart. -/
theorem Lives.apart (hlives : sequence.Lives lastUse life)
    (hfew : life.countP (recentAt now) < u16Max) :
    ∀ entry ∈ life, recentAt now entry = true → entry.identification ≠ some sequence.next := by
  intro entry hentry hrecent hvalue
  obtain ⟨newer, older, rfl⟩ := append_of_mem hentry
  have hnewer : ∀ other ∈ newer, recentAt now other = true := by
    intro other hother
    have hle := (pairwise_append.mp hlives.sorted).2.2 other hother entry mem_cons_self
    exact decide_eq_true ((of_decide_eq_true hrecent).trans_le (Nat.add_le_add_right hle _))
  have hcount : newer.length + 1 ≤ (newer ++ entry :: older).countP (recentAt now) := by
    rw [countP_append, countP_eq_length.mpr hnewer, countP_cons_of_pos hrecent]
    omega
  have hsome : newer.countP (fun entry => entry.identification.isSome) ≤ newer.length :=
    countP_le_length
  have hdistance := hlives.sequenced.distance hvalue
  rw [add_assoc] at hdistance
  have hround : 1 + newer.countP (fun entry => entry.identification.isSome) ≡ 0 [MOD u16Max] :=
    Nat.ModEq.add_left_cancel' _ hdistance
  have hdvd := Nat.le_of_dvd (by omega) ((Nat.modEq_zero_iff_dvd).mp hround)
  omega

theorem origin_assign (sequence : FragmentSequence) (now : ℕ) (atomic : Bool) :
    (sequence.assign now atomic).1.lifetime.origin = sequence.lifetime.origin := by
  have horigin := sequence.lifetime.origin_admission now
  unfold assign
  simp only
  split
  · exact horigin
  · split <;> exact horigin

section

variable (hlives : sequence.Lives lastUse life) (hnow : lastUse ≤ now)
include hlives hnow

/-- A life goes on with the state that `assign` leaves, counted or not. -/
theorem Lives.advance {next : ℕ} {lifetime : FragmentLifetimeBudget}
    {longer : List Assignment} (horigin : lifetime.origin = sequence.lifetime.origin)
    (hsecond : lifetime.second = (now - sequence.lifetime.origin) / 10 ^ 9)
    (hlonger : longer = life ∨ ∃ entry, longer = entry :: life ∧ entry.time = now)
    (hrange : next ≠ 0 ∧ next ≤ u16Max) (hsequenced : Sequenced next longer)
    (hretains : lifetime.Retains lifetime.second (longer.map sequence.secondOf)) :
    (⟨next, lifetime⟩ : FragmentSequence).Lives now longer := by
  have hsecondOf : (⟨next, lifetime⟩ : FragmentSequence).secondOf = sequence.secondOf := by
    funext entry
    simp only [secondOf, horigin]
  have hbefore : ∀ entry ∈ life, entry.time ≤ now :=
    fun entry hentry => (hlives.within _ hentry).trans hnow
  refine ⟨hrange, hsequenced, ?_, ?_, horigin.trans_le (hlives.origin_le.trans hnow), ?_, ?_⟩
  · rcases hlonger with rfl | ⟨entry, rfl, rfl⟩
    · exact hlives.sorted
    · exact pairwise_cons.mpr ⟨hbefore, hlives.sorted⟩
  · rcases hlonger with rfl | ⟨entry, rfl, rfl⟩
    · exact hbefore
    · exact forall_mem_cons.mpr ⟨le_rfl, hbefore⟩
  · simp only [hsecond, horigin, le_refl]
  · rw [hsecondOf]
    exact hretains

theorem Lives.second_le_now :
    sequence.lifetime.second ≤ (now - sequence.lifetime.origin) / 10 ^ 9 :=
  hlives.second_le.trans (Nat.div_le_div_right (Nat.sub_le_sub_right hnow _))

/-- A refused datagram only moves the count forward. -/
theorem Lives.refuse
    (hrefused : ∀ identification, (sequence.assign now atomic).2 ≠ .admitted identification) :
    (sequence.assign now atomic).1.Lives now life := by
  obtain ⟨hsecond, hcounted⟩ := hlives.retains.admission (hlives.second_le_now hnow)
  have horigin := sequence.lifetime.origin_admission now
  unfold assign at hrefused ⊢
  cases hadmission : (sequence.lifetime.admission now).1 with
  | false =>
    rw [if_neg (by simp [hadmission])] at hcounted
    simp only [hadmission]
    exact hlives.advance hnow horigin hsecond (.inl rfl) hlives.range hlives.sequenced hcounted
  | true =>
    simp only [hadmission] at hrefused
    cases atomic with
    | true | false => exact absurd rfl (hrefused _)

/-- An admitted datagram is counted, and takes the next value if it takes one. -/
theorem Lives.assign {identification : Option ℕ} (destination : BucketKey)
    (hadmitted : (sequence.assign now atomic).2 = .admitted identification) :
    life.countP (recentAt now) < u16Max ∧
      (∀ value, identification = some value → value = sequence.next) ∧
      (sequence.assign now atomic).1.Lives now (⟨destination, now, identification⟩ :: life) := by
  obtain ⟨hsecond, hcounted⟩ := hlives.retains.admission (hlives.second_le_now hnow)
  have horigin := sequence.lifetime.origin_admission now
  unfold FragmentSequence.assign at hadmitted ⊢
  cases hadmission : (sequence.lifetime.admission now).1 with
  | false =>
    simp only [hadmission] at hadmitted
    cases hadmitted
  | true =>
    rw [if_pos hadmission] at hcounted
    obtain ⟨hfew, hretains⟩ := hcounted
    have hrecent : life.countP (recentAt now) < u16Max := by
      rw [countP_map] at hfew
      refine (countP_mono_left ?_).trans_lt hfew
      intro _ _ hentry
      exact keptSecond_of_recent hentry
    simp only [hadmission] at hadmitted ⊢
    refine ⟨hrecent, ?_⟩
    cases atomic with
    | true =>
      cases hadmitted
      refine ⟨fun value hvalue => (Option.some.inj hvalue).symm, ?_⟩
      refine hlives.advance hnow horigin hsecond (.inr ⟨_, rfl, rfl⟩)
        (following_range _) ?_ hretains
      exact ⟨hlives.range.1, hlives.range.2, rfl, hlives.sequenced⟩
    | false =>
      cases hadmitted
      exact ⟨nofun, hlives.advance hnow horigin hsecond (.inr ⟨_, rfl, rfl⟩) hlives.range
        hlives.sequenced hretains⟩

end

end FragmentSequence

end PacketCore.Gtpu
