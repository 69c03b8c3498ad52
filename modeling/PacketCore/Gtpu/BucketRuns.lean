import PacketCore.Gtpu.BucketRates

/-!
# Accounts of the bucket table

A call is an admission and what its caller does with the state it is handed.
Each call keeps the recency list sound, and keeps the account of what one key
takes in a window, also while that key is not tracked.
-/

namespace PacketCore.Gtpu

open Recency List

variable {T : Type*}

/-! ## One step -/

/-- One admission; an admitted caller then changes the state it was handed. -/
structure Call (T : Type*) where
  key : BucketKey
  now : ℕ
  init : T
  use : T → T

/-- An admitted caller changes the state behind the slot it was handed. -/
def SessionBuckets.settle (table : SessionBuckets T) (change : T → T) :
    BucketAdmission → SessionBuckets T
  | .admitted slot => table.use slot change
  | .rateLimited | .capacityExhausted => table

def SessionBuckets.step (table : SessionBuckets T) (call : Call T) :
    SessionBuckets T × BucketAdmission :=
  let result := table.admission call.key call.now call.init
  (result.1.settle call.use result.2, result.2)

def Recency.useFront (recency : Recency T) (change : T → T) : Recency T :=
  match recency.items with
  | [] => recency
  | first :: rest => { recency with items := { first with state := change first.state } :: rest }

def Recency.settle (recency : Recency T) (change : T → T) : Answer → Recency T
  | .admitted => recency.useFront change
  | .rateLimited | .capacityExhausted => recency

def Recency.step (recency : Recency T) (call : Call T) : Recency T × Answer :=
  let result := recency.admission call.key call.now call.init
  (result.1.settle call.use result.2, result.2)

variable {order : List ℕ} {burst now : ℕ} {item : Tracked T}
  {items : List (Tracked T)} {watched : BucketKey}

theorem SessionBuckets.Refines.settle {result : SessionBuckets T × BucketAdmission}
    {abstract : Recency T × Answer} (hrefines : Refines result order abstract) (change : T → T) :
    (result.1.settle change result.2).Represents order ∧
      (result.1.settle change result.2).recency order = abstract.1.settle change abstract.2 := by
  rw [← hrefines.answer_eq, ← hrefines.recency_eq]
  cases hresult : result.2 with
  | admitted slot =>
    have hhead := hrefines.admitted _ hresult
    obtain ⟨rest, rfl⟩ := head?_eq_some_iff.mp hhead
    obtain ⟨item, hitem⟩ := Option.isSome_iff_exists.mp
      ((hrefines.represents.occupied _).mp mem_cons_self)
    obtain ⟨hused, hview⟩ := hrefines.represents.use hitem _
    refine ⟨hused, ?_⟩
    have hfront : result.1.view (slot :: rest) = item :: result.1.view rest := view_cons hitem
    simp only [SessionBuckets.settle, BucketAdmission.answer, settle, recency, hview, hfront]
    rfl
  | rateLimited | capacityExhausted => exact ⟨hrefines.represents, rfl⟩

theorem SessionBuckets.Represents.step {table : SessionBuckets T}
    (hrep : table.Represents order) (call : Call T) :
    ∃ changed, (table.step call).1.Represents changed ∧
      (table.step call).1.recency changed = ((table.recency order).step call).1 ∧
      (table.step call).2.answer = ((table.recency order).step call).2 := by
  obtain ⟨changed, hrefines⟩ := hrep.admission _ _ _
  obtain ⟨hsettled, hrecency⟩ := hrefines.settle _
  exact ⟨changed, hsettled, hrecency, hrefines.answer_eq⟩

/-! ## Dropping the states -/

def Tracked.forget (item : Tracked T) : Tracked Unit := ⟨item.key, item.bucket, item.lastUse, ()⟩

/-- The accounts alone decide every answer. -/
def Recency.forget (recency : Recency T) : Recency Unit :=
  ⟨recency.burst, recency.refillInterval, recency.evictionGrace, recency.items.map Tracked.forget⟩

theorem Recency.forget_admission (recency : Recency T) (key : BucketKey) (now : ℕ) (init : T) :
    recency.forget.admission key now () =
      ((recency.admission key now init).1.forget, (recency.admission key now init).2) := by
  have hfind : recency.forget.items.find? (fun item => decide (item.key = key)) =
      (recency.items.find? (fun item => decide (item.key = key))).map Tracked.forget :=
    find?_map
  have herase : recency.forget.items.eraseP (fun item => decide (item.key = key)) =
      (recency.items.eraseP (fun item => decide (item.key = key))).map Tracked.forget :=
    eraseP_map
  have hlength : recency.forget.items.length = recency.items.length := length_map _
  have hlast : recency.forget.items.getLast? = recency.items.getLast?.map Tracked.forget :=
    getLast?_map
  have hinit : recency.forget.items.dropLast = recency.items.dropLast.map Tracked.forget :=
    map_dropLast.symm
  have hshape : recency.forget.burst = recency.burst ∧
      recency.forget.refillInterval = recency.refillInterval ∧
      recency.forget.evictionGrace = recency.evictionGrace := ⟨rfl, rfl, rfl⟩
  unfold admission
  rw [hfind, herase, hlength, hlast, hinit]
  cases recency.items.find? (fun item => decide (item.key = key)) with
  | some => rfl
  | none =>
    simp only [Option.map_none]
    split
    · cases recency.items.getLast? with
      | none => rfl
      | some =>
        simp only [Option.map_some, Tracked.forget, hshape]
        split_ifs
        · rfl
        · rfl
        · simp [forget, Tracked.forget]
    · rfl

theorem Recency.forget_settle (recency : Recency T) (change : T → T) (answer : Answer) :
    (recency.settle change answer).forget = recency.forget := by
  cases answer with
  | admitted =>
    unfold settle useFront
    cases hitems : recency.items with
    | nil => rfl
    | cons => simp [forget, hitems, Tracked.forget]
  | rateLimited => rfl
  | capacityExhausted => rfl

theorem Recency.forget_step (recency : Recency T) (call : Call T) :
    recency.forget.admission call.key call.now () =
      ((recency.step call).1.forget, (recency.step call).2) := by
  rw [recency.forget_admission call.key call.now call.init, step, forget_settle]

/-! ## The accounts of a run -/

/-- An item whose times have come and whose tokens fit. -/
@[mk_iff]
structure Tracked.Timely (item : Tracked T) (burst clock : ℕ) : Prop where
  tokens_le : item.bucket.tokens ≤ burst
  lastRefill_le : item.bucket.lastRefill ≤ clock
  lastUse_le : item.lastUse ≤ clock

theorem Tracked.Timely.mono {clock : ℕ} (htimely : item.Timely burst clock)
    (hnow : clock ≤ now) : item.Timely burst now :=
  ⟨htimely.tokens_le, htimely.lastRefill_le.trans hnow, htimely.lastUse_le.trans hnow⟩

theorem Tracked.Timely.take (htimely : item.Timely burst now) (refillInterval : ℕ) :
    (item.take burst refillInterval now).1.Timely burst now :=
  ⟨TokenBucket.tokens_admit_le htimely.tokens_le,
    TokenBucket.lastRefill_admit_le htimely.lastRefill_le, htimely.lastUse_le⟩

theorem Tracked.take_eq_admitted {refillInterval : ℕ} :
    (item.take burst refillInterval now).2 = .admitted ↔
      (item.bucket.admission burst refillInterval now).1 = true := by
  unfold Tracked.take
  simp only
  split
  · rename_i hadmitted
    exact ⟨fun _ => hadmitted, fun _ => rfl⟩
  · rename_i hrefused
    exact ⟨nofun, fun hadmitted => absurd hadmitted hrefused⟩

namespace Recency

/-- What holds of the list at any time of a run. -/
structure Sound (recency : Recency T) (clock : ℕ) : Prop where
  keys : (recency.items.map Tracked.key).Nodup
  length_le : recency.items.length ≤ packetTooBigTrackedSessions
  sorted : (recency.items.map Tracked.lastUse).Pairwise (· ≥ ·)
  timely : ∀ item ∈ recency.items, item.Timely recency.burst clock

variable {recency : Recency T} {clock now : ℕ} {key : BucketKey} {init : T}

theorem sound_forget : recency.forget.Sound clock ↔ recency.Sound clock := by
  have hkeys : recency.forget.items.map Tracked.key = recency.items.map Tracked.key := by
    simp [forget, Tracked.forget]
  have huses : recency.forget.items.map Tracked.lastUse = recency.items.map Tracked.lastUse := by
    simp [forget, Tracked.forget]
  have hlength : recency.forget.items.length = recency.items.length := length_map _
  have htimely : (∀ item ∈ recency.forget.items, item.Timely recency.burst clock) ↔
      ∀ item ∈ recency.items, item.Timely recency.burst clock := by
    simp [forget, Tracked.timely_iff, Tracked.forget]
  exact ⟨fun ⟨h1, h2, h3, h4⟩ => ⟨hkeys ▸ h1, hlength ▸ h2, huses ▸ h3, htimely.mp h4⟩,
    fun ⟨h1, h2, h3, h4⟩ => ⟨hkeys ▸ h1, hlength ▸ h2, huses ▸ h3, htimely.mpr h4⟩⟩

/-- The key used now goes to the front. -/
theorem Sound.front {items : List (Tracked T)} {item : Tracked T}
    (hsound : ({ recency with items := items } : Recency T).Sound now)
    (hitem : item.Timely recency.burst now) (huse : item.lastUse = now)
    (hnew : ∀ other ∈ items, other.key ≠ item.key)
    (hroom : items.length < packetTooBigTrackedSessions) :
    ({ recency with items := item :: items } : Recency T).Sound now where
  keys := by
    rw [map_cons, nodup_cons, mem_map]
    exact ⟨fun ⟨other, hother, hkey⟩ => hnew other hother hkey, hsound.keys⟩
  length_le := hroom
  sorted := by
    rw [map_cons, pairwise_cons, forall_mem_map, huse]
    exact ⟨fun other hother => (hsound.timely other hother).lastUse_le, hsound.sorted⟩
  timely := forall_mem_cons.mpr ⟨hitem, hsound.timely⟩

section

variable (hsound : recency.Sound clock)
include hsound

theorem Sound.mono (hnow : clock ≤ now) : recency.Sound now :=
  { hsound with timely := fun _ hitem => (hsound.timely _ hitem).mono hnow }

theorem Sound.apart {left right : List (Tracked T)}
    (hitems : recency.items = left ++ item :: right) :
    ∀ other ∈ left ++ right, other.key ≠ item.key := by
  have hkeys := hsound.keys
  rw [hitems, map_append, map_cons, nodup_middle, nodup_cons, ← map_append] at hkeys
  intro other hother hkey
  exact hkeys.1 (hkey ▸ mem_map_of_mem hother)

theorem Sound.sublist {items : List (Tracked T)}
    (hsub : items.Sublist recency.items) :
    ({ recency with items := items } : Recency T).Sound clock where
  keys := hsound.keys.sublist (hsub.map _)
  length_le := hsub.length_le.trans hsound.length_le
  sorted := hsound.sorted.sublist (hsub.map _)
  timely := fun _ hitem => hsound.timely _ (hsub.subset hitem)

theorem Sound.admission (hnow : clock ≤ now) : (recency.admission key now init).1.Sound now := by
  have hnowSound := hsound.mono hnow
  have hadmits := recency.admits key now init
  generalize recency.admission key now init = result at hadmits ⊢
  cases hadmits with
  | @tracked left right item hitems hkey =>
    have hsub : (left ++ right).Sublist recency.items := by
      rw [hitems]
      exact (sublist_cons_self _ _).append_left _
    have htimely := hnowSound.timely item (by simp [hitems])
    have htouched : ({ item with lastUse := max item.lastUse now } : Tracked T).Timely
        recency.burst now :=
      ⟨htimely.tokens_le, htimely.lastRefill_le, max_le htimely.lastUse_le le_rfl⟩
    have hothers := hsound.apart hitems
    have hlength := hnowSound.length_le
    rw [hitems] at hlength
    refine (hnowSound.sublist hsub).front (htouched.take _) (max_eq_right htimely.lastUse_le)
      hothers ?_
    simp only [length_append, length_cons] at hlength ⊢
    omega
  | created hnew hroom =>
    exact hnowSound.front (Tracked.Timely.take ⟨le_rfl, le_rfl, le_rfl⟩ _) rfl hnew hroom
  | @evicted rest last hnew hroom hitems hidle hfull =>
    have hsub : rest.Sublist recency.items := by simp [hitems]
    refine (hnowSound.sublist hsub).front (Tracked.Timely.take ⟨le_rfl, le_rfl, le_rfl⟩ _) rfl
      (fun other hother => hnew _ (hsub.subset hother)) ?_
    have hlength := hnowSound.length_le
    rw [hitems, length_append] at hlength
    exact hlength
  | refused => exact hnowSound
  | @refilled rest last hnew hroom hitems =>
    obtain ⟨hkeys, hlength, hsorted, htimely⟩ := hnowSound
    rw [hitems] at hkeys hlength hsorted htimely
    refine ⟨by simpa using hkeys, by simpa using hlength, by simpa using hsorted, ?_⟩
    rw [forall_mem_append, forall_mem_singleton] at htimely ⊢
    obtain ⟨htokens, hrefill, huse⟩ := htimely.2
    exact ⟨htimely.1, TokenBucket.tokens_refill_le htokens,
      TokenBucket.lastRefill_refill_le hrefill, huse⟩

/-- Another bucket shape keeps the list sound. -/
theorem Sound.replaceLimit (hnow : clock ≤ now)
    (burst refillInterval : ℕ) : (recency.replaceLimit burst refillInterval now).Sound now := by
  unfold Recency.replaceLimit
  split
  · exact hsound.mono hnow
  · refine ⟨?_, ?_, ?_, ?_⟩
    · simpa [Function.comp_def] using hsound.keys
    · simpa using hsound.length_le
    · simpa [Function.comp_def] using hsound.sorted
    · intro _ hitem
      obtain ⟨_, hbefore, rfl⟩ := mem_map.mp hitem
      obtain ⟨_, hlast, huse⟩ := (hsound.timely _ hbefore).mono hnow
      exact ⟨min_le_right _ _, max_le (TokenBucket.lastRefill_refill_le hlast) le_rfl, huse⟩

end

/-! ## What one key takes in a window -/

/-- An admission that counts in the window of `width` from `start`. -/
def Counts (key : BucketKey) (start width : ℕ) (admitted : BucketKey) (now : ℕ) (answer : Answer) :
    Prop :=
  (admitted = key ∧ start ≤ now ∧ now < start + width) ∧ answer = .admitted

instance (key : BucketKey) (start width : ℕ) (admitted : BucketKey) (now : ℕ)
    (answer : Answer) : Decidable (Counts key start width admitted now answer) :=
  inferInstanceAs (Decidable (_ ∧ _))

/-- The admissions of `key` counted so far, against its bucket, or against a full
one while it is not tracked. -/
structure Spending (recency : Recency T) (key : BucketKey)
    (start width clock count : ℕ) : Prop where
  budget : ∀ item ∈ recency.items, item.key = key →
    Budget recency.burst recency.refillInterval start count item.bucket
  restored : (∀ item ∈ recency.items, item.key ≠ key) →
    count ≤ (clock - start) ⌈/⌉ recency.refillInterval
  opened : 0 < count → start ≤ clock
  bounded : count ≤ recency.burst + width ⌈/⌉ recency.refillInterval

variable {start width count : ℕ}

theorem ceilDiv_mono (interval : ℕ) {shorter longer : ℕ}
    (hle : shorter ≤ longer) : shorter ⌈/⌉ interval ≤ longer ⌈/⌉ interval := by
  apply Nat.div_le_div_right
  omega

/-- The front item takes a token, counted or not. -/
theorem Spending.front (hspending : recency.Spending watched start width clock count)
    (item : Tracked T) (hnow : clock ≤ now) (hinterval : 0 < recency.refillInterval)
    (hburst : recency.burst ≤ u32Max) (hitems : ∀ other ∈ items, other.key = watched →
      Budget recency.burst recency.refillInterval start count other.bucket)
    (hapart : ∀ other ∈ items, other.key ≠ item.key) (hitem : item.key = watched →
      Budget recency.burst recency.refillInterval start count item.bucket)
    (hlast : item.bucket.lastRefill ≤ now)
    (hprompt : item.key = watched ∧ start ≤ now ∧ now < start + width →
      now - item.bucket.lastRefill < 2 ^ 32 * recency.refillInterval)
    (hrestored : item.key ≠ watched → (∀ other ∈ items, other.key ≠ watched) →
      count ≤ (now - start) ⌈/⌉ recency.refillInterval) :
    let taken := item.take recency.burst recency.refillInterval now
    ({ recency with items := taken.1 :: items } : Recency T).Spending watched start width now
      (count + if Counts watched start width item.key now taken.2 then 1 else 0) := by
  intro taken
  by_cases hkey : item.key = watched
  · have hbudget := (hitem hkey).admission _
      hinterval hburst hlast (fun hcounted => hcounted.2.1) hprompt
    have hcounts : Counts watched start width item.key now taken.2 ↔
        (item.key = watched ∧ start ≤ now ∧ now < start + width) ∧
          (item.bucket.admission recency.burst recency.refillInterval now).1 = true := by
      rw [Counts, Tracked.take_eq_admitted]
    simp only [hcounts]
    refine ⟨?_, ?_, ?_, ?_⟩
    · rw [forall_mem_cons]
      exact ⟨fun _ => hbudget, fun other hother hwatched =>
        absurd (hwatched.trans hkey.symm) (hapart _ hother)⟩
    · intro habsent
      exact (habsent _ mem_cons_self hkey).elim
    · split
      · rename_i hcounted
        exact fun _ => hcounted.1.2.1
      · exact fun hpos => (hspending.opened hpos).trans hnow
    · split
      · rename_i hcounted
        rw [if_pos hcounted] at hbudget
        refine (Nat.le_of_add_right_le hbudget.spent).trans
          (Nat.add_le_add_left (ceilDiv_mono _ ?_) _)
        rw [Nat.sub_le_iff_le_add']
        exact (TokenBucket.lastRefill_admit_le hlast).trans hcounted.1.2.2.le
      · exact hspending.bounded
  · have hcount : ¬ Counts watched start width item.key now taken.2 :=
      fun hcounts => hkey hcounts.1.1
    rw [if_neg hcount]
    refine ⟨?_, ?_, fun hpos => (hspending.opened hpos).trans hnow, hspending.bounded⟩
    · exact forall_mem_cons.mpr ⟨fun hwatched => absurd hwatched hkey, hitems⟩
    · exact fun habsent => hrestored hkey (forall_mem_cons.mp habsent).2

/-- An admission of the watched key is prompt in the window if the bucket that it
meets was refilled less than `2 ^ 32` intervals before. -/
def Prompt (recency : Recency T) (watched : BucketKey) (start width : ℕ)
    (key : BucketKey) (now : ℕ) : Prop :=
  key = watched ∧ start ≤ now ∧ now < start + width →
    ∀ item ∈ recency.items, item.key = key →
      now - item.bucket.lastRefill < 2 ^ 32 * recency.refillInterval

section

variable (hspending : recency.Spending watched start width clock count) (hnow : clock ≤ now)
  (hinterval : 0 < recency.refillInterval) (hburst : recency.burst ≤ u32Max)
include hspending hnow hinterval hburst

/-- A new key spends from a full bucket. -/
theorem Spending.fresh (hnew : ∀ item ∈ recency.items, item.key ≠ key)
    (hsub : items.Sublist recency.items) (hrestored : (∀ other ∈ items, other.key ≠ watched) →
      count ≤ (now - start) ⌈/⌉ recency.refillInterval) (init : T) :
    (recency.fresh items key now init).1.Spending watched start width now
      (count + if Counts watched start width key now (recency.fresh items key now init).2
        then 1 else 0) := by
  have hfull : key = watched →
      Budget recency.burst recency.refillInterval start count ⟨recency.burst, now⟩ := by
    rintro rfl
    have hcount := hrestored fun other hother => hnew _ (hsub.subset hother)
    refine ⟨le_rfl, by simp only; omega, ?_⟩
    intro hpos
    exact ((hspending.opened hpos).trans hnow).trans_lt (Nat.lt_add_of_pos_right hinterval)
  apply hspending.front ⟨key, ⟨recency.burst, now⟩, now, init⟩ hnow hinterval hburst
  · exact fun other hother => hspending.budget _ (hsub.subset hother)
  · exact fun other hother => hnew _ (hsub.subset hother)
  · exact hfull
  · exact le_rfl
  · intro _
    rw [Nat.sub_self]
    positivity
  · exact fun _ => hrestored

/-- Each admission keeps the account. -/
theorem Spending.admission (hsound : recency.Sound clock)
    (hprompt : recency.Prompt watched start width key now) (init : T) :
    (recency.admission key now init).1.Spending watched start width now
      (count + if Counts watched start width key now (recency.admission key now init).2
        then 1 else 0) := by
  have hmono : (clock - start) ⌈/⌉ recency.refillInterval ≤
      (now - start) ⌈/⌉ recency.refillInterval :=
    ceilDiv_mono _ (Nat.sub_le_sub_right hnow _)
  have hadmits := recency.admits key now init
  generalize recency.admission key now init = result at hadmits ⊢
  cases hadmits with
  | @tracked left right item hitems hkey =>
    have hsub : (left ++ right).Sublist recency.items := by
      rw [hitems]
      exact (sublist_cons_self _ _).append_left _
    have hmem : item ∈ recency.items := by simp [hitems]
    have hothers := hsound.apart hitems
    subst hkey
    apply hspending.front { item with lastUse := max item.lastUse now } hnow hinterval hburst
    · exact fun other hother => hspending.budget _ (hsub.subset hother)
    · exact hothers
    · exact hspending.budget item hmem
    · exact (hsound.timely _ hmem).lastRefill_le.trans hnow
    · exact fun hcounted => hprompt hcounted item hmem rfl
    · intro hne habsent
      refine (hspending.restored ?_).trans hmono
      rw [forall_mem_append] at habsent
      rw [hitems, forall_mem_append, forall_mem_cons]
      exact ⟨habsent.1, hne, habsent.2⟩
  | created hnew =>
    exact hspending.fresh hnow hinterval hburst hnew (List.Sublist.refl _)
      (fun habsent => (hspending.restored habsent).trans hmono) _
  | @evicted rest last hnew hroom hitems hidle hfull =>
    have hlast : last ∈ recency.items := by simp [hitems]
    apply hspending.fresh hnow hinterval hburst hnew (by simp [hitems])
    intro habsent
    by_cases hwatched : last.key = watched
    · -- only a full bucket is given up
      have hlastRefill := (hsound.timely _ hlast).lastRefill_le.trans hnow
      have hspent := ((hspending.budget _ hlast hwatched).refill hinterval hburst hlastRefill).spent
      have hadvance : (last.bucket.refill recency.burst recency.refillInterval now).lastRefill ≤
          now := TokenBucket.lastRefill_refill_le hlastRefill
      have hcount := ceilDiv_mono recency.refillInterval (Nat.sub_le_sub_right hadvance start)
      omega
    · refine (hspending.restored ?_).trans hmono
      rw [hitems, forall_mem_append, forall_mem_singleton]
      exact ⟨habsent, hwatched⟩
  | refused =>
    simp only [Counts, reduceCtorEq, and_false]
    exact ⟨hspending.budget, fun habsent => (hspending.restored habsent).trans hmono,
      fun hpos => (hspending.opened hpos).trans hnow, hspending.bounded⟩
  | @refilled rest last hnew hroom hitems =>
    simp only [Counts, reduceCtorEq, and_false]
    refine ⟨?_, ?_, fun hpos => (hspending.opened hpos).trans hnow, hspending.bounded⟩
    · have hbudget := hspending.budget
      rw [hitems, forall_mem_append] at hbudget
      rw [forall_mem_append, forall_mem_singleton]
      refine ⟨hbudget.1, fun hwatched => ?_⟩
      have hlast := hsound.timely last (by simp [hitems])
      exact (hbudget.2 _ mem_cons_self hwatched).refill hinterval hburst
        (hlast.lastRefill_le.trans hnow)
    · intro habsent
      refine (hspending.restored ?_).trans hmono
      rw [hitems]
      rwa [forall_mem_append, forall_mem_singleton] at habsent ⊢

end

end Recency

end PacketCore.Gtpu
