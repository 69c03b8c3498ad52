import PacketCore.Gtpu.BucketRuns

/-!
# Isolation of tracked sessions

What holds of every table reached by admissions at non-decreasing times: the
links, the index and the free slots stay consistent, keys are only evicted after
their grace, other keys are left alone, and no key is admitted above its rate.
-/

namespace PacketCore.Gtpu

open SessionBuckets List

variable {T : Type*}

/-! ## What an admission leaves alone -/

/-- The item with the same state, whose bucket has as many tokens at any time
from `now` on. -/
structure Tracked.Spares (item kept : Tracked T) (burst refillInterval now : ℕ) : Prop where
  key : kept.key = item.key
  lastUse : kept.lastUse = item.lastUse
  state : kept.state = item.state
  tokens : ∀ later, now ≤ later → (kept.bucket.refill burst refillInterval later).tokens =
    (item.bucket.refill burst refillInterval later).tokens

variable {call : Call T} {count start width : ℕ}

namespace Recency

variable {recency : Recency T} {clock now time : ℕ} {key : BucketKey} {init : T} {item : Tracked T}

/-- An admission of another key spares the item, or reclaims it when it is past
its grace and has its whole budget back. -/
theorem admit_spares (hsound : recency.Sound clock) (hnow : clock ≤ now)
    (hinterval : 0 < recency.refillInterval) (hburst : recency.burst ≤ u32Max)
    (hitem : item ∈ recency.items) (hkey : item.key ≠ key) (init : T) :
    (∃ kept ∈ (recency.admission key now init).1.items,
      item.Spares kept recency.burst recency.refillInterval now) ∨
    ((∀ other ∈ (recency.admission key now init).1.items, other.key ≠ item.key) ∧
      recency.evictionGrace ≤ now - item.lastUse ∧
      (item.bucket.refill recency.burst recency.refillInterval now).tokens = recency.burst) := by
  have hself : item.Spares item recency.burst recency.refillInterval now :=
    ⟨rfl, rfl, rfl, fun _ _ => rfl⟩
  have hadmits := recency.admits key now init
  generalize recency.admission key now init = result at hadmits ⊢
  cases hadmits with
  | @tracked left right found hitems hfound =>
    rw [hitems, mem_append, mem_cons] at hitem
    refine .inl ⟨item, ?_, hself⟩
    rcases hitem with hleft | rfl | hright
    · exact mem_cons_of_mem _ (mem_append_left _ hleft)
    · exact absurd hfound hkey
    · exact mem_cons_of_mem _ (mem_append_right _ hright)
  | created => exact .inl ⟨item, mem_cons_of_mem _ hitem, hself⟩
  | @evicted rest last hnew hroom hitems hidle hfull =>
    have hothers : ∀ other ∈ rest ++ [], other.key ≠ last.key := hsound.apart hitems
    rw [hitems, mem_append, mem_singleton] at hitem
    rcases hitem with hrest | rfl
    · exact .inl ⟨item, mem_cons_of_mem _ hrest, hself⟩
    · exact .inr ⟨forall_mem_cons.mpr ⟨hkey.symm, by simpa using hothers⟩, hidle, hfull⟩
  | refused => exact .inl ⟨item, hitem, hself⟩
  | @refilled rest last hnew hroom hitems =>
    have htimely := hsound.timely _ hitem
    rw [hitems, mem_append, mem_singleton] at hitem
    rcases hitem with hrest | rfl
    · exact .inl ⟨item, mem_append_left _ hrest, hself⟩
    · refine .inl ⟨_, mem_append_right _ mem_cons_self, rfl, rfl, rfl, ?_⟩
      intro _ hlater
      exact TokenBucket.tokens_refill_refill hinterval hburst htimely.tokens_le
        (htimely.lastRefill_le.trans hnow) hlater

theorem front_of_served (hserved : (recency.admission key now init).2 ≠ .capacityExhausted) :
    ∃ first rest, (recency.admission key now init).1.items = first :: rest ∧
      first.key = key ∧ now ≤ first.lastUse := by
  have hadmits := recency.admits key now init
  generalize recency.admission key now init = result at hadmits hserved ⊢
  cases hadmits with
  | tracked _ hkey => exact ⟨_, _, rfl, hkey, le_max_right _ _⟩
  | created | evicted => exact ⟨_, _, rfl, rfl, le_rfl⟩
  | refused | refilled => exact absurd rfl hserved

/-- The caller's change leaves the other items alone. -/
theorem mem_step (hitem : item ∈ (recency.admission call.key call.now call.init).1.items)
    (hkey : item.key ≠ call.key) : item ∈ (recency.step call).1.items := by
  unfold step
  simp only
  cases hanswer : (recency.admission call.key call.now call.init).2 with
  | admitted =>
    obtain ⟨_, _, hitems, hfirst, _⟩ := front_of_served (by rw [hanswer]; nofun)
    rw [hitems] at hitem
    simp only [settle, useFront, hitems]
    rcases mem_cons.mp hitem with rfl | hrest
    · exact absurd hfirst hkey
    · exact mem_cons_of_mem _ hrest
  | rateLimited | capacityExhausted => exact hitem

theorem keys_forget : recency.forget.items.map Tracked.key = recency.items.map Tracked.key := by
  simp [forget, Function.comp_def, Tracked.forget]

/-- The caller's change leaves every key. -/
theorem keys_step (recency : Recency T) (call : Call T) :
    (recency.step call).1.items.map Tracked.key =
      (recency.admission call.key call.now call.init).1.items.map Tracked.key := by
  rw [← keys_forget, step, forget_settle, keys_forget]

/-- A key whose last use is not before `time`. -/
def Recent (recency : Recency T) (key : BucketKey) (time : ℕ) : Prop :=
  ∃ item ∈ recency.items, item.key = key ∧ time ≤ item.lastUse

theorem recent_forget : recency.forget.Recent key time ↔ recency.Recent key time := by
  constructor
  · rintro ⟨item, hitem, hkey, htime⟩
    obtain ⟨whole, hwhole, rfl⟩ := mem_map.mp hitem
    exact ⟨whole, hwhole, hkey, htime⟩
  · rintro ⟨item, hitem, hkey, htime⟩
    exact ⟨item.forget, mem_map_of_mem hitem, hkey, htime⟩

/-- No admission within the grace evicts a recent key. -/
theorem Recent.admission {other : BucketKey} (hrecent : recency.Recent other time)
    (hsound : recency.Sound clock) (hnow : clock ≤ now) (hinterval : 0 < recency.refillInterval)
    (hburst : recency.burst ≤ u32Max) (hgrace : now - time < recency.evictionGrace)
    (key : BucketKey) (init : T) : (recency.admission key now init).1.Recent other time := by
  obtain ⟨item, hitem, rfl, htime⟩ := hrecent
  by_cases hkey : item.key = key
  · have hadmits := recency.admits key now init
    generalize recency.admission key now init = result at hadmits ⊢
    cases hadmits with
    | @tracked left right found hitems hfound =>
      have hsame : found = item := by
        by_contra hne
        rw [hitems, mem_append, mem_cons] at hitem
        refine hsound.apart hitems _ ?_ (hkey.trans hfound.symm)
        rcases hitem with hleft | rfl | hright
        · exact mem_append_left _ hleft
        · exact absurd rfl hne
        · exact mem_append_right _ hright
      subst hsame
      exact ⟨_, mem_cons_self, rfl, htime.trans (le_max_left _ _)⟩
    | created hnew | evicted hnew | refused hnew | refilled hnew => exact absurd hkey (hnew _ hitem)
  · rcases admit_spares hsound hnow hinterval hburst hitem hkey _ with
      ⟨kept, hkept, hspares⟩ | ⟨_, hidle, _⟩
    · exact ⟨kept, hkept, hspares.key, hspares.lastUse ▸ htime⟩
    · omega

/-- What every step of a run keeps. -/
theorem Sound.step (hsound : recency.Sound clock) (hnow : clock ≤ call.now) :
    (recency.step call).1.Sound call.now := by
  rw [← sound_forget, Recency.step, forget_settle, sound_forget]
  exact hsound.admission hnow

theorem shape_admission (recency : Recency T) (key : BucketKey) (now : ℕ) (init : T) :
    (recency.admission key now init).1.burst = recency.burst ∧
      (recency.admission key now init).1.refillInterval = recency.refillInterval ∧
      (recency.admission key now init).1.evictionGrace = recency.evictionGrace := by
  have hadmits := recency.admits key now init
  generalize recency.admission key now init = result at hadmits ⊢
  cases hadmits <;> exact ⟨rfl, rfl, rfl⟩

theorem shape_step (recency : Recency T) (call : Call T) :
    (recency.step call).1.burst = recency.burst ∧
      (recency.step call).1.refillInterval = recency.refillInterval ∧
      (recency.step call).1.evictionGrace = recency.evictionGrace := by
  have hforget := congrArg Prod.fst (recency.forget_step call)
  have hshape := recency.forget.shape_admission call.key call.now ()
  rwa [hforget] at hshape

end Recency

/-! ## Runs of the table -/

namespace SessionBuckets

/-- The entry that the index gives for a key. -/
def lookup (table : SessionBuckets T) (key : BucketKey) : Option (BucketEntry T) :=
  (table.index.find key).bind table.entryAt

def run (table : SessionBuckets T) (calls : List (Call T)) : SessionBuckets T :=
  calls.foldl (fun table call => (table.step call).1) table

end SessionBuckets

/-- A call and the table that it finds. -/
structure Visit (T : Type*) where
  before : SessionBuckets T
  call : Call T

namespace Visit

def after (visit : Visit T) : SessionBuckets T := (visit.before.step visit.call).1

def answer (visit : Visit T) : BucketAdmission := (visit.before.step visit.call).2

/-- The call admits `key` in the window of `width` from `start`. -/
def Admits (visit : Visit T) (key : BucketKey) (start width : ℕ) : Prop :=
  Recency.Counts key start width visit.call.key visit.call.now visit.answer.answer

instance (visit : Visit T) (key : BucketKey) (start width : ℕ) :
    Decidable (visit.Admits key start width) :=
  inferInstanceAs (Decidable (Recency.Counts _ _ _ _ _ _))

/-- The bucket that the call meets, if there is one, was refilled less than
`2 ^ 32` intervals before. -/
def Prompt (visit : Visit T) : Prop :=
  ∀ entry, visit.before.lookup visit.call.key = some entry →
    visit.call.now - entry.bucket.lastRefill < 2 ^ 32 * visit.before.refillInterval

instance (visit : Visit T) : Decidable visit.Prompt :=
  inferInstanceAs (Decidable (∀ entry ∈ visit.before.lookup visit.call.key, _ < _))

/-- The entry of another key keeps its state and, at any time from now on, its
tokens, or is reclaimed past its grace with its whole budget back. -/
def Spares (visit : Visit T) (key : BucketKey) : Prop :=
  ∀ entry, visit.before.lookup key = some entry →
    (∃ kept, visit.after.lookup key = some kept ∧
      entry.tracked.Spares kept.tracked visit.before.burst visit.before.refillInterval
        visit.call.now) ∨
    (visit.after.lookup key = none ∧
      visit.before.evictionGrace ≤ visit.call.now - entry.lastUse ∧
      (entry.bucket.refill visit.before.burst visit.before.refillInterval visit.call.now).tokens =
        visit.before.burst)

end Visit

namespace SessionBuckets

/-- The calls of a run, each with the table that it finds. -/
def visits (table : SessionBuckets T) : List (Call T) → List (Visit T)
  | [] => []
  | call :: calls => ⟨table, call⟩ :: visits (table.step call).1 calls

/-- The list of uses visits the occupied slots once in both directions, the index
names exactly their keys, and the free slots are others. -/
structure Threaded (table : SessionBuckets T) (order : List ℕ) : Prop where
  nodup : order.Nodup
  occupied : ∀ slot, slot ∈ order ↔ (table.entryAt slot).isSome
  forward : ∀ fuel, table.entries.length ≤ fuel →
    Links.walk table.links.older fuel table.head = order
  backward : ∀ fuel, table.entries.length ≤ fuel →
    Links.walk table.links.newer fuel table.tail = order.reverse
  index : ∀ key slot, table.index.find key = some slot ↔
    ∃ entry, table.entryAt slot = some entry ∧ entry.key = key
  free : ∀ slot ∈ table.free, slot < table.entries.length ∧ table.entryAt slot = none
  lastUse : (order.filterMap table.entryAt).Pairwise fun newer older =>
    older.lastUse ≤ newer.lastUse
  tracked_le : table.tracked ≤ packetTooBigTrackedSessions

variable {table : SessionBuckets T} {order : List ℕ} {key : BucketKey} {clock : ℕ}

theorem Represents.lookup_iff (hrep : table.Represents order) {item : Tracked T} :
    (item ∈ (table.recency order).items ∧ item.key = key) ↔
      ∃ entry, table.lookup key = some entry ∧ entry.tracked = item := by
  constructor
  · rintro ⟨hitem, rfl⟩
    obtain ⟨slot, _, hcontent⟩ := mem_view.mp hitem
    obtain ⟨entry, hentry, rfl⟩ := content_eq_some.mp hcontent
    refine ⟨entry, ?_, rfl⟩
    rw [lookup, hrep.find_key hcontent, Option.bind_some, hentry]
  · rintro ⟨entry, hlookup, rfl⟩
    obtain ⟨slot, hfind, hentry⟩ := Option.bind_eq_some_iff.mp hlookup
    obtain ⟨item, hcontent, hkey⟩ := (hrep.index _ _).mp hfind
    have hsame : item = entry.tracked := by
      obtain ⟨_, hfound, rfl⟩ := content_eq_some.mp hcontent
      rw [hentry] at hfound
      cases hfound
      rfl
    subst hsame
    exact ⟨mem_view.mpr ⟨slot, hrep.mem_order hcontent, hcontent⟩, hkey⟩

/-- A table of a run, with the order and the time it has reached. -/
structure Reached (table : SessionBuckets T) (shape : ℕ × ℕ × ℕ)
    (order : List ℕ) (clock : ℕ) : Prop where
  represents : table.Represents order
  sound : (table.recency order).Sound clock
  shape_eq : table.shape = shape

variable {shape : ℕ × ℕ × ℕ} {burst refillInterval evictionGrace : ℕ}

theorem Reached.burst_eq
    (hreached : table.Reached (burst, refillInterval, evictionGrace) order clock) :
    table.burst = burst :=
  congrArg Prod.fst hreached.shape_eq

theorem Reached.refillInterval_eq
    (hreached : table.Reached (burst, refillInterval, evictionGrace) order clock) :
    table.refillInterval = refillInterval :=
  congrArg (Prod.fst ∘ Prod.snd) hreached.shape_eq

section

variable (hreached : table.Reached shape order clock)
include hreached

/-- Every step of a run is one on the recency list. -/
theorem Reached.step (hnow : clock ≤ call.now) :
    ∃ changed, (table.step call).1.Reached shape changed call.now ∧
      (table.step call).1.recency changed = ((table.recency order).step call).1 ∧
      (table.step call).2.answer = ((table.recency order).step call).2 := by
  obtain ⟨changed, hrep, hrecency, hanswer⟩ := hreached.represents.step _
  refine ⟨changed, ⟨hrep, ?_, ?_⟩, hrecency, hanswer⟩
  · rw [hrecency]
    exact hreached.sound.step hnow
  · obtain ⟨hburst, hinterval, hgrace⟩ := (table.recency order).shape_step call
    rw [← hrecency] at hburst hinterval hgrace
    rw [← hreached.shape_eq]
    exact Prod.ext hburst (Prod.ext hinterval hgrace)

theorem Reached.threaded : table.Threaded order := by
  obtain ⟨hrep, hsound, _⟩ := hreached
  have hlength : order.length ≤ table.entries.length := by
    apply (subperm_of_subset hrep.orders.nodup _).length_le.trans_eq length_range
    intro slot hslot
    exact mem_range.mpr (lt_of_content ((hrep.occupied _).mp hslot))
  refine ⟨hrep.orders.nodup, ?_, ?_, ?_, ?_, ?_, ?_, ?_⟩
  · intro slot
    rw [isSome_entryAt, hrep.occupied]
  · intro fuel hfuel
    rw [show table.head = order.head? from hrep.orders.head_eq]
    exact Links.walk_older hrep.orders.stretch (hlength.trans hfuel)
  · intro fuel hfuel
    rw [show table.tail = order.getLast? from hrep.orders.tail_eq]
    exact Links.walk_newer hrep.orders.stretch (hlength.trans hfuel)
  · intro _ slot
    rw [hrep.index]
    constructor
    · rintro ⟨_, hitem, hkey⟩
      obtain ⟨entry, hentry, rfl⟩ := content_eq_some.mp hitem
      exact ⟨entry, hentry, hkey⟩
    · rintro ⟨entry, hentry, hkey⟩
      exact ⟨entry.tracked, content_eq_some.mpr ⟨entry, hentry, rfl⟩, hkey⟩
  · intro slot hslot
    obtain ⟨hbound, hempty⟩ := hrep.free_empty _ hslot
    exact ⟨hbound, by simpa [content] using hempty⟩
  · have hsorted := hsound.sorted
    have hview : (table.recency order).items.map Tracked.lastUse =
        (order.filterMap table.entryAt).map BucketEntry.lastUse := by
      rw [recency, view, map_filterMap, map_filterMap]
      apply filterMap_congr
      intro slot _
      rw [content, Option.map_map]
      rfl
    rw [hview, pairwise_map] at hsorted
    exact hsorted
  · rw [tracked_eq_length hrep, ← hrep.length_view]
    exact hsound.length_le

/-- A step spares the entries of other keys. -/
theorem Reached.spares (hnow : clock ≤ call.now)
    (hinterval : 0 < table.refillInterval) (hburst : table.burst ≤ u32Max)
    (hkey : key ≠ call.key) : (⟨table, call⟩ : Visit T).Spares key := by
  intro entry hentry
  obtain ⟨_, hnext, hrecency, _⟩ := hreached.step hnow
  obtain ⟨hitem, hitemKey⟩ := hreached.represents.lookup_iff.mpr ⟨entry, hentry, rfl⟩
  have hother : entry.tracked.key ≠ call.key := hitemKey ▸ hkey
  rcases Recency.admit_spares hreached.sound hnow hinterval hburst hitem hother _ with
    ⟨kept, hkept, hspares⟩ | ⟨hgone, hidle, hfull⟩
  · left
    have hmem := Recency.mem_step hkept (hspares.key ▸ hother)
    rw [← hrecency] at hmem
    obtain ⟨found, hfound, rfl⟩ := hnext.represents.lookup_iff.mp ⟨hmem, hspares.key.trans hitemKey⟩
    exact ⟨found, hfound, hspares⟩
  · refine .inr ⟨?_, hidle, hfull⟩
    rw [Option.eq_none_iff_forall_ne_some]
    intro found hfound
    obtain ⟨hmem, hfoundKey⟩ := hnext.represents.lookup_iff.mpr ⟨found, hfound, rfl⟩
    have hkeys := mem_map_of_mem (f := Tracked.key) hmem
    rw [hrecency, Recency.keys_step] at hkeys
    obtain ⟨_, hotherMem, hotherKey⟩ := mem_map.mp hkeys
    exact hgone _ hotherMem (hotherKey.trans (hfoundKey.trans hitemKey.symm))

theorem Reached.spending {watched : BucketKey}
    (hspending : (table.recency order).forget.Spending watched start width clock count)
    (hnow : clock ≤ call.now) (hinterval : 0 < table.refillInterval)
    (hburst : table.burst ≤ u32Max) (hprompt : call.key = watched ∧ start ≤ call.now ∧
      call.now < start + width → (⟨table, call⟩ : Visit T).Prompt) :
    ∃ changed, (table.step call).1.Reached shape changed call.now ∧
      ((table.step call).1.recency changed).forget.Spending watched start width call.now
        (count + if (⟨table, call⟩ : Visit T).Admits watched start width then 1 else 0) := by
  obtain ⟨changed, hnext, hrecency, hanswer⟩ := hreached.step hnow
  refine ⟨changed, hnext, ?_⟩
  have hforget := (table.recency order).forget_step call
  have hpromptList : (table.recency order).forget.Prompt watched start width call.key
      call.now := by
    intro hwindow _ hitem hkey
    obtain ⟨_, hwhole, rfl⟩ := mem_map.mp hitem
    obtain ⟨_, hentry, rfl⟩ := hreached.represents.lookup_iff.mp ⟨hwhole, hkey⟩
    exact hprompt hwindow _ hentry
  have hadmission := hspending.admission hnow hinterval hburst
    (Recency.sound_forget.mpr hreached.sound) hpromptList ()
  rw [hforget] at hadmission
  simp only [← hrecency, ← hanswer] at hadmission
  exact hadmission

end

/-- Times do not go back, from `clock` on. -/
def Timed (clock : ℕ) (calls : List (Call T)) : Prop :=
  (clock :: calls.map Call.now).Pairwise (· ≤ ·)

theorem Timed.split {calls : List (Call T)} (htimed : Timed clock (call :: calls)) :
    clock ≤ call.now ∧ Timed call.now calls := by
  rw [Timed, pairwise_cons] at htimed
  exact ⟨htimed.1 _ mem_cons_self, htimed.2⟩

variable {calls : List (Call T)}

/-- What every step preserves holds after every part of a run. -/
theorem Reached.run {rest : List (Call T)} (hreached : table.Reached shape order clock)
    (htimed : Timed clock (calls ++ rest)) :
    ∃ last time, (table.run calls).Reached shape last time ∧ Timed time rest := by
  induction calls generalizing table order clock with
  | nil => exact ⟨order, clock, hreached, htimed⟩
  | cons _ _ ih =>
    obtain ⟨hnow, hrest⟩ := htimed.split
    obtain ⟨_, hnext, _⟩ := hreached.step hnow
    exact ih hnext hrest

/-- Every call of a run finds a table that the run has reached by its time. -/
theorem Reached.visits (hreached : table.Reached shape order clock) (htimed : Timed clock calls) :
    ∀ visit ∈ table.visits calls,
      ∃ found time, visit.before.Reached shape found time ∧ time ≤ visit.call.now := by
  induction calls generalizing table order clock with
  | nil => simp [visits]
  | cons _ _ ih =>
    obtain ⟨hnow, hrest⟩ := htimed.split
    obtain ⟨_, hnext, _⟩ := hreached.step hnow
    exact forall_mem_cons.mpr ⟨⟨order, clock, hreached, hnow⟩, ih hnext hrest⟩

/-- The admissions of a run that count stay within the account. -/
theorem Reached.countP_visits
    (hreached : table.Reached (burst, refillInterval, evictionGrace) order clock)
    (hspending : (table.recency order).forget.Spending key start width clock count)
    (htimed : Timed clock calls) (hinterval : 0 < refillInterval)
    (hburst : burst ≤ u32Max) (hprompt : ∀ visit ∈ table.visits calls,
      visit.call.key = key ∧ start ≤ visit.call.now ∧
        visit.call.now < start + width → visit.Prompt) :
    count + (table.visits calls).countP (fun visit => decide (visit.Admits key start width)) ≤
      burst + width ⌈/⌉ refillInterval := by
  induction calls generalizing table order clock count with
  | nil =>
    have hbounded := hspending.bounded
    rw [← hreached.burst_eq, ← hreached.refillInterval_eq]
    exact hbounded
  | cons call _ ih =>
    obtain ⟨hnow, hrest⟩ := htimed.split
    obtain ⟨_, hnext, hspent⟩ := hreached.spending hspending hnow
      (hinterval.trans_eq hreached.refillInterval_eq.symm)
      (hreached.burst_eq.trans_le hburst) (hprompt ⟨table, call⟩ mem_cons_self)
    have hcount := ih hnext hspent hrest fun visit hvisit => hprompt _ (mem_cons_of_mem _ hvisit)
    rw [SessionBuckets.visits, countP_cons]
    simp only [decide_eq_true_eq]
    omega

/-- A recent key stays tracked while no call comes past its grace. -/
theorem Reached.recent_run {time : ℕ}
    (hreached : table.Reached (burst, refillInterval, evictionGrace) order clock)
    (hrecent : (table.recency order).Recent key time) (htimed : Timed clock calls)
    (hinterval : 0 < refillInterval) (hburst : burst ≤ u32Max)
    (hgrace : ∀ call ∈ calls, call.now - time < evictionGrace) :
    (table.run calls).lookup key ≠ none := by
  induction calls generalizing table order clock with
  | nil =>
    obtain ⟨_, hitem, hkey, _⟩ := hrecent
    obtain ⟨_, hentry, _⟩ := hreached.represents.lookup_iff.mp ⟨hitem, hkey⟩
    simp [SessionBuckets.run, hentry]
  | cons call _ ih =>
    obtain ⟨hnow, hrest⟩ := htimed.split
    obtain ⟨_, hnext, hrecency, _⟩ := hreached.step hnow
    have hkept := hrecent.admission hreached.sound hnow
      (hinterval.trans_eq hreached.refillInterval_eq.symm)
      (hreached.burst_eq.trans_le hburst) ((hgrace _ mem_cons_self).trans_eq
        (congrArg (Prod.snd ∘ Prod.snd) hreached.shape_eq).symm) call.key call.init
    apply ih hnext _ hrest fun later hlater => hgrace _ (mem_cons_of_mem _ hlater)
    rw [hrecency, ← Recency.recent_forget, Recency.step, Recency.forget_settle,
      Recency.recent_forget]
    exact hkept

theorem reached_new (burst refillInterval evictionGrace : ℕ) :
    (new burst refillInterval evictionGrace : SessionBuckets T).Reached
      (burst, refillInterval, evictionGrace) [] 0 where
  represents := represents_new _ _ _
  sound := ⟨nodup_nil, Nat.zero_le _, List.Pairwise.nil, nofun⟩
  shape_eq := rfl

end SessionBuckets

/-- The admissions of every run under one limit: bounded for each key in every window
that it meets promptly, without effect on what the others may take, and with a
consistent table throughout, which keeps a key until its grace is over. -/
theorem admissions_isolated (burst refillInterval evictionGrace : ℕ)
    (hburst : burst ≤ u32Max) (hinterval : 0 < refillInterval)
    (calls : List (Call T)) (htimes : (calls.map Call.now).Pairwise (· ≤ ·)) :
    (∀ key start width,
      (∀ visit ∈ (new burst refillInterval evictionGrace).visits calls,
        visit.call.key = key ∧ start ≤ visit.call.now ∧
          visit.call.now < start + width → visit.Prompt) →
      ((new burst refillInterval evictionGrace).visits calls).countP
        (fun visit => decide (visit.Admits key start width)) ≤
          burst + width ⌈/⌉ refillInterval) ∧
    (∀ visit ∈ (new burst refillInterval evictionGrace).visits calls,
      ∀ key, key ≠ visit.call.key → visit.Spares key) ∧
    (∀ earlier call later, calls = earlier ++ call :: later →
      (((new burst refillInterval evictionGrace).run earlier).step call).2 ≠
        .capacityExhausted →
      (∀ other ∈ later, other.now - call.now < evictionGrace) →
      ((new burst refillInterval evictionGrace).run calls).lookup call.key ≠ none) ∧
    ∃ order, ((new burst refillInterval evictionGrace).run calls).Threaded order := by
  have hreached := reached_new (T := T) burst refillInterval evictionGrace
  generalize (new burst refillInterval evictionGrace : SessionBuckets T) = table at hreached ⊢
  have htimed : SessionBuckets.Timed 0 calls :=
    pairwise_cons.mpr ⟨fun _ _ => Nat.zero_le _, htimes⟩
  refine ⟨?_, ?_, ?_, ?_⟩
  · intro key start width hprompt
    have hempty : (table.recency []).forget.Spending key start width 0 0 :=
      ⟨nofun, fun _ => Nat.zero_le _, by simp, Nat.zero_le _⟩
    simpa using hreached.countP_visits hempty htimed hinterval hburst hprompt
  · intro visit hvisit key hkey
    obtain ⟨order, clock, hfound, hnow⟩ := hreached.visits htimed _ hvisit
    exact hfound.spares hnow (hinterval.trans_eq hfound.refillInterval_eq.symm)
      (hfound.burst_eq.trans_le hburst) hkey
  · rintro earlier call later rfl hserved hgrace
    obtain ⟨order, clock, hfound, hrest⟩ := hreached.run htimed
    obtain ⟨hnow, hlater⟩ := hrest.split
    obtain ⟨changed, hnext, hrecency, hanswer⟩ := hfound.step hnow
    have hrecent : (((table.run earlier).step call).1.recency changed).Recent call.key
        call.now := by
      rw [hrecency, ← Recency.recent_forget, Recency.step,
        Recency.forget_settle, Recency.recent_forget]
      obtain ⟨first, _, hitems, hkey, htime⟩ := Recency.front_of_served fun hexhausted => by
        have hsame : ((table.run earlier).step call).2.answer = .capacityExhausted :=
          hanswer.trans hexhausted
        generalize ((table.run earlier).step call).2 = admission at hserved hsame
        cases admission with
        | admitted | rateLimited => cases hsame
        | capacityExhausted => exact hserved rfl
      exact ⟨first, hitems ▸ mem_cons_self, hkey, htime⟩
    rw [run, foldl_append]
    exact hnext.recent_run hrecent hlater hinterval hburst hgrace
  · have hwhole : SessionBuckets.Timed 0 (calls ++ []) := by rwa [append_nil]
    obtain ⟨order, clock, hlast, _⟩ := hreached.run hwhole
    exact ⟨order, hlast.threaded⟩

/-! ## Runs that refill a bucket -/

def numberedKey (number : ℕ) : BucketKey := ⟨bigEndian 4 number, length_bigEndian 4 number⟩

theorem numberedKey_injective {left right : ℕ} (hleft : left < 256 ^ 4)
    (hright : right < 256 ^ 4) (heq : numberedKey left = numberedKey right) : left = right := by
  have hbytes : bigEndian 4 left = bigEndian 4 right := congrArg List.Vector.toList heq
  rw [← fromBigEndian_bigEndian hleft, hbytes, fromBigEndian_bigEndian hright]

/-- An admission whose caller keeps no state. -/
def plainCall (now : ℕ) (key : BucketKey) : Call Unit := ⟨key, now, (), id⟩

/-- Two calls of one key within a window of one interval. -/
theorem admissions_isolated_sample :
    let visits := (new 1 10 20).visits [plainCall 0 (numberedKey 0), plainCall 5 (numberedKey 0)]
    (∀ visit ∈ visits, visit.Prompt) ∧
      visits.countP (fun visit => decide (visit.Admits (numberedKey 0) 0 6)) ≤ 1 + 6 ⌈/⌉ 10 := by
  intro visits
  have hprompt : ∀ visit ∈ visits, visit.Prompt := by decide +kernel
  exact ⟨hprompt, (admissions_isolated 1 10 20 (by decide) (by decide) _ (by decide)).1 _ _ _
    fun visit hvisit _ => hprompt _ hvisit⟩

namespace Recency

def run (recency : Recency T) (calls : List (Call T)) : Recency T :=
  calls.foldl (fun recency call => (recency.step call).1) recency

theorem run_cons (recency : Recency T) (call : Call T) (calls : List (Call T)) :
    recency.run (call :: calls) = (recency.step call).1.run calls := rfl

/-- A new key goes to the front of a list with room. -/
theorem step_new {recency : Recency Unit} {key : BucketKey} (now : ℕ)
    (hnew : ∀ item ∈ recency.items, item.key ≠ key)
    (hroom : recency.items.length < packetTooBigTrackedSessions) :
    (recency.step (plainCall now key)).1 = (recency.fresh recency.items key now ()).1 := by
  have hadmission : recency.admission key now () = recency.fresh recency.items key now () := by
    have hfind : recency.items.find? (fun item => decide (item.key = key)) = none := by
      simpa [find?_eq_none] using hnew
    rw [admission, hfind]
    exact if_neg (not_le.mpr hroom)
  simp only [step, plainCall, hadmission]
  cases (recency.fresh recency.items key now ()).2 <;> rfl

/-- New keys go before the others while there is room. -/
theorem run_new (recency : Recency Unit) (keys : List BucketKey) (now : ℕ)
    (hnodup : keys.Nodup) (hnew : ∀ item ∈ recency.items, item.key ∉ keys)
    (hroom : recency.items.length + keys.length ≤ packetTooBigTrackedSessions) :
    ∃ items, recency.run (keys.map (plainCall now)) =
        { recency with items := items ++ recency.items } ∧
      items.length = keys.length ∧ ∀ item ∈ items, item.key ∈ keys := by
  induction keys generalizing recency with
  | nil => exact ⟨[], rfl, rfl, by simp⟩
  | cons key _ ih =>
    rw [nodup_cons] at hnodup
    rw [length_cons] at hroom
    have hstep := step_new now
      (fun item hitem hkey => hnew _ hitem (hkey ▸ mem_cons_self)) (by omega)
    obtain ⟨items, hrun, hlength, hkeys⟩ := ih (recency.fresh recency.items key now ()).1
      hnodup.2 (forall_mem_cons.mpr ⟨hnodup.1, fun _ hitem hmem =>
        hnew _ hitem (mem_cons_of_mem _ hmem)⟩) (by simp only [fresh, length_cons]; omega)
    refine ⟨items ++ [((⟨key, ⟨recency.burst, now⟩, now, ()⟩ : Tracked Unit).take recency.burst
      recency.refillInterval now).1], ?_, by simp [hlength], ?_⟩
    · rw [map_cons, run_cons, hstep, hrun]
      simp [fresh]
    · exact forall_mem_append.mpr ⟨fun _ hitem => mem_cons_of_mem _
        (hkeys _ hitem), forall_mem_singleton.mpr mem_cons_self⟩

end Recency

theorem SessionBuckets.Represents.run {table : SessionBuckets T}
    {order : List ℕ} (hrep : table.Represents order) (calls : List (Call T)) :
    ∃ last, (table.run calls).Represents last ∧
      (table.run calls).recency last = (table.recency order).run calls := by
  induction calls generalizing table order with
  | nil => exact ⟨order, hrep, rfl⟩
  | cons _ _ ih =>
    obtain ⟨_, hchanged, hrecency, _⟩ := hrep.step _
    obtain ⟨last, hlast, hrun⟩ := ih hchanged
    rw [hrecency] at hrun
    exact ⟨last, hlast, hrun⟩

theorem SessionBuckets.mem_visits_concat (table : SessionBuckets T) (calls : List (Call T))
    (call : Call T) : ⟨table.run calls, call⟩ ∈ table.visits (calls ++ [call]) := by
  induction calls generalizing table with
  | nil => exact mem_cons_self
  | cons _ _ ih => exact mem_cons_of_mem _ (ih _)

/-- A list with three tokens for each datagram lifetime. -/
def slowRecency (items : List (Tracked Unit)) : Recency Unit :=
  ⟨3, maximumDatagramLifetime, maximumDatagramLifetime, items⟩

/-- The first key with so many tokens. -/
def firstItem (tokens lastRefill : ℕ) : Tracked Unit := ⟨numberedKey 0, ⟨tokens, lastRefill⟩, 0, ()⟩

/-- Two admissions of one key, then one of each of 4095 others. -/
def crowdedCalls : List (Call Unit) :=
  (numberedKey 0 :: numberedKey 0 ::
    (range 4095).map fun number => numberedKey (number + 1)).map (plainCall 0)

/-- They fill the list; the first key is the last one in it. -/
theorem recency_crowdedCalls :
    ∃ items, (slowRecency []).run crowdedCalls = slowRecency (items ++ [firstItem 1 0]) ∧
      items.length = 4095 ∧ ∀ item ∈ items, item.key ≠ numberedKey 4096 := by
  obtain ⟨items, hrun, hlength, hkeys⟩ := Recency.run_new (slowRecency [firstItem 1 0])
    ((range 4095).map fun number => numberedKey (number + 1)) 0
    (by
      refine List.Nodup.map_on ?_ nodup_range
      intro _ hleft _ hright heq
      rw [mem_range] at hleft hright
      have hsame := numberedKey_injective (by omega) (by omega) heq
      omega)
    (by
      intro item hitem hmem
      obtain ⟨number, hnumber, hkey⟩ := mem_map.mp hmem
      rw [mem_singleton.mp hitem, firstItem] at hkey
      rw [mem_range] at hnumber
      have hsame := numberedKey_injective (by omega) (by omega) hkey
      omega)
    (by simp [slowRecency, packetTooBigTrackedSessions])
  refine ⟨items, ?_, by simpa using hlength, ?_⟩
  · simp only [crowdedCalls, map_cons, Recency.run_cons]
    exact hrun
  · intro item hitem hkey
    obtain ⟨number, hnumber, hsame⟩ := mem_map.mp (hkeys _ hitem)
    rw [mem_range] at hnumber
    have hequal := numberedKey_injective (by omega) (by omega) (hsame.trans hkey)
    omega

/-- A new key that finds the list full refills the last bucket. -/
theorem Recency.admit_crowded {items : List (Tracked Unit)} (hlength : items.length = 4095)
    (hkeys : ∀ item ∈ items, item.key ≠ numberedKey 4096) :
    (slowRecency (items ++ [firstItem 1 0])).admission
        (numberedKey 4096) maximumDatagramLifetime () =
      (slowRecency (items ++ [firstItem 2 maximumDatagramLifetime]), .capacityExhausted) := by
  have hfind : (items ++ [firstItem 1 0]).find?
      (fun item => decide (item.key = numberedKey 4096)) = none := by
    rw [find?_append, find?_eq_none.mpr (by simpa using hkeys)]
    decide
  simp only [slowRecency, admission, hfind, length_append, hlength,
    getLast?_concat, dropLast_concat]
  rfl

/-- One more key at the end of the lifetime changes the stored tokens of another.
After a long idle time a bucket refills more than once at the same time, and
admits three times where the bound for the window is two. -/
theorem tokens_refilled_by_other :
    (∃ visit ∈ (new 3 maximumDatagramLifetime maximumDatagramLifetime).visits
        (crowdedCalls ++ [plainCall maximumDatagramLifetime (numberedKey 4096)]),
      visit.call.key ≠ numberedKey 0 ∧
      ∃ entry kept, visit.before.lookup (numberedKey 0) = some entry ∧ entry.bucket.tokens = 1 ∧
        visit.after.lookup (numberedKey 0) = some kept ∧ kept.bucket.tokens = 2) ∧
    ¬ ((new 1 1 maximumDatagramLifetime).visits
      ([0, 3 * u32Max, 3 * u32Max, 3 * u32Max].map fun now => plainCall now (numberedKey 0))).countP
        (fun visit => decide (visit.Admits (numberedKey 0) (3 * u32Max) 1)) ≤ 1 + 1 ⌈/⌉ 1 := by
  refine ⟨?_, by decide +kernel⟩
  obtain ⟨_, hrun, hlength, hkeys⟩ := recency_crowdedCalls
  obtain ⟨_, hrep, hrecency⟩ := (represents_new (T := Unit) 3
    maximumDatagramLifetime maximumDatagramLifetime).run _
  have hlist := hrecency.trans hrun
  obtain ⟨_, hchanged, hstep, _⟩ := hrep.step
    (plainCall maximumDatagramLifetime (numberedKey 4096))
  have hafter := Recency.admit_crowded hlength hkeys
  rw [hlist, Recency.step, plainCall, hafter] at hstep
  obtain ⟨entry, hentry, hbucket⟩ := hrep.lookup_iff.mp
    (show firstItem 1 0 ∈ _ ∧ _ = numberedKey 0 from ⟨by rw [hlist]; simp [slowRecency], rfl⟩)
  obtain ⟨kept, hkept, hrefilled⟩ := hchanged.lookup_iff.mp
    (show firstItem 2 maximumDatagramLifetime ∈ _ ∧ _ = numberedKey 0 from
      ⟨by rw [plainCall, hstep]; simp [Recency.settle, slowRecency], rfl⟩)
  have hvisit := mem_visits_concat
    (new 3 maximumDatagramLifetime maximumDatagramLifetime) crowdedCalls
    (plainCall maximumDatagramLifetime (numberedKey 4096))
  have htokens : entry.bucket.tokens = 1 := congrArg (fun item => item.bucket.tokens) hbucket
  have hmore : kept.bucket.tokens = 2 := congrArg (fun item => item.bucket.tokens) hrefilled
  generalize (new 3 maximumDatagramLifetime maximumDatagramLifetime).run
    crowdedCalls = crowded at hvisit hentry hkept
  exact ⟨_, hvisit, show numberedKey 4096 ≠ numberedKey 0 by decide, entry,
    kept, hentry, htokens, hkept, hmore⟩

end PacketCore.Gtpu
