import PacketCore.Gtpu.BucketTable

/-!
# Admission on the recency list

The bucket table refines a plain list of tracked keys, most recently used first.
An admission moves its key to the front; a new key is put in front, at the price
of the last one when the list is full.
-/

namespace PacketCore.Gtpu

open List

variable {T : Type*}

inductive Answer where
  | admitted
  | rateLimited
  | capacityExhausted
deriving DecidableEq

def BucketAdmission.answer : BucketAdmission → Answer
  | admitted _ => .admitted
  | rateLimited => .rateLimited
  | capacityExhausted => .capacityExhausted

/-- Take a token from the item's bucket. -/
def Tracked.take (item : Tracked T) (burst refillInterval now : ℕ) : Tracked T × Answer :=
  let result := item.bucket.admission burst refillInterval now
  ({ item with bucket := result.2 }, if result.1 then .admitted else .rateLimited)

/-- The tracked keys, most recently used first, under one bucket shape. -/
structure Recency (T : Type*) where
  burst : ℕ
  refillInterval : ℕ
  evictionGrace : ℕ
  items : List (Tracked T)

namespace Recency

/-- Track a new key with a full bucket and take its first token. -/
def fresh (recency : Recency T) (items : List (Tracked T)) (key : BucketKey)
    (now : ℕ) (init : T) : Recency T × Answer :=
  let taken := (⟨key, ⟨recency.burst, now⟩, now, init⟩ : Tracked T).take recency.burst
    recency.refillInterval now
  ({ recency with items := taken.1 :: items }, taken.2)

def admission (recency : Recency T) (key : BucketKey) (now : ℕ) (init : T) : Recency T × Answer :=
  match recency.items.find? (fun item => decide (item.key = key)) with
  | some item =>
    let taken := { item with lastUse := max item.lastUse now }.take recency.burst
      recency.refillInterval now
    ({ recency with
      items := taken.1 :: recency.items.eraseP (fun item => decide (item.key = key)) }, taken.2)
  | none =>
    if packetTooBigTrackedSessions ≤ recency.items.length then
      match recency.items.getLast? with
      | none => (recency, .capacityExhausted)
      | some last =>
        if now - last.lastUse < recency.evictionGrace then (recency, .capacityExhausted)
        else
          let bucket := last.bucket.refill recency.burst recency.refillInterval now
          if bucket.tokens = recency.burst then
            recency.fresh recency.items.dropLast key now init
          else
            ({ recency with items := recency.items.dropLast ++ [{ last with bucket := bucket }] },
              .capacityExhausted)
    else recency.fresh recency.items key now init

/-- Another bucket shape; no key gains tokens by it. -/
def replaceLimit (recency : Recency T) (burst refillInterval now : ℕ) : Recency T :=
  if burst = recency.burst ∧ refillInterval = recency.refillInterval then recency
  else
    { recency with
      burst := burst
      refillInterval := refillInterval
      items := recency.items.map fun item =>
        { item with
          bucket := item.bucket.reshape recency.burst recency.refillInterval burst now } }

end Recency

/-! ## What an admission can do -/

/-- The outcomes of an admission, by what becomes of the list. -/
inductive Admits (recency : Recency T) (key : BucketKey) (now : ℕ) (init : T) :
    Recency T × Answer → Prop
  | tracked {left right item} (hitems : recency.items = left ++ item :: right)
      (hkey : item.key = key) :
      Admits recency key now init
        ({ recency with
          items := ({ item with lastUse := max item.lastUse now }.take recency.burst
            recency.refillInterval now).1 :: (left ++ right) },
          ({ item with lastUse := max item.lastUse now }.take recency.burst
            recency.refillInterval now).2)
  | created (hnew : ∀ item ∈ recency.items, item.key ≠ key)
      (hroom : recency.items.length < packetTooBigTrackedSessions) :
      Admits recency key now init (recency.fresh recency.items key now init)
  | evicted {rest : List (Tracked T)} {last : Tracked T}
      (hnew : ∀ item ∈ recency.items, item.key ≠ key)
      (hroom : packetTooBigTrackedSessions ≤ recency.items.length)
      (hitems : recency.items = rest ++ [last])
      (hidle : recency.evictionGrace ≤ now - last.lastUse)
      (hfull : (last.bucket.refill recency.burst recency.refillInterval now).tokens =
        recency.burst) :
      Admits recency key now init (recency.fresh rest key now init)
  | refused (hnew : ∀ item ∈ recency.items, item.key ≠ key) :
      Admits recency key now init (recency, .capacityExhausted)
  | refilled {rest last} (hnew : ∀ item ∈ recency.items, item.key ≠ key)
      (hroom : packetTooBigTrackedSessions ≤ recency.items.length)
      (hitems : recency.items = rest ++ [last]) :
      Admits recency key now init
        ({ recency with items := rest ++ [{ last with
          bucket := last.bucket.refill recency.burst recency.refillInterval now }] },
          .capacityExhausted)

theorem Recency.admits (recency : Recency T) (key : BucketKey) (now : ℕ) (init : T) :
    Admits recency key now init (recency.admission key now init) := by
  unfold Recency.admission
  cases hfind : recency.items.find? (fun item => decide (item.key = key)) with
  | some item =>
    obtain ⟨hkey, left, right, hitems, hleft⟩ := find?_eq_some_iff_append.mp hfind
    have herase : recency.items.eraseP (fun item => decide (item.key = key)) = left ++ right := by
      rw [hitems, eraseP_append_right, eraseP_cons_of_pos (by simpa using hkey)]
      intro _ hother
      simpa using hleft _ hother
    simp only [herase]
    exact .tracked hitems (of_decide_eq_true hkey)
  | none =>
    have hnew : ∀ item ∈ recency.items, item.key ≠ key := by
      simpa using find?_eq_none.mp hfind
    by_cases hfull : packetTooBigTrackedSessions ≤ recency.items.length
    · rw [if_pos hfull]
      cases hlast : recency.items.getLast? with
      | none => exact .refused hnew
      | some last =>
        have hitems : recency.items = recency.items.dropLast ++ [last] :=
          (dropLast_append_getLast? _ hlast).symm
        simp only
        split
        · exact .refused hnew
        · rename_i hgrace
          split
          · rename_i htokens
            exact .evicted hnew hfull hitems (not_lt.mp hgrace) htokens
          · exact .refilled hnew hfull hitems
    · rw [if_neg hfull]
      exact .created hnew (not_le.mp hfull)

variable {next : SessionBuckets T}

namespace SessionBuckets

variable {table : SessionBuckets T} {order rest : List ℕ} {slot : ℕ}
  {key : BucketKey} {item : Tracked T} {now : ℕ} {init : T}

def recency (table : SessionBuckets T) (order : List ℕ) : Recency T :=
  ⟨table.burst, table.refillInterval, table.evictionGrace, table.view order⟩

theorem view_cons (hitem : table.content slot = some item) :
    table.view (slot :: rest) = item :: table.view rest :=
  filterMap_cons_some hitem

theorem view_append (left right : List ℕ) :
    table.view (left ++ right) = table.view left ++ table.view right :=
  filterMap_append

theorem view_congr (hsame : ∀ slot ∈ order, next.content slot = table.content slot) :
    next.view order = table.view order :=
  filterMap_congr hsame

/-- A change of one slot is not seen in the others. -/
theorem view_modifyEntry (hslot : slot ∉ order) (change : BucketEntry T → BucketEntry T) :
    (table.modifyEntry slot change).view order = table.view order := by
  apply view_congr
  intro other hother
  have hne : other ≠ slot := by
    rintro rfl
    exact hslot hother
  rw [content, entryAt_modifyEntry, if_neg hne, content]

theorem mem_view : item ∈ table.view order ↔ ∃ slot ∈ order, table.content slot = some item :=
  mem_filterMap

section

variable (hrep : table.Represents order)
include hrep

theorem Represents.length_view : (table.view order).length = order.length := by
  rw [view, length_filterMap_eq_countP, countP_eq_length]
  exact fun slot hslot => (hrep.occupied _).mp hslot

theorem Represents.find_view_none (hnone : table.index.find key = none) :
    (table.view order).find? (fun found => decide (found.key = key)) = none := by
  rw [find?_eq_none]
  intro found hfound
  obtain ⟨_, _, hcontent⟩ := mem_view.mp hfound
  simp only [decide_eq_true_eq]
  rintro rfl
  rw [hrep.find_key hcontent] at hnone
  cases hnone

section

variable (hitem : table.content slot = some item)
include hitem

theorem Represents.mem_order : slot ∈ order := by
  rw [hrep.occupied, hitem]
  rfl

/-- Two occupied slots with one key are the same. -/
theorem Represents.slot_unique {other : ℕ} {found : Tracked T}
    (hfound : table.content other = some found)
    (hkey : found.key = item.key) : other = slot := by
  have hother := hrep.find_key hfound
  rw [hkey, hrep.find_key hitem] at hother
  exact (Option.some.inj hother).symm

theorem Represents.find_view :
    (table.view order).find? (fun found => decide (found.key = item.key)) = some item := by
  rw [find?_eq_some_iff_append]
  obtain ⟨left, right, rfl⟩ := append_of_mem (hrep.mem_order hitem)
  refine ⟨by simp, table.view left, table.view right, ?_, ?_⟩
  · rw [view_append, view_cons hitem]
  · intro found hfound
    obtain ⟨_, hother, hcontent⟩ := mem_view.mp hfound
    simp only [Bool.not_eq_true', decide_eq_false_iff_not]
    intro hkey
    obtain rfl := hrep.slot_unique hitem hcontent hkey
    have hnodup := hrep.orders.nodup
    rw [nodup_append] at hnodup
    exact hnodup.2.2 _ hother _ mem_cons_self rfl

/-- Taking a slot out of the order takes its key out of the view. -/
theorem Represents.view_erase :
    table.view (order.erase slot) =
      (table.view order).eraseP (fun found => decide (found.key = item.key)) := by
  obtain ⟨left, _, rfl⟩ := append_of_mem (hrep.mem_order hitem)
  have hnodup := hrep.orders.nodup
  rw [nodup_append] at hnodup
  have hleft : slot ∉ left := fun hmem => hnodup.2.2 _ hmem _ mem_cons_self rfl
  have hkeys : ∀ found ∈ table.view left, ¬ decide (found.key = item.key) = true := by
    intro found hfound
    obtain ⟨_, hother, hcontent⟩ := mem_view.mp hfound
    simp only [decide_eq_true_eq]
    intro hkey
    exact hleft (hrep.slot_unique hitem hcontent hkey ▸ hother)
  rw [erase_append_right _ hleft, erase_cons_head, view_append, view_append,
    view_cons hitem, eraseP_append_right _ hkeys, eraseP_cons_of_pos (by simp)]

end

end

/-- A table and its answer, against the list and its answer.  An admitted key is
the most recently used one. -/
structure Refines (result : SessionBuckets T × BucketAdmission) (order : List ℕ)
    (abstract : Recency T × Answer) : Prop where
  represents : result.1.Represents order
  recency_eq : result.1.recency order = abstract.1
  answer_eq : result.2.answer = abstract.2
  admitted : ∀ slot, result.2 = .admitted slot → order.head? = some slot

/-- Taking a token from the slot in front. -/
theorem Represents.take (now : ℕ) (change : BucketEntry T → BucketEntry T)
    (changed : Tracked T) (hrep : table.Represents (slot :: rest))
    (hitem : table.content slot = some item) (hkeeps : Keeps change)
    (hchange : ∀ entry, entry.tracked = item → (change entry).tracked = changed)
    (hbucket : changed.bucket = item.bucket) :
    Refines (table.take slot now change) (slot :: rest)
      ({ table.recency rest with
        items := (changed.take table.burst table.refillInterval now).1 :: table.view rest },
        (changed.take table.burst table.refillInterval now).2) := by
  obtain ⟨entry, hentry, rfl⟩ := content_eq_some.mp hitem
  have hresult : changed.bucket.admission table.burst table.refillInterval now =
      entry.bucket.admission table.burst table.refillInterval now := by
    rw [hbucket]
    rfl
  have htake : table.take slot now change =
      (table.modifyEntry slot fun found => { change found with
        bucket := (entry.bucket.admission table.burst table.refillInterval now).2 },
      if (entry.bucket.admission table.burst table.refillInterval now).1 then .admitted slot
      else .rateLimited) := by
    unfold SessionBuckets.take
    rw [hentry]
  rw [htake]
  constructor
  · exact hrep.modify hkeeps
  · unfold recency
    rw [view_cons (content_modifyEntry_self hentry),
      view_modifyEntry (nodup_cons.mp hrep.orders.nodup).1]
    simp only [Tracked.take, hresult]
    rw [← hchange _ rfl]
    rfl
  · simp only [Tracked.take, hresult]
    split <;> rfl
  · intro admitted hadmitted
    split at hadmitted
    · cases hadmitted
      rfl
    · cases hadmitted

/-- The bucket shape of a table. -/
def shape (table : SessionBuckets T) : ℕ × ℕ × ℕ :=
  (table.burst, table.refillInterval, table.evictionGrace)

theorem SameContent.shape (hsame : SameContent table next) : next.shape = table.shape := by
  unfold SessionBuckets.shape
  rw [hsame.burst, hsame.refillInterval, hsame.evictionGrace]

theorem shape_insert (table : SessionBuckets T) (key : BucketKey) (now : ℕ)
    (init : T) : (table.insert key now init).2.shape = table.shape := by
  refine (sameContent_linkFront _ _).shape.trans ?_
  unfold place
  split <;> rfl

section

variable (hrep : table.Represents order)
include hrep

/-- Tracking a new key. -/
theorem Represents.create (hnew : table.index.find key = none)
    (now : ℕ) (init : T) :
    ∃ grown, Refines (table.create key now init) grown
      ((table.recency order).fresh (table.view order) key now init) := by
  obtain ⟨hinserted, hcontent⟩ := hrep.insert hnew _ _
  have hshape := shape_insert table key now init
  simp only [shape, Prod.mk.injEq] at hshape
  obtain ⟨hburst, hinterval, hgrace⟩ := hshape
  have hfront : (table.insert key now init).2.content (table.insert key now init).1 =
      some ⟨key, ⟨table.burst, now⟩, now, init⟩ := by
    rw [hcontent, if_pos rfl]
  have hview : (table.insert key now init).2.view order = table.view order := by
    apply view_congr
    intro _ hother
    rw [hcontent, if_neg]
    rintro rfl
    exact (nodup_cons.mp hinserted.orders.nodup).1 hother
  have htake := Represents.take now id ⟨key, ⟨table.burst, now⟩, now, init⟩ hinserted hfront
    (fun _ => ⟨rfl, rfl, rfl⟩) (fun _ htracked => htracked) rfl
  simp only [recency, hburst, hinterval, hgrace, hview] at htake
  exact ⟨_, htake⟩

/-- The last slot of the order is the tail, and its content ends the view. -/
theorem Represents.split_tail (htail : table.tail = some slot) :
    ∃ item, table.content slot = some item ∧ order = order.dropLast ++ [slot] ∧
      slot ∉ order.dropLast ∧ order.erase slot = order.dropLast ∧
      table.view order = table.view order.dropLast ++ [item] := by
  have hlast : order.getLast? = some slot := hrep.orders.tail_eq.symm.trans htail
  have hsplit : order = order.dropLast ++ [slot] := (dropLast_append_getLast? _ hlast).symm
  obtain ⟨item, hitem⟩ := Option.isSome_iff_exists.mp ((hrep.occupied _).mp (mem_of_getLast? hlast))
  have hnodup := hrep.orders.nodup
  rw [hsplit, nodup_append] at hnodup
  have hnot : slot ∉ order.dropLast := fun hmem => hnodup.2.2 _ hmem _ mem_cons_self rfl
  refine ⟨item, hitem, hsplit, hnot, ?_, ?_⟩
  · conv_lhs => rw [hsplit]
    rw [erase_append_right _ hnot]
    simp
  · conv_lhs => rw [hsplit]
    rw [view_append, view_cons hitem]
    rfl

/-- An admission of a tracked key. -/
theorem Represents.admit_tracked
    (hitem : table.content slot = some item) (now : ℕ) :
    let taken := { item with lastUse := max item.lastUse now }.take table.burst
      table.refillInterval now
    Refines ((table.touch slot).take slot now fun entry =>
        { entry with lastUse := max entry.lastUse now }) (slot :: order.erase slot)
      ({ table.recency order with items := taken.1 ::
          (table.view order).eraseP (fun found => decide (found.key = item.key)) }, taken.2) := by
  have hsame := (sameContent_unlink table slot).trans (sameContent_linkFront _ slot)
  have hburst : (table.touch slot).burst = table.burst := hsame.burst
  have hinterval : (table.touch slot).refillInterval = table.refillInterval := hsame.refillInterval
  have hgrace : (table.touch slot).evictionGrace = table.evictionGrace := hsame.evictionGrace
  have hview : (table.touch slot).view (order.erase slot) = table.view (order.erase slot) :=
    view_congr fun other _ => hsame.content _
  have htake := Represents.take now
    (fun entry => { entry with lastUse := max entry.lastUse now })
    { item with lastUse := max item.lastUse now } (hrep.touch (hrep.mem_order hitem))
    ((hsame.content _).trans hitem) (fun _ => ⟨rfl, rfl, rfl⟩) (by rintro entry rfl; rfl) rfl
  simp only [recency, hburst, hinterval, hgrace, hview, hrep.view_erase hitem] at htake
  exact htake

/-- A change of the last bucket changes the last item. -/
theorem Represents.refill_tail (htail : table.tail = some slot)
    (hitem : table.content slot = some item) (bucket : TokenBucket) :
    let refilled := table.modifyEntry slot fun entry => { entry with bucket := bucket }
    refilled.Represents order ∧
      refilled.view order = (table.view order).dropLast ++ [{ item with bucket := bucket }] ∧
      refilled.view order.dropLast = (table.view order).dropLast := by
  obtain ⟨_, hfound, hsplit, hnot, _, hview⟩ := hrep.split_tail htail
  rw [hitem] at hfound
  obtain ⟨entry, hentry, rfl⟩ := content_eq_some.mp hitem
  refine ⟨hrep.modify fun _ => ⟨rfl, rfl, rfl⟩, ?_, ?_⟩
  · conv_lhs => rw [hsplit]
    rw [view_append, view_modifyEntry hnot,
      view_cons (content_modifyEntry_self hentry), hview, dropLast_concat]
    rfl
  · rw [view_modifyEntry hnot, hview, dropLast_concat]

end

theorem shape_evictTail (table : SessionBuckets T) : table.evictTail.shape = table.shape := by
  unfold evictTail
  split
  · rfl
  · rename_i tail _
    have hsame := (sameContent_unlink table tail).shape
    simp only
    split <;> exact hsame

section

variable (hrep : table.Represents order)
include hrep

/-- A new key in place of the evicted one. -/
theorem Represents.create_evicting (htail : table.tail = some slot)
    (hnew : table.index.find key = none) (now : ℕ) (init : T) :
    ∃ changed, Refines (table.evictTail.create key now init) changed
      ((table.recency order).fresh (table.view order.dropLast) key now init) := by
  obtain ⟨hevicted, hcontent⟩ := hrep.evictTail htail
  obtain ⟨_, _, _, hnot, herase, _⟩ := hrep.split_tail htail
  have hnone : table.evictTail.index.find key = none := by
    rw [Option.eq_none_iff_forall_ne_some]
    intro other hfind
    obtain ⟨found, hfound, hkey⟩ := (hevicted.index _ _).mp hfind
    rw [hcontent] at hfound
    split at hfound
    · cases hfound
    · have htracked := (hrep.index _ _).mpr ⟨found, hfound, hkey⟩
      rw [hnew] at htracked
      cases htracked
  have hview : table.evictTail.view (order.erase slot) = table.view order.dropLast := by
    rw [herase]
    apply view_congr
    intro other hother
    rw [hcontent, if_neg]
    rintro rfl
    exact hnot hother
  have hshape := shape_evictTail table
  simp only [shape, Prod.mk.injEq] at hshape
  obtain ⟨changed, hcreated⟩ := hevicted.create hnone _ _
  rw [hview] at hcreated
  simp only [Recency.fresh, recency, hshape] at hcreated
  exact ⟨changed, hcreated⟩

theorem Represents.admit_full (htail : table.tail = some slot)
    (hitem : table.content slot = some item)
    (hnew : table.index.find key = none) (now : ℕ) (init : T) :
    ∃ changed, Refines
      (if (table.tailIsEvictable now).1 then
        (table.tailIsEvictable now).2.evictTail.create key now init
      else ((table.tailIsEvictable now).2, .capacityExhausted)) changed
      (if now - item.lastUse < table.evictionGrace then
        (table.recency order, .capacityExhausted)
      else if (item.bucket.refill table.burst table.refillInterval now).tokens = table.burst then
        (table.recency order).fresh (table.view order).dropLast key now init
      else ({ table.recency order with
        items := (table.view order).dropLast ++
          [{ item with bucket := item.bucket.refill table.burst table.refillInterval now }] },
        .capacityExhausted)) := by
  obtain ⟨entry, hentry, rfl⟩ := content_eq_some.mp hitem
  unfold tailIsEvictable
  rw [htail]
  simp only [hentry]
  by_cases hgrace : now - entry.lastUse < table.evictionGrace
  · rw [if_pos hgrace, if_pos (show now - entry.tracked.lastUse < table.evictionGrace from hgrace)]
    exact ⟨order, hrep, rfl, rfl, by simp⟩
  · rw [if_neg hgrace,
      if_neg (show ¬ now - entry.tracked.lastUse < table.evictionGrace from hgrace)]
    obtain ⟨hrefilled, hview, hinit⟩ := hrep.refill_tail htail hitem _
    by_cases hfull : (entry.bucket.refill table.burst table.refillInterval now).tokens = table.burst
    · rw [if_pos (show (entry.tracked.bucket.refill table.burst table.refillInterval now).tokens =
        table.burst from hfull)]
      simp only [hfull, beq_self_eq_true]
      obtain ⟨changed, hcreated⟩ := hrefilled.create_evicting htail hnew _ _
      rw [hinit] at hcreated
      exact ⟨changed, hcreated⟩
    · rw [if_neg (show ¬ (entry.tracked.bucket.refill table.burst table.refillInterval now).tokens =
        table.burst from hfull)]
      simp only [beq_eq_false_iff_ne.mpr hfull, Bool.false_eq_true, if_false]
      refine ⟨order, hrefilled, ?_, rfl, by simp⟩
      unfold recency
      rw [hview]
      rfl

theorem Represents.admission (key : BucketKey) (now : ℕ) (init : T) :
    ∃ changed, Refines (table.admission key now init) changed
      ((table.recency order).admission key now init) := by
  unfold SessionBuckets.admission Recency.admission
  cases hfind : table.index.find key with
  | some =>
    obtain ⟨item, hitem, rfl⟩ := (hrep.index _ _).mp hfind
    rw [show (table.recency order).items = table.view order from rfl, hrep.find_view hitem]
    exact ⟨_, hrep.admit_tracked hitem _⟩
  | none =>
    rw [show (table.recency order).items = table.view order from rfl,
      hrep.find_view_none hfind, hrep.length_view, ← tracked_eq_length hrep]
    by_cases hfull : packetTooBigTrackedSessions ≤ table.tracked
    · rw [if_pos hfull, if_pos hfull]
      have hne : order ≠ [] := by
        rintro rfl
        rw [tracked_eq_length hrep] at hfull
        cases hfull
      obtain ⟨slot, hlast⟩ := Option.isSome_iff_exists.mp (getLast?_isSome.mpr hne)
      have htail : table.tail = some slot := hrep.orders.tail_eq.trans hlast
      obtain ⟨item, hitem, _, _, _, hview⟩ := hrep.split_tail htail
      rw [show (table.view order).getLast? = some item by rw [hview, getLast?_concat]]
      exact hrep.admit_full htail hitem hfind _ _
    · rw [if_neg hfull, if_neg hfull]
      exact hrep.create hfind _ _

/-- Another bucket shape reshapes every item of the list. -/
theorem Represents.replaceLimit (burst refillInterval now : ℕ) :
    (table.replaceLimit burst refillInterval now).Represents order ∧
      (table.replaceLimit burst refillInterval now).recency order =
        (table.recency order).replaceLimit burst refillInterval now := by
  by_cases hsame : burst = table.burst ∧ refillInterval = table.refillInterval
  · rw [SessionBuckets.replaceLimit, if_pos hsame]
    exact ⟨hrep, (if_pos hsame).symm⟩
  · rw [SessionBuckets.replaceLimit, if_neg hsame, Recency.replaceLimit]
    have hkeeps : Keeps fun entry : BucketEntry T => { entry with
        bucket := entry.bucket.reshape table.burst table.refillInterval burst now } :=
      fun _ => ⟨rfl, rfl, rfl⟩
    have hview : (table.mapEntries fun entry => { entry with
        bucket := entry.bucket.reshape table.burst table.refillInterval burst now }).view order =
        (table.view order).map fun item => { item with
          bucket := item.bucket.reshape table.burst table.refillInterval burst now } := by
      rw [view, view, map_filterMap]
      apply filterMap_congr
      intro slot _
      rw [content, entryAt_mapEntries, content]
      cases table.entryAt slot <;> rfl
    refine ⟨{ hrep.mapEntries hkeeps with }, ?_⟩
    rw [show (table.recency order).burst = table.burst from rfl,
      show (table.recency order).refillInterval = table.refillInterval from rfl, if_neg hsame]
    exact congrArg _ hview

end

theorem Represents.use (hrep : table.Represents (slot :: rest))
    (hitem : table.content slot = some item) (change : T → T) :
    (table.use slot change).Represents (slot :: rest) ∧
      (table.use slot change).view (slot :: rest) =
        { item with state := change item.state } :: table.view rest := by
  obtain ⟨entry, hentry, rfl⟩ := content_eq_some.mp hitem
  refine ⟨hrep.modify fun _ => ⟨rfl, rfl, rfl⟩, ?_⟩
  rw [SessionBuckets.use, view_cons (content_modifyEntry_self hentry),
    view_modifyEntry (nodup_cons.mp hrep.orders.nodup).1]
  rfl

theorem represents_new (burst refillInterval evictionGrace : ℕ) :
    (new burst refillInterval evictionGrace : SessionBuckets T).Represents [] where
  orders := ⟨nodup_nil, rfl, rfl, trivial⟩
  occupied slot := by simp [content, entryAt, new]
  index key slot := by simp [content, entryAt, new]
  free_empty slot hslot := by cases hslot
  free_nodup := nodup_nil

end SessionBuckets

end PacketCore.Gtpu
