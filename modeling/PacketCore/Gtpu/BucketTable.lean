import PacketCore.Gtpu.SessionBuckets

/-!
# The bucket table as a recency list

A table stands for the list of its tracked keys, most recently used first.
Every operation on slots, links and index is an operation on that list.
-/

namespace PacketCore.Gtpu

open List

variable {T : Type*}

/-- What is kept for one key. -/
structure Tracked (T : Type*) where
  key : BucketKey
  bucket : TokenBucket
  lastUse : ℕ
  state : T

def BucketEntry.tracked (entry : BucketEntry T) : Tracked T :=
  ⟨entry.key, entry.bucket, entry.lastUse, entry.state⟩

variable {newer older : Option ℕ} {next : SessionBuckets T}

namespace SessionBuckets

def links (table : SessionBuckets T) : Links where
  older := fun slot => (table.entryAt slot).bind BucketEntry.older
  newer := fun slot => (table.entryAt slot).bind BucketEntry.newer
  head := table.head
  tail := table.tail

def content (table : SessionBuckets T) (slot : ℕ) : Option (Tracked T) :=
  (table.entryAt slot).map BucketEntry.tracked

/-- The slots in use, threaded in this order; the index finds each key's slot, and
the free slots are empty. -/
structure Represents (table : SessionBuckets T) (order : List ℕ) : Prop where
  orders : table.links.Orders order
  occupied : ∀ slot, slot ∈ order ↔ (table.content slot).isSome
  index : ∀ key slot, table.index.find key = some slot ↔
    ∃ item, table.content slot = some item ∧ item.key = key
  free_empty : ∀ slot ∈ table.free, slot < table.entries.length ∧ table.content slot = none
  free_nodup : table.free.Nodup

/-- The tracked keys, most recently used first. -/
def view (table : SessionBuckets T) (order : List ℕ) : List (Tracked T) :=
  order.filterMap table.content

variable {table : SessionBuckets T} {order : List ℕ} {slot other : ℕ}
  {key : BucketKey} {item : Tracked T} {change : BucketEntry T → BucketEntry T}

/-! ## Slots -/

@[simp]
theorem entryAt_modifyEntry :
    (table.modifyEntry slot change).entryAt other =
      if other = slot then (table.entryAt other).map change else table.entryAt other := by
  unfold entryAt modifyEntry
  rw [getElem?_modify]
  by_cases hsame : other = slot
  · subst hsame
    cases table.entries[other]? <;> simp
  · simp [hsame, Ne.symm hsame]

theorem content_modifyEntry (hchange : ∀ entry, (change entry).tracked = entry.tracked) :
    (table.modifyEntry slot change).content other = table.content other := by
  unfold content
  rw [entryAt_modifyEntry]
  split
  · rw [Option.map_map]
    congr 1
    funext entry
    exact hchange _
  · rfl

theorem content_modifyEntry_self {entry : BucketEntry T}
    (hentry : table.entryAt slot = some entry) :
    (table.modifyEntry slot change).content slot = some (change entry).tracked := by
  rw [content, entryAt_modifyEntry, if_pos rfl, hentry]
  rfl

theorem content_eq_some :
    table.content slot = some item ↔
      ∃ entry, table.entryAt slot = some entry ∧ entry.tracked = item := by
  simp [content]

theorem lt_of_content (hcontent : (table.content slot).isSome) : slot < table.entries.length := by
  by_contra hlt
  rw [content, entryAt, getElem?_eq_none (by omega)] at hcontent
  cases hcontent

/-- What an operation on links alone leaves as it was. -/
structure SameContent (table next : SessionBuckets T) : Prop where
  content : ∀ slot, next.content slot = table.content slot
  index : next.index = table.index
  free : next.free = table.free
  length : next.entries.length = table.entries.length
  burst : next.burst = table.burst
  refillInterval : next.refillInterval = table.refillInterval
  evictionGrace : next.evictionGrace = table.evictionGrace

theorem SameContent.trans {middle last : SessionBuckets T} (hfirst : SameContent table middle)
    (hsecond : SameContent middle last) : SameContent table last where
  content _ := (hsecond.content _).trans (hfirst.content _)
  index := hsecond.index.trans hfirst.index
  free := hsecond.free.trans hfirst.free
  length := hsecond.length.trans hfirst.length
  burst := hsecond.burst.trans hfirst.burst
  refillInterval := hsecond.refillInterval.trans hfirst.refillInterval
  evictionGrace := hsecond.evictionGrace.trans hfirst.evictionGrace

theorem sameContent_modifyEntry (table : SessionBuckets T) (slot : ℕ)
    (change : BucketEntry T → BucketEntry T)
    (hchange : ∀ entry, (change entry).tracked = entry.tracked) :
    SameContent table (table.modifyEntry slot change) :=
  ⟨fun _ => content_modifyEntry hchange, rfl, rfl, by simp [modifyEntry], rfl, rfl, rfl⟩

theorem sameContent_ends (table : SessionBuckets T) (head tail : Option ℕ) :
    SameContent table { table with head := head, tail := tail } :=
  ⟨fun _ => rfl, rfl, rfl, rfl, rfl, rfl, rfl⟩

theorem sameContent_pointOlder (table : SessionBuckets T) (newer older : Option ℕ) :
    SameContent table (table.pointOlder newer older) := by
  cases newer with
  | none => exact sameContent_ends _ _ _
  | some => exact sameContent_modifyEntry _ _ _ (by intro _; rfl)

theorem sameContent_pointNewer (table : SessionBuckets T) (older newer : Option ℕ) :
    SameContent table (table.pointNewer older newer) := by
  cases older with
  | none => exact sameContent_ends _ _ _
  | some => exact sameContent_modifyEntry _ _ _ (by intro _; rfl)

theorem sameContent_setLinks (table : SessionBuckets T) (slot : ℕ)
    (newer older : Option ℕ) : SameContent table (table.setLinks slot newer older) :=
  sameContent_modifyEntry _ _ _ (by intro _; rfl)

theorem sameContent_unlink (table : SessionBuckets T) (slot : ℕ) :
    SameContent table (table.unlink slot) := by
  unfold unlink
  split
  · exact sameContent_ends _ _ _
  · exact ((sameContent_setLinks _ _ _ _).trans (sameContent_pointOlder _ _ _)).trans
      (sameContent_pointNewer _ _ _)

theorem sameContent_pointBack (table : SessionBuckets T) (head : Option ℕ)
    (slot : ℕ) : SameContent table (table.pointBack head slot) := by
  cases head with
  | none => exact sameContent_ends _ _ _
  | some => exact sameContent_modifyEntry _ _ _ (by intro _; rfl)

theorem sameContent_linkFront (table : SessionBuckets T) (slot : ℕ) :
    SameContent table (table.linkFront slot) :=
  ((sameContent_setLinks _ _ _ _).trans (sameContent_pointBack _ _ _)).trans
    (sameContent_ends _ _ _)

/-! ## Links -/

theorem isSome_entryAt : (table.entryAt slot).isSome = (table.content slot).isSome := by
  rw [content, Option.isSome_map]

theorem SameContent.isSome_entryAt (hsame : SameContent table next) :
    (next.entryAt slot).isSome = (table.entryAt slot).isSome := by
  rw [SessionBuckets.isSome_entryAt, SessionBuckets.isSome_entryAt, hsame.content]

theorem links_setOlder (hslot : (table.entryAt slot).isSome) :
    (table.modifyEntry slot fun entry => { entry with older := older }).links =
      { table.links with
        older := fun other => if other = slot then older else table.links.older other } := by
  obtain ⟨entry, _⟩ := Option.isSome_iff_exists.mp hslot
  unfold links
  congr 1 <;> funext other <;> rw [entryAt_modifyEntry] <;> split <;> simp_all

theorem links_setNewer (hslot : (table.entryAt slot).isSome) :
    (table.modifyEntry slot fun entry => { entry with newer := newer }).links =
      { table.links with
        newer := fun other => if other = slot then newer else table.links.newer other } := by
  obtain ⟨entry, _⟩ := Option.isSome_iff_exists.mp hslot
  unfold links
  congr 1 <;> funext other <;> rw [entryAt_modifyEntry] <;> split <;> simp_all

theorem links_setLinks (hslot : (table.entryAt slot).isSome) :
    (table.setLinks slot newer older).links =
      { table.links with
        older := fun other => if other = slot then older else table.links.older other
        newer := fun other => if other = slot then newer else table.links.newer other } := by
  obtain ⟨_, _⟩ := Option.isSome_iff_exists.mp hslot
  unfold links setLinks
  congr 1 <;> funext other <;> rw [entryAt_modifyEntry] <;> split <;> simp_all

theorem links_pointOlder (hnear : ∀ near, newer = some near → (table.entryAt near).isSome) :
    (table.pointOlder newer older).links =
      { table.links with
        older := fun other => if newer = some other then older else table.links.older other
        head := if newer = none then older else table.links.head } := by
  cases newer with
  | none => simp [pointOlder, links, entryAt]
  | some =>
    rw [pointOlder, links_setOlder (hnear _ rfl)]
    simp [eq_comm]

theorem links_pointNewer (hnear : ∀ near, older = some near → (table.entryAt near).isSome) :
    (table.pointNewer older newer).links =
      { table.links with
        newer := fun other => if older = some other then newer else table.links.newer other
        tail := if older = none then newer else table.links.tail } := by
  cases older with
  | none => simp [pointNewer, links, entryAt]
  | some =>
    rw [pointNewer, links_setNewer (hnear _ rfl)]
    simp [eq_comm]

theorem links_pointBack {head : Option ℕ} (slot : ℕ)
    (hnear : ∀ near, head = some near → (table.entryAt near).isSome) :
    (table.pointBack head slot).links =
      { table.links with
        newer := fun other => if head = some other then some slot else
          table.links.newer other } := by
  cases head with
  | none => simp [pointBack]
  | some head =>
    rw [pointBack, links_setNewer (hnear head rfl)]
    simp [eq_comm]

theorem links_linkFront (horders : table.links.Orders order)
    (hoccupied : ∀ slot ∈ order, (table.content slot).isSome)
    (hslot : (table.content slot).isSome) :
    (table.linkFront slot).links = table.links.linkFront slot := by
  rw [← isSome_entryAt] at hslot
  have hnear : ∀ near, table.head = some near →
      ((table.setLinks slot none table.head).entryAt near).isSome := by
    intro near hhead
    rw [(sameContent_setLinks _ _ _ _).isSome_entryAt, isSome_entryAt]
    apply hoccupied
    apply mem_of_head?
    rw [← horders.head_eq]
    exact hhead
  have hjoined := links_pointBack slot hnear
  rw [links_setLinks hslot] at hjoined
  have htail : ((table.setLinks slot none table.head).pointBack table.head slot).tail =
      table.tail := congrArg Links.tail hjoined
  have holder := congrArg Links.older hjoined
  have hnewer := congrArg Links.newer hjoined
  apply Links.ext
  · exact holder
  · exact hnewer
  · rfl
  · exact congrArg (Option.or · (some slot)) htail

/-! ## Operations on represented tables -/

/-- A change of an entry that keeps its key and its links. -/
def Keeps (change : BucketEntry T → BucketEntry T) : Prop :=
  ∀ entry, (change entry).key = entry.key ∧ (change entry).newer = entry.newer ∧
    (change entry).older = entry.older

section

variable (hrep : table.Represents order)
include hrep

theorem Represents.find_key (hitem : table.content slot = some item) :
    table.index.find item.key = some slot :=
  (hrep.index _ _).mpr ⟨item, hitem, rfl⟩

/-- Detaching a slot takes it out of the order. -/
theorem Represents.unlink (hslot : slot ∈ order) :
    (table.unlink slot).links.Orders (order.erase slot) := by
  have hoccupied : ∀ near ∈ order, (table.entryAt near).isSome := by
    intro near hnear
    rw [isSome_entryAt]
    exact (hrep.occupied _).mp hnear
  have hsome := hoccupied _ hslot
  obtain ⟨entry, hentry⟩ := Option.isSome_iff_exists.mp hsome
  have hnewer : table.links.newer slot = entry.newer := by simp [links, hentry]
  have holder : table.links.older slot = entry.older := by simp [links, hentry]
  -- the neighbours are in use, so writing their links takes effect
  have hneighbour : ∀ near, entry.newer = some near ∨ entry.older = some near →
      (table.entryAt near).isSome := by
    intro near hnear
    rw [← hnewer, ← holder] at hnear
    exact hoccupied _ (hrep.orders.neighbours hslot hnear)
  have hcleared := sameContent_setLinks table slot none none
  have hlinks : (table.unlink slot).links = table.links.unlink slot := by
    unfold SessionBuckets.unlink Links.unlink
    rw [hentry, hnewer, holder]
    rw [links_pointNewer, links_pointOlder, links_setLinks hsome]
    · intro near hnear
      rw [hcleared.isSome_entryAt]
      exact hneighbour _ (.inl hnear)
    · intro near hnear
      rw [(hcleared.trans (sameContent_pointOlder _ _ _)).isSome_entryAt]
      exact hneighbour _ (.inr hnear)
  rw [hlinks]
  exact hrep.orders.unlink hslot

/-- Links aside, the same table is represented by another order of the same slots. -/
theorem Represents.reorder {next : SessionBuckets T} {reordered : List ℕ}
    (hsame : SameContent table next)
    (horders : next.links.Orders reordered)
    (hslots : ∀ slot, slot ∈ reordered ↔ slot ∈ order) : next.Represents reordered where
  orders := horders
  occupied slot := by rw [hslots, hrep.occupied, hsame.content]
  index key slot := by
    rw [hsame.index, hrep.index]
    simp only [hsame.content]
  free_empty slot hslot := by
    rw [hsame.free] at hslot
    rw [hsame.length, hsame.content]
    exact hrep.free_empty _ hslot
  free_nodup := by
    rw [hsame.free]
    exact hrep.free_nodup

theorem Represents.touch (hslot : slot ∈ order) :
    (table.touch slot).Represents (slot :: order.erase slot) := by
  have hunlinked := sameContent_unlink table slot
  have horders := hrep.unlink hslot
  apply hrep.reorder (hunlinked.trans (sameContent_linkFront _ _))
  · rw [links_linkFront horders]
    · apply horders.linkFront
      exact fun hmem => (hrep.orders.nodup.mem_erase_iff.mp hmem).1 rfl
    · intro other hother
      rw [hunlinked.content]
      exact (hrep.occupied _).mp (mem_of_mem_erase hother)
    · rw [hunlinked.content]
      exact (hrep.occupied _).mp hslot
  · intro other
    by_cases hsame : other = slot
    · simp [hsame, hslot]
    · simp [hsame]

/-- Changes that keep the keys and the links keep the order. -/
theorem Represents.of_entries
    (hentries : ∀ slot, ∃ change, Keeps change ∧
      next.entryAt slot = (table.entryAt slot).map change)
    (hhead : next.head = table.head) (htail : next.tail = table.tail)
    (hindex : next.index = table.index) (hfree : next.free = table.free)
    (hlength : next.entries.length = table.entries.length) : next.Represents order := by
  have hkeys : ∀ slot, (next.content slot).map Tracked.key =
      (table.content slot).map Tracked.key := by
    intro slot
    obtain ⟨change, hkeeps, hentry⟩ := hentries slot
    rw [content, hentry, content]
    cases table.entryAt slot <;> simp [BucketEntry.tracked, (hkeeps _).1]
  have hsome : ∀ slot, (next.content slot).isSome = (table.content slot).isSome := by
    intro slot
    rw [← Option.isSome_map, hkeys, Option.isSome_map]
  constructor
  · apply hrep.orders.congr _ _ hhead htail
    · intro slot _
      obtain ⟨change, hkeeps, hentry⟩ := hentries slot
      simp only [links, hentry]
      cases table.entryAt slot <;> simp [(hkeeps _).2.1]
    · intro slot _
      obtain ⟨change, hkeeps, hentry⟩ := hentries slot
      simp only [links, hentry]
      cases table.entryAt slot <;> simp [(hkeeps _).2.2]
  · intro slot
    rw [hrep.occupied, hsome]
  · intro key slot
    have hfind := hrep.index key slot
    rw [← Option.map_eq_some_iff] at hfind ⊢
    rw [hindex, hkeys]
    exact hfind
  · intro slot hslot
    rw [hfree] at hslot
    obtain ⟨_, hnone⟩ := hrep.free_empty _ hslot
    refine ⟨by rwa [hlength], ?_⟩
    rw [← Option.not_isSome_iff_eq_none, hsome, hnone]
    simp
  · rw [hfree]
    exact hrep.free_nodup

theorem Represents.modify (hkeeps : Keeps change) :
    (table.modifyEntry slot change).Represents order := by
  refine hrep.of_entries (fun other => ?_) rfl rfl rfl rfl (by simp [modifyEntry])
  rw [entryAt_modifyEntry]
  split
  · exact ⟨change, hkeeps, rfl⟩
  · exact ⟨id, fun _ => ⟨rfl, rfl, rfl⟩, by simp⟩

end

theorem entryAt_mapEntries :
    (table.mapEntries change).entryAt slot = (table.entryAt slot).map change := by
  unfold entryAt mapEntries
  rw [getElem?_map]
  cases table.entries[slot]? <;> rfl

theorem Represents.mapEntries (hrep : table.Represents order)
    (hkeeps : Keeps change) : (table.mapEntries change).Represents order :=
  hrep.of_entries (fun _ => ⟨change, hkeeps, entryAt_mapEntries⟩) rfl rfl rfl rfl
    (by simp [SessionBuckets.mapEntries])

theorem entryAt_set {entry : Option (BucketEntry T)} (hslot : slot < table.entries.length) :
    (table.entries.set slot entry)[other]?.join =
      if other = slot then entry else table.entryAt other := by
  by_cases hsame : other = slot
  · simp [hsame, hslot]
  · simp [hsame, Ne.symm hsame, entryAt]

section

variable (hrep : table.Represents order)
include hrep

/-- The least recently used slot is taken out of everything and becomes free. -/
theorem Represents.evictTail (htail : table.tail = some slot) :
    table.evictTail.Represents (order.erase slot) ∧
      ∀ other, table.evictTail.content other =
        if other = slot then none else table.content other := by
  have hslot : slot ∈ order := by
    apply mem_of_getLast?
    rw [← hrep.orders.tail_eq]
    exact htail
  have hsome := (hrep.occupied _).mp hslot
  have hsame := sameContent_unlink table slot
  have hunlinked := hrep.unlink hslot
  obtain ⟨_, hitem⟩ := Option.isSome_iff_exists.mp hsome
  obtain ⟨entry, hentry, rfl⟩ := content_eq_some.mp ((hsame.content _).trans hitem)
  have hlt : slot < (table.unlink slot).entries.length := by
    rw [hsame.length]
    exact lt_of_content hsome
  have hevicted : table.evictTail = { table.unlink slot with
      entries := (table.unlink slot).entries.set slot none
      index := (table.unlink slot).index.erase entry.key
      free := slot :: (table.unlink slot).free } := by
    unfold SessionBuckets.evictTail
    rw [htail]
    simp only [hentry]
  have hentryAt : ∀ other, table.evictTail.entryAt other =
      if other = slot then none else (table.unlink slot).entryAt other := by
    intro other
    rw [hevicted]
    exact entryAt_set hlt
  have hcontent : ∀ other, table.evictTail.content other =
      if other = slot then none else table.content other := by
    intro other
    rw [content, hentryAt]
    split
    · rfl
    · exact hsame.content _
  have hindex : table.evictTail.index = table.index.erase entry.key := by
    rw [hevicted, ← hsame.index]
  have hfree : table.evictTail.free = slot :: table.free := by
    rw [hevicted, ← hsame.free]
  have hlength : table.evictTail.entries.length = table.entries.length := by
    rw [hevicted, ← hsame.length]
    exact length_set
  refine ⟨⟨?_, ?_, ?_, ?_, ?_⟩, hcontent⟩
  · have hother : ∀ other ∈ order.erase slot, other ≠ slot :=
      fun other hmem => (hrep.orders.nodup.mem_erase_iff.mp hmem).1
    apply hunlinked.congr
    · intro other hmem
      simp [links, hentryAt, hother _ hmem]
    · intro other hmem
      simp [links, hentryAt, hother _ hmem]
    · rw [hevicted]
      rfl
    · rw [hevicted]
      rfl
  · intro other
    rw [hcontent, hrep.orders.nodup.mem_erase_iff, hrep.occupied]
    by_cases hsame : other = slot <;> simp [hsame]
  · intro key other
    rw [hindex, Table.find_erase, hcontent]
    by_cases hkey : key = entry.key
    · subst hkey
      simp only [if_true, reduceCtorEq, false_iff, not_exists, not_and]
      intro found hfound hkeys
      split at hfound
      · cases hfound
      · rename_i hne
        have hslots := (hrep.index _ _).mpr ⟨found, hfound, hkeys⟩
        exact hne (Option.some.inj (hslots.symm.trans (hrep.find_key hitem)))
    · rw [if_neg hkey, hrep.index]
      by_cases hother : other = slot
      · subst hother
        rw [hitem]
        simp [BucketEntry.tracked, Ne.symm hkey]
      · rw [if_neg hother]
  · intro other hother
    rw [hfree, mem_cons] at hother
    rw [hlength, hcontent]
    rcases hother with rfl | hother
    · exact ⟨lt_of_content hsome, if_pos rfl⟩
    · obtain ⟨hbound, hnone⟩ := hrep.free_empty _ hother
      exact ⟨hbound, by rw [hnone, ite_self]⟩
  · rw [hfree, nodup_cons]
    refine ⟨fun hmem => ?_, hrep.free_nodup⟩
    have hnone := (hrep.free_empty _ hmem).2
    rw [hitem] at hnone
    cases hnone

/-- A slot that came into use is attached in front. -/
theorem Represents.attach (hslot : table.content slot = none)
    (hnew : table.index.find item.key = none) (hcontent : ∀ other, next.content other =
      if other = slot then some item else table.content other)
    (hentries : ∀ other ∈ order, next.entryAt other = table.entryAt other)
    (hhead : next.head = table.head) (htail : next.tail = table.tail)
    (hindex : next.index = table.index.insert item.key slot)
    (hfree : ∀ other ∈ next.free, other ∈ table.free ∧ other ≠ slot) (hnodup : next.free.Nodup)
    (hlength : table.entries.length ≤ next.entries.length) :
    (next.linkFront slot).Represents (slot :: order) := by
  have hfresh : slot ∉ order := by
    rw [hrep.occupied, hslot]
    simp
  have hsame := sameContent_linkFront next slot
  have horders : next.links.Orders order := by
    apply hrep.orders.congr
    · intro other hother
      simp [links, hentries _ hother]
    · intro other hother
      simp [links, hentries _ hother]
    · exact hhead
    · exact htail
  constructor
  · rw [links_linkFront horders]
    · exact horders.linkFront hfresh
    · intro other hother
      rw [content, hentries _ hother]
      exact (hrep.occupied _).mp hother
    · rw [hcontent, if_pos rfl]
      rfl
  · intro other
    rw [hsame.content, hcontent, mem_cons, hrep.occupied]
    by_cases hother : other = slot <;> simp [hother]
  · intro key other
    rw [hsame.index, hsame.content, hindex, hcontent, Table.find_insert]
    by_cases hkey : key = item.key
    · subst hkey
      rw [if_pos rfl]
      by_cases hother : other = slot
      · simp [hother]
      · simp only [Option.some.injEq, Ne.symm hother, if_neg hother, false_iff, not_exists, not_and]
        intro found hfound hkeys
        have hslots := (hrep.index _ _).mpr ⟨found, hfound, hkeys⟩
        rw [hnew] at hslots
        cases hslots
    · rw [if_neg hkey, hrep.index]
      by_cases hother : other = slot
      · subst hother
        simp [hslot, Ne.symm hkey]
      · rw [if_neg hother]
  · intro other hother
    rw [hsame.free] at hother
    obtain ⟨hmem, hne⟩ := hfree _ hother
    obtain ⟨hbound, hnone⟩ := hrep.free_empty _ hmem
    rw [hsame.length, hsame.content, hcontent, if_neg hne]
    exact ⟨hbound.trans_le hlength, hnone⟩
  · rw [hsame.free]
    exact hnodup

/-- The slot a new entry is placed in was empty, and nothing else changes. -/
theorem Represents.place (entry : BucketEntry T) :
    let placed := table.place entry
    table.content placed.1 = none ∧ (∀ other, placed.2.entryAt other =
        if other = placed.1 then some entry else table.entryAt other) ∧
      (∀ other ∈ placed.2.free, other ∈ table.free ∧ other ≠ placed.1) ∧ placed.2.free.Nodup ∧
      table.entries.length ≤ placed.2.entries.length ∧
      placed.2.index = table.index.insert entry.key placed.1 ∧
      placed.2.head = table.head ∧ placed.2.tail = table.tail := by
  unfold SessionBuckets.place
  cases hfree : table.free with
  | nil =>
    refine ⟨?_, ?_, by simp, by simp, by simp, rfl, rfl, rfl⟩
    · simp [content, entryAt]
    · intro other
      by_cases hother : other = table.entries.length
      · simp [entryAt, hother]
      · simp only [entryAt, if_neg hother]
        rcases Nat.lt_or_gt_of_ne hother with hlt | _
        · rw [getElem?_append_left hlt]
        · rw [getElem?_eq_none (by simp; omega), getElem?_eq_none (by omega)]
  | cons slot free =>
    have hmem : slot ∈ table.free := by simp [hfree]
    have hnodup := hrep.free_nodup
    rw [hfree, nodup_cons] at hnodup
    obtain ⟨hlt, hnone⟩ := hrep.free_empty _ hmem
    refine ⟨hnone, fun other => entryAt_set hlt, ?_, hnodup.2, by simp, rfl, rfl, rfl⟩
    intro other hother
    refine ⟨mem_cons_of_mem _ hother, ?_⟩
    rintro rfl
    exact hnodup.1 hother

/-- A new key takes a free slot and becomes the most recently used. -/
theorem Represents.insert (hnew : table.index.find key = none) (now : ℕ) (init : T) :
    let inserted := table.insert key now init
    inserted.2.Represents (inserted.1 :: order) ∧ ∀ other, inserted.2.content other =
      if other = inserted.1 then some ⟨key, ⟨table.burst, now⟩, now, init⟩
      else table.content other := by
  let entry : BucketEntry T := ⟨key, ⟨table.burst, now⟩, now, init, none, none⟩
  obtain ⟨hempty, hentries, hfree, hnodup, hlength, hindex, hhead, htail⟩ := hrep.place entry
  have hcontent : ∀ other, (table.place entry).2.content other =
      if other = (table.place entry).1 then some entry.tracked else table.content other := by
    intro other
    rw [content, hentries]
    split <;> rfl
  constructor
  · apply hrep.attach hempty _ hcontent _ hhead htail hindex hfree hnodup hlength
    · exact hnew
    · intro other hother
      rw [hentries, if_neg]
      rintro rfl
      rw [hrep.occupied, hempty] at hother
      cases hother
  · intro other
    exact ((sameContent_linkFront _ _).content _).trans (hcontent _)

theorem tracked_eq_length : table.tracked = order.length := by
  have hslots : order.toFinset = table.index.keys.image fun key =>
      (table.index.find key).getD 0 := by
    ext slot
    simp only [mem_toFinset, Finset.mem_image, hrep.occupied]
    constructor
    · intro hsome
      obtain ⟨item, hitem⟩ := Option.isSome_iff_exists.mp hsome
      have hfind := hrep.find_key hitem
      exact ⟨item.key, Table.mem_keys_of_find hfind, by rw [hfind]; rfl⟩
    · rintro ⟨key, hkey, rfl⟩
      obtain ⟨slot, hfind⟩ := Table.mem_keys.mp hkey
      obtain ⟨item, hitem, _⟩ := (hrep.index _ _).mp hfind
      rw [hfind, Option.getD_some, hitem]
      rfl
  have hinjective : Set.InjOn (fun key => (table.index.find key).getD 0)
      (table.index.keys : Set BucketKey) := by
    intro _ hleft _ hright heq
    obtain ⟨slot, hfindLeft⟩ := Table.mem_keys.mp hleft
    obtain ⟨_, hfindRight⟩ := Table.mem_keys.mp hright
    simp only [hfindLeft, hfindRight] at heq
    subst heq
    obtain ⟨item, hitem, rfl⟩ := (hrep.index _ _).mp hfindLeft
    obtain ⟨_, hfound, rfl⟩ := (hrep.index _ slot).mp hfindRight
    rw [hitem] at hfound
    cases hfound
    rfl
  rw [tracked, ← Finset.card_image_of_injOn hinjective, ← hslots,
    toFinset_card_of_nodup hrep.orders.nodup]

end

end SessionBuckets

end PacketCore.Gtpu
