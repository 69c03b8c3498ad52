import Mathlib

/-!
# An index by sorting

Items with their ordinals are sorted by a key and then by the ordinal.  Two
questions are answered from the sorted list: which items repeat the key of an
earlier item, and which is the first item with a key.  Both answers are those
of a scan of the items in their own order.
-/

namespace PacketCore.SortedIndex

open List

variable {α κ : Type*} [LinearOrder κ] (key : α → κ)

/-- The place of an item in the sorted list. -/
def rank (item : α × ℕ) : κ ×ₗ ℕ := toLex (key item.1, item.2)

def sortBy (items : List (α × ℕ)) : List (α × ℕ) :=
  items.mergeSort fun left right => rank key left ≤ rank key right

/-- The ordinals of items whose neighbour in front has the same key. -/
def repeats (sorted : List (α × ℕ)) : List ℕ :=
  (sorted.zip sorted.tail).filterMap fun pair =>
    if key pair.1.1 = key pair.2.1 then some pair.2.2 else none

/-- The ordinal of the first item that is not below `value`, when its key is `value`. -/
def lookup (sorted : List (α × ℕ)) (value : κ) : Option ℕ :=
  ((sorted.dropWhile fun item => key item.1 < value).head?.filter
    fun item => key item.1 = value).map Prod.snd

variable {key}

variable {left right item : α × ℕ} {items : List α} {ordinal : ℕ} {sorted : List (α × ℕ)}

theorem rank_lt_iff :
    rank key left < rank key right ↔
      key left.1 < key right.1 ∨ key left.1 = key right.1 ∧ left.2 < right.2 :=
  Prod.Lex.lt_iff

theorem rank_le_iff :
    rank key left ≤ rank key right ↔
      key left.1 < key right.1 ∨ key left.1 = key right.1 ∧ left.2 ≤ right.2 :=
  Prod.Lex.le_iff

theorem perm_sortBy (items : List (α × ℕ)) : (sortBy key items).Perm items :=
  mergeSort_perm _ _

theorem mem_zipIdx_iff : item ∈ items.zipIdx ↔ items[item.2]? = some item.1 :=
  mem_zipIdx_iff_getElem?

theorem mem_sortBy_iff {items : List (α × ℕ)} : item ∈ sortBy key items ↔ item ∈ items :=
  (perm_sortBy _).mem_iff

/-- Distinct ordinals make the order strict. -/
theorem sortBy_sorted {items : List (α × ℕ)} (hordinals : (items.map Prod.snd).Nodup) :
    (sortBy key items).Pairwise fun left right => rank key left < rank key right := by
  have hle : (sortBy key items).Pairwise fun left right => rank key left ≤ rank key right := by
    have hsorted := @List.pairwise_mergeSort _
      (fun left right => decide (rank key left ≤ rank key right))
      (fun left middle right hleft hright => by
        simp only [decide_eq_true_eq] at *
        exact le_trans hleft hright)
      (fun left right => by
        simp only [Bool.or_eq_true, decide_eq_true_eq]
        exact le_total _ _) items
    simpa [sortBy] using hsorted
  have hdistinct : ((sortBy key items).map Prod.snd).Nodup :=
    ((perm_sortBy _).map _).nodup_iff.mpr hordinals
  rw [List.Nodup, pairwise_map] at hdistinct
  refine (hle.and hdistinct).imp fun {left right} hboth => lt_of_le_of_ne hboth.1 fun heq => ?_
  have hpair : (key left.1, left.2) = (key right.1, right.2) := toLex.injective heq
  exact hboth.2 (Prod.mk.inj hpair).2

theorem mem_zip_tail_iff {left right : α} :
    (left, right) ∈ items.zip items.tail ↔
      ∃ before after, items = before ++ left :: right :: after := by
  induction items with
  | nil => simp
  | cons first rest ih =>
    cases rest with
    | nil =>
      constructor
      · intro hmem
        simp at hmem
      · rintro ⟨before, after, heq⟩
        have hlength := congrArg length heq
        simp only [length_cons, length_nil, length_append] at hlength
        omega
    | cons _ rest =>
      constructor
      · intro hmem
        rcases mem_cons.mp hmem with heq | hmem
        · cases heq
          exact ⟨[], rest, rfl⟩
        · obtain ⟨before, after, heq⟩ := ih.mp hmem
          exact ⟨first :: before, after, by rw [heq, cons_append]⟩
      · rintro ⟨before, after, heq⟩
        cases before with
        | nil =>
          cases heq
          exact mem_cons_self
        | cons _ before =>
          obtain ⟨rfl, htail⟩ := cons.inj heq
          exact mem_cons_of_mem _ (ih.mpr ⟨before, after, htail⟩)

/-- In a strictly sorted list an item follows one with its key exactly when some
item with that key has a smaller ordinal. -/
theorem mem_repeats_iff
    (hsorted : sorted.Pairwise fun left right => rank key left < rank key right) :
    ordinal ∈ repeats key sorted ↔
      ∃ item ∈ sorted, item.2 = ordinal ∧
        ∃ earlier ∈ sorted, key earlier.1 = key item.1 ∧ earlier.2 < ordinal := by
  constructor
  · intro hmem
    obtain ⟨⟨left, right⟩, hpair, hsome⟩ := mem_filterMap.mp hmem
    by_cases hkeys : key left.1 = key right.1
    swap
    · simp [hkeys] at hsome
    have hordinal : right.2 = ordinal := by simpa [hkeys] using hsome
    obtain ⟨before, after, rfl⟩ := mem_zip_tail_iff.mp hpair
    have hlt : rank key left < rank key right :=
      rel_of_pairwise_cons (pairwise_append.mp hsorted).2.1 mem_cons_self
    refine ⟨right, by simp, hordinal, left, by simp, hkeys, ?_⟩
    rcases rank_lt_iff.mp hlt with hless | hsame
    · exact absurd hkeys hless.ne
    · exact hordinal ▸ hsame.2
  · rintro ⟨item, hitem, rfl, earlier, hearlier, hkeys, hless⟩
    obtain ⟨before, after, rfl⟩ := append_of_mem hitem
    have hrank : rank key earlier < rank key item := rank_lt_iff.mpr (.inr ⟨hkeys, hless⟩)
    obtain ⟨hbefore, hafter, hcross⟩ := pairwise_append.mp hsorted
    -- The earlier item is in front, so the neighbour in front lies between the two.
    have hfront : earlier ∈ before := by
      rw [mem_append, mem_cons] at hearlier
      rcases hearlier with hfront | rfl | hback
      · exact hfront
      · exact absurd hless (lt_irrefl _)
      · exact absurd (rel_of_pairwise_cons hafter hback) hrank.not_gt
    obtain ⟨start, neighbour, hbefore'⟩ :=
      (eq_nil_or_concat _).resolve_left (ne_nil_of_mem hfront)
    rw [concat_eq_append] at hbefore'
    subst hbefore'
    have hnext : rank key neighbour < rank key item := hcross _ (by simp) _ mem_cons_self
    have hbetween : rank key earlier ≤ rank key neighbour := by
      rcases mem_append.mp hfront with hstart | hlast
      · exact ((pairwise_append.mp hbefore).2.2 _ hstart _ (by simp)).le
      · rw [mem_singleton.mp hlast]
    have hsame : key neighbour.1 = key item.1 := by
      rcases rank_lt_iff.mp hnext with hbelow | hequal
      · rcases rank_le_iff.mp hbetween with hlow | hlow
        · exact absurd (hlow.trans hbelow) (hkeys ▸ lt_irrefl _)
        · exact absurd hbelow (by rw [← hlow.1, hkeys]; exact lt_irrefl _)
      · exact hequal.1
    refine mem_filterMap.mpr ⟨(neighbour, item), mem_zip_tail_iff.mpr ⟨start, after, ?_⟩, ?_⟩
    · simp
    · simp [hsame]

/-- The ordinals that repeat the key of an earlier item. -/
theorem mem_repeats_sortBy :
    ordinal ∈ repeats key (sortBy key items.zipIdx) ↔
      ∃ item, items[ordinal]? = some item ∧
        ∃ earlier ∈ items.take ordinal, key earlier = key item := by
  rw [mem_repeats_iff (sortBy_sorted (by simp [nodup_range']))]
  simp only [mem_sortBy_iff, mem_zipIdx_iff, Prod.exists]
  constructor
  · rintro ⟨item, _, hitem, rfl, earlier, place, hearlier, hkeys, hless⟩
    refine ⟨item, hitem, earlier, ?_, hkeys⟩
    exact @List.mem_of_getElem? _ _ place _ (by rw [getElem?_take_of_lt hless, hearlier])
  · rintro ⟨item, hitem, earlier, hearlier, hkeys⟩
    obtain ⟨place, hplace⟩ := mem_iff_getElem?.mp hearlier
    have hless : place < ordinal := by
      have hbound := (List.getElem?_eq_some_iff.mp hplace).1
      rw [length_take] at hbound
      omega
    rw [getElem?_take_of_lt hless] at hplace
    exact ⟨item, ordinal, hitem, rfl, earlier, place, hplace, hkeys, hless⟩

/-- The first item of a strictly sorted list that is not below `value` is the
least of those with that key. -/
theorem lookup_eq_some_iff
    (hsorted : sorted.Pairwise fun left right => rank key left < rank key right) {value : κ} :
    lookup key sorted value = some ordinal ↔
      (∃ item ∈ sorted, key item.1 = value ∧ item.2 = ordinal) ∧
        ∀ item ∈ sorted, key item.1 = value → ordinal ≤ item.2 := by
  induction sorted with
  | nil => simp [lookup]
  | cons first rest ih =>
    obtain ⟨hfirst, hrest⟩ := pairwise_cons.mp hsorted
    by_cases hbelow : key first.1 < value
    · have hskip : lookup key (first :: rest) value = lookup key rest value := by
        simp [lookup, hbelow]
      rw [hskip, ih hrest]
      simp only [mem_cons, exists_eq_or_imp, forall_eq_or_imp, hbelow.ne,
        false_and, false_or, IsEmpty.forall_iff, true_and]
    · have hhead : lookup key (first :: rest) value =
          if key first.1 = value then some first.2 else none := by
        rw [lookup, dropWhile_cons_of_neg (by simpa using hbelow), head?_cons]
        by_cases heq : key first.1 = value <;> simp [Option.filter]
      rw [hhead]
      by_cases heq : key first.1 = value
      · have hlater : ∀ item ∈ rest, key item.1 = value → first.2 < item.2 := by
          intro item hitem hkey
          rcases rank_lt_iff.mp (hfirst _ hitem) with hless | hsame
          · exact absurd (heq.trans hkey.symm) hless.ne
          · exact hsame.2
        rw [if_pos heq, Option.some.injEq]
        constructor
        · rintro rfl
          exact ⟨⟨first, mem_cons_self, heq, rfl⟩, forall_mem_cons.mpr
            ⟨fun _ => le_rfl, fun item hitem hkey => (hlater item hitem hkey).le⟩⟩
        · rintro ⟨⟨item, hitem, hkey, rfl⟩, hleast⟩
          rcases mem_cons.mp hitem with rfl | hmem
          · rfl
          · exact absurd (hleast _ mem_cons_self heq) (hlater _ hmem hkey).not_ge
      · rw [if_neg heq]
        refine ⟨nofun, ?_⟩
        rintro ⟨⟨item, hitem, hkey, -⟩, -⟩
        rcases mem_cons.mp hitem with rfl | hmem
        · exact absurd hkey heq
        · rcases rank_lt_iff.mp (hfirst _ hmem) with hless | hsame
          · exact absurd (hkey ▸ hless) hbelow
          · exact absurd (hsame.1.trans hkey) heq

/-- The index finds the first item with a key, as a scan does. -/
theorem lookup_sortBy (items : List α) (value : κ) {order : List (α × ℕ)}
    (horder : order.Perm items.zipIdx) :
    lookup key (sortBy key order) value = items.findIdx? fun item => key item = value := by
  have hordinals : (order.map Prod.snd).Nodup :=
    (horder.map _).nodup_iff.mpr (by simp [nodup_range'])
  ext ordinal
  rw [lookup_eq_some_iff (sortBy_sorted hordinals), findIdx?_eq_some_iff_getElem]
  simp only [mem_sortBy_iff, horder.mem_iff, mem_zipIdx_iff, Prod.exists,
    decide_eq_true_eq, Prod.forall]
  constructor
  · rintro ⟨⟨item, _, hitem, hkey, rfl⟩, hleast⟩
    obtain ⟨hbound, rfl⟩ := List.getElem?_eq_some_iff.mp hitem
    refine ⟨hbound, hkey, fun place hplace hsame => ?_⟩
    exact absurd (hleast _ _ (getElem?_eq_getElem _) hsame) hplace.not_ge
  · rintro ⟨hbound, hkey, hleast⟩
    refine ⟨⟨_, ordinal, getElem?_eq_getElem hbound, hkey, rfl⟩, fun item place hitem hsame => ?_⟩
    obtain ⟨hplace, rfl⟩ := List.getElem?_eq_some_iff.mp hitem
    by_contra hless
    exact hleast _ (by omega) hsame

end PacketCore.SortedIndex
