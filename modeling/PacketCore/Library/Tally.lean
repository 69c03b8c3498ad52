import PacketCore.Library.Table

/-!
# Tallies over tables

A counter kept next to a table is the sum of a weight over its rows.  The
lemmas say by how much the sum moves when one row is written, edited or
removed; they are stated without subtraction, so that `omega` can use them.
-/

namespace PacketCore.Table

variable {K V : Type*} [DecidableEq K]

/-- Edit one row in place, if it is there. -/
def modify (table : Table K V) (key : K) (edit : V → V) : Table K V where
  keys := table.keys
  find := fun other => if other = key then (table.find key).map edit else table.find other
  mem_keys_iff := by
    intro other
    by_cases hother : other = key <;> simp [hother, table.mem_keys_iff]

@[simp]
theorem find_modify (table : Table K V) (key other : K) (edit : V → V) :
    (table.modify key edit).find other =
      if other = key then (table.find key).map edit else table.find other := rfl

/-- Edit every row in place. -/
def mapValues (table : Table K V) (edit : V → V) : Table K V where
  keys := table.keys
  find := fun key => (table.find key).map edit
  mem_keys_iff := by simp [table.mem_keys_iff]

@[simp]
theorem find_mapValues (table : Table K V) (key : K) (edit : V → V) :
    (table.mapValues edit).find key = (table.find key).map edit := rfl

/-- The weight of the row under a key; nothing for an absent row. -/
def weightAt (table : Table K V) (weight : V → ℕ) (key : K) : ℕ :=
  ((table.find key).map weight).getD 0

/-- The sum of a weight over all rows. -/
def total (table : Table K V) (weight : V → ℕ) : ℕ :=
  ∑ key ∈ table.keys, table.weightAt weight key

variable {table : Table K V} {weight : V → ℕ} {key : K} {value : V}

theorem weightAt_of_find (hfind : table.find key = some value) :
    table.weightAt weight key = weight value := by
  simp [weightAt, hfind]

theorem weightAt_of_absent (hfind : table.find key = none) : table.weightAt weight key = 0 := by
  simp [weightAt, hfind]

/-- The total without the row of one key. -/
theorem total_eq_add (table : Table K V) (weight : V → ℕ) (key : K) :
    table.total weight = table.weightAt weight key +
      ∑ other ∈ table.keys.erase key, table.weightAt weight other := by
  by_cases hkey : key ∈ table.keys
  · exact (Finset.add_sum_erase _ _ hkey).symm
  · rw [weightAt_of_absent (not_mem_keys.mp hkey), Finset.erase_eq_of_notMem hkey, Nat.zero_add]
    rfl

/-- Tables that differ in one row have totals that differ by that row. -/
theorem total_congr (left right : Table K V) (weight : V → ℕ) (key : K)
    (hfind : ∀ other, other ≠ key → left.find other = right.find other) :
    left.total weight + right.weightAt weight key =
      right.total weight + left.weightAt weight key := by
  have hkeys : left.keys.erase key = right.keys.erase key := by
    ext other
    simp only [Finset.mem_erase, mem_keys_iff]
    constructor
    · rintro ⟨hother, hmem⟩
      exact ⟨hother, hfind _ hother ▸ hmem⟩
    · rintro ⟨hother, hmem⟩
      exact ⟨hother, (hfind _ hother).symm ▸ hmem⟩
  have hrest : ∑ other ∈ left.keys.erase key, left.weightAt weight other =
      ∑ other ∈ right.keys.erase key, right.weightAt weight other := by
    rw [hkeys]
    apply Finset.sum_congr rfl
    intro other hother
    rw [weightAt, weightAt, hfind _ (Finset.ne_of_mem_erase hother)]
  rw [total_eq_add _ _ key, total_eq_add _ _ key]
  omega

theorem total_insert (table : Table K V) (weight : V → ℕ) (key : K) (value : V) :
    (table.insert key value).total weight + table.weightAt weight key =
      table.total weight + weight value := by
  have hcongr := total_congr (table.insert key value) table weight key
    fun other hother => by simp [hother]
  rwa [weightAt_of_find (show (table.insert key value).find key = some value by simp)] at hcongr

theorem total_erase (table : Table K V) (weight : V → ℕ) (key : K) :
    (table.erase key).total weight + table.weightAt weight key = table.total weight := by
  have hcongr := total_congr (table.erase key) table weight key fun other hother => by simp [hother]
  rwa [weightAt_of_absent (show (table.erase key).find key = none by simp), Nat.add_zero] at hcongr

theorem total_modify (edit : V → V) (weight : V → ℕ) (hfind : table.find key = some value) :
    (table.modify key edit).total weight + weight value =
      table.total weight + weight (edit value) := by
  have hcongr := total_congr (table.modify key edit) table weight key
    fun other hother => by simp [hother]
  rwa [weightAt_of_find hfind, weightAt_of_find
    (show (table.modify key edit).find key = some (edit value) by simp [hfind])] at hcongr

theorem total_eq_of_weightAt {left right : Table K V} (hkeys : left.keys = right.keys)
    (hweight : ∀ key, left.weightAt weight key = right.weightAt weight key) :
    left.total weight = right.total weight := by
  unfold total
  rw [hkeys]
  exact Finset.sum_congr rfl fun key _ => hweight _

theorem weight_le_total (hfind : table.find key = some value) :
    weight value ≤ table.total weight := by
  rw [total_eq_add, weightAt_of_find hfind]
  exact Nat.le_add_right _ _

/-- A positive total has a row that contributes to it. -/
theorem exists_of_total_pos (hpositive : 0 < table.total weight) :
    ∃ key value, table.find key = some value ∧ 0 < weight value := by
  have hne : table.total weight ≠ 0 := hpositive.ne'
  obtain ⟨key, hkey, hweight⟩ := Finset.exists_ne_zero_of_sum_ne_zero hne
  obtain ⟨value, hfind⟩ := mem_keys.mp hkey
  rw [weightAt_of_find hfind] at hweight
  exact ⟨key, value, hfind, Nat.pos_of_ne_zero hweight⟩

theorem total_eq_zero (hzero : ∀ key value, table.find key = some value → weight value = 0) :
    table.total weight = 0 := by
  by_contra hne
  obtain ⟨key, value, hfind, _⟩ := exists_of_total_pos (Nat.pos_of_ne_zero hne)
  have := hzero _ _ hfind
  omega

theorem total_add (left right : V → ℕ) (hsum : ∀ value, weight value = left value + right value) :
    table.total weight = table.total left + table.total right := by
  unfold total
  rw [← Finset.sum_add_distrib]
  apply Finset.sum_congr rfl
  intro key _
  unfold weightAt
  cases table.find key with
  | none => rfl
  | some => exact hsum _

end PacketCore.Table
