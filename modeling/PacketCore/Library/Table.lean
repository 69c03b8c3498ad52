import Mathlib

/-!
# Finite tables and overlays

A table is a lookup function together with the finite set of keys it is
defined on.  Two tables with the same lookups are equal, so a table that was
edited in place can be compared with one that was rebuilt from a base and an
overlay: written rows win over removals, removals win over the base.
-/

namespace PacketCore

/-- A lookup function with finite support. -/
structure Table (K V : Type*) [DecidableEq K] where
  keys : Finset K
  find : K → Option V
  mem_keys_iff : ∀ key, key ∈ keys ↔ (find key).isSome

namespace Table

variable {K V : Type*} [DecidableEq K]

/-- Tables are determined by their lookups. -/
@[ext]
theorem ext_find {left right : Table K V}
    (hfind : ∀ key, left.find key = right.find key) : left = right := by
  obtain ⟨leftKeys, leftFind, hleft⟩ := left
  obtain ⟨rightKeys, rightFind, hright⟩ := right
  have hfun : leftFind = rightFind := funext hfind
  subst hfun
  have hkeys : leftKeys = rightKeys := by
    ext key
    rw [hleft, hright]
  subst hkeys
  rfl

instance [DecidableEq V] : DecidableEq (Table K V) := fun left right =>
  decidable_of_iff
    (left.keys = right.keys ∧ ∀ key ∈ left.keys, left.find key = right.find key) <| by
      constructor
      · rintro ⟨hkeys, hfind⟩
        apply ext_find
        intro key
        by_cases hkey : key ∈ left.keys
        · exact hfind key hkey
        · have hright : key ∉ right.keys := hkeys ▸ hkey
          rw [left.mem_keys_iff, Option.not_isSome_iff_eq_none] at hkey
          rw [right.mem_keys_iff, Option.not_isSome_iff_eq_none] at hright
          rw [hkey, hright]
      · rintro rfl
        exact ⟨rfl, fun _ _ => rfl⟩

/-- The table with no rows. -/
def empty : Table K V := ⟨∅, fun _ => none, by simp⟩

@[simp]
theorem find_empty (key : K) : (empty : Table K V).find key = none := rfl

@[simp]
theorem keys_empty : (empty : Table K V).keys = ∅ := rfl

variable {table : Table K V} {key : K}

theorem mem_keys :
    key ∈ table.keys ↔ ∃ value, table.find key = some value := by
  rw [table.mem_keys_iff, Option.isSome_iff_exists]

theorem not_mem_keys : key ∉ table.keys ↔ table.find key = none := by
  rw [table.mem_keys_iff, Option.not_isSome_iff_eq_none]

theorem mem_keys_of_find {value : V}
    (hfind : table.find key = some value) : key ∈ table.keys :=
  mem_keys.mpr ⟨value, hfind⟩

/-- What is asked of every row is decided by going through the rows. -/
instance decidableForallFind (table : Table K V) (p : K → V → Prop)
    [∀ key value, Decidable (p key value)] :
    Decidable (∀ key value, table.find key = some value → p key value) :=
  decidable_of_iff (∀ key ∈ table.keys, ∀ value ∈ table.find key, p key value)
    ⟨fun hall key value hfind => hall key (mem_keys_of_find hfind) value hfind,
      fun hall key _ value hfind => hall key value hfind⟩

/-- Insert or replace one row. -/
def insert (table : Table K V) (key : K) (value : V) : Table K V where
  keys := Insert.insert key table.keys
  find := fun other => if other = key then some value else table.find other
  mem_keys_iff := by
    intro other
    by_cases hother : other = key <;> simp [hother, table.mem_keys_iff]

@[simp]
theorem find_insert (table : Table K V) (key other : K) (value : V) :
    (table.insert key value).find other =
      if other = key then some value else table.find other := rfl

@[simp]
theorem keys_insert (table : Table K V) (key : K) (value : V) :
    (table.insert key value).keys = Insert.insert key table.keys := rfl

/-- Remove one row, if it is there. -/
def erase (table : Table K V) (key : K) : Table K V where
  keys := table.keys.erase key
  find := fun other => if other = key then none else table.find other
  mem_keys_iff := by
    intro other
    by_cases hother : other = key <;> simp [hother, table.mem_keys_iff]

@[simp]
theorem find_erase (table : Table K V) (key other : K) :
    (table.erase key).find other = if other = key then none else table.find other := rfl

@[simp]
theorem keys_erase (table : Table K V) (key : K) :
    (table.erase key).keys = table.keys.erase key := rfl

/-- Keep the rows whose key and value satisfy a test. -/
def filter (table : Table K V) (keep : K → V → Bool) : Table K V where
  keys := table.keys.filter fun key => ((table.find key).filter (keep key)).isSome
  find := fun key => (table.find key).filter (keep key)
  mem_keys_iff := by
    intro key
    simp only [Finset.mem_filter, table.mem_keys_iff, and_iff_right_iff_imp]
    cases table.find key <;> simp

@[simp]
theorem find_filter (table : Table K V) (keep : K → V → Bool) (key : K) :
    (table.filter keep).find key = (table.find key).filter (keep key) := rfl

/-- The base without its removed keys, under the written rows. -/
def overlay (base writes : Table K V) (removed : Finset K) : Table K V where
  keys := writes.keys ∪ (base.keys \ removed)
  find := fun key =>
    (writes.find key).or (if key ∈ removed then none else base.find key)
  mem_keys_iff := by
    intro key
    by_cases hremoved : key ∈ removed <;>
      simp [hremoved, writes.mem_keys_iff, base.mem_keys_iff]

@[simp]
theorem find_overlay (base writes : Table K V) (removed : Finset K) (key : K) :
    (overlay base writes removed).find key =
      (writes.find key).or (if key ∈ removed then none else base.find key) := rfl

@[simp]
theorem overlay_empty (base : Table K V) : overlay base empty ∅ = base := by
  ext1 key
  simp

/-- Writing through an overlay is writing to the table it denotes. -/
theorem overlay_insert (base writes : Table K V) (removed : Finset K) (key : K)
    (value : V) :
    overlay base (writes.insert key value) (removed.erase key) =
      (overlay base writes removed).insert key value := by
  ext1 other
  by_cases hother : other = key <;> simp [hother]

end Table

end PacketCore
