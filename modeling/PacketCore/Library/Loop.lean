import Mathlib

/-!
# Fallible loops

The modelled code is written with early returns and `for` loops over a list or
an ordered set.  This module gives these shapes once: inversion of a successful
bind, a fold that threads an invariant, and the members of a finite set in
ascending order.
-/

namespace PacketCore

universe u

section Bind

variable {ε : Type*} {α β : Type u} {first : Except ε α} {next : α → Except ε β} {result : β}

/-- A successful bind has a successful first half. -/
theorem bind_eq_ok
    (hok : first >>= next = .ok result) : ∃ value, first = .ok value ∧ next value = .ok result := by
  cases first with
  | error => exact absurd hok (by rintro ⟨⟩)
  | ok value => exact ⟨value, rfl, hok⟩

/-- A bind succeeds exactly when both halves do. -/
theorem bind_eq_ok_iff :
    first >>= next = .ok result ↔ ∃ value, first = .ok value ∧ next value = .ok result := by
  constructor
  · exact bind_eq_ok
  · rintro ⟨value, hfirst, hnext⟩
    rw [hfirst]
    exact hnext

/-- A refused bind is refused by one of its halves. -/
theorem bind_eq_error {fault : ε}
    (herror : first >>= next = .error fault) :
    first = .error fault ∨ ∃ value, first = .ok value ∧ next value = .error fault := by
  cases first with
  | error =>
    cases herror
    exact .inl rfl
  | ok value => exact .inr ⟨value, rfl, herror⟩

@[simp]
theorem ok_bind (value : α) (next : α → Except ε β) : (Except.ok value >>= next) = next value := rfl

@[simp]
theorem pure_eq_ok (value : α) : (pure value : Except ε α) = .ok value := rfl

/-- Renaming the fault does not change what is accepted. -/
theorem mapError_eq_ok {ε' : Type*} {rename : ε → ε'} {value : α} :
    first.mapError rename = .ok value ↔ first = .ok value := by
  cases first <;> simp [Except.mapError]

end Bind

variable {test : Prop}

section Guard

variable {ε : Type*} {fault raised : ε}

/-- Refuse with `fault` when the test holds. -/
def refuseIf (test : Prop) [Decidable test] (fault : ε) : Except ε Unit :=
  if test then .error fault else .ok ()

@[simp]
theorem refuseIf_eq_ok [Decidable test] {done : Unit} :
    refuseIf test fault = .ok done ↔ ¬ test := by
  unfold refuseIf
  by_cases htest : test <;> simp [htest]

theorem refuseIf_bind {β : Type} [Decidable test] {next : Unit → Except ε β} {result : β}
    (hok : refuseIf test fault >>= next = .ok result) : ¬ test ∧ next () = .ok result := by
  obtain ⟨_, htest, hok⟩ := bind_eq_ok hok
  exact ⟨refuseIf_eq_ok.mp htest, hok⟩

theorem refuseIf_of_not [Decidable test] (htest : ¬ test) :
    refuseIf test fault = .ok () :=
  if_neg htest

@[simp]
theorem refuseIf_eq_error [Decidable test] :
    refuseIf test fault = .error raised ↔ test ∧ fault = raised := by
  unfold refuseIf
  by_cases htest : test <;> simp [htest]

variable {α : Type*}

/-- The value of an option, or a refusal. -/
def okOr (value : Option α) (fault : ε) : Except ε α :=
  match value with
  | some inner => .ok inner
  | none => .error fault

@[simp]
theorem okOr_eq_ok {value : Option α} {inner : α} :
    okOr value fault = .ok inner ↔ value = some inner := by
  cases value <;> simp [okOr]

theorem okOr_bind {α β : Type u} {value : Option α} {next : α → Except ε β}
    {result : β} (hok : okOr value fault >>= next = .ok result) :
    ∃ inner, value = some inner ∧ next inner = .ok result := by
  obtain ⟨inner, hvalue, hok⟩ := bind_eq_ok hok
  exact ⟨inner, okOr_eq_ok.mp hvalue, hok⟩

@[simp]
theorem okOr_eq_error {value : Option α} :
    okOr value fault = .error raised ↔ value = none ∧ fault = raised := by
  cases value <;> simp [okOr]

end Guard

section Fold

variable {σ α ε : Type*} {step : σ → α → Except ε σ}

/-- What one step preserves, a `for` loop over a list preserves. -/
theorem foldlM_invariant (Inv : σ → Prop)
    (hstep : ∀ state item next, Inv state → step state item = .ok next → Inv next)
    {items : List α} {state final : σ} (hinv : Inv state)
    (hrun : items.foldlM step state = .ok final) : Inv final := by
  induction items generalizing state with
  | nil =>
    cases hrun
    exact hinv
  | cons _ _ ih =>
    obtain ⟨next, hnext, hrest⟩ := bind_eq_ok hrun
    exact ih (hstep _ _ _ hinv hnext) hrest

/-- A loop that collects one result for each item. -/
theorem mapM_eq_ok {β : Type*} {read : α → Except ε β} {items : List α}
    {results : List β} (hrun : items.mapM read = .ok results) :
    List.Forall₂ (fun item result => read item = .ok result) items results := by
  induction items generalizing results with
  | nil =>
    cases hrun
    exact .nil
  | cons _ _ ih =>
    rw [List.mapM_cons] at hrun
    obtain ⟨result, hresult, hrun⟩ := bind_eq_ok hrun
    obtain ⟨_, hrest, hrun⟩ := bind_eq_ok hrun
    cases hrun
    exact .cons hresult (ih hrest)

/-- A loop of checks passes when every check passes. -/
theorem forM_eq_ok {check : α → Except ε PUnit} {items : List α} {done : PUnit} :
    items.forM check = .ok done ↔ ∀ item ∈ items, check item = .ok ⟨⟩ := by
  induction items with
  | nil => simp
  | cons item items ih =>
    rw [List.forall_mem_cons, ← ih]
    change (check item >>= fun _ => items.forM check) = .ok done ↔ _
    constructor
    · intro hrun
      obtain ⟨_, hitem, hrest⟩ := bind_eq_ok hrun
      exact ⟨hitem, hrest⟩
    · rintro ⟨hitem, hrest⟩
      rw [hitem]
      exact hrest

end Fold

section Ascending

variable {α : Type*} [LinearOrder α] {items : Finset α} {item : α}

/-- The least element of a finite ordered set. -/
def leastOf (items : Finset α) : Option α :=
  match items.min with
  | ⊤ => none
  | (item : α) => some item

theorem leastOf_eq_none : leastOf items = none ↔ items = ∅ := by
  unfold leastOf
  rw [← Finset.min_eq_top]
  cases items.min <;> simp

theorem leastOf_mem (hleast : leastOf items = some item) : item ∈ items := by
  unfold leastOf at hleast
  split at hleast
  · cases hleast
  · next _ hmin =>
    cases hleast
    exact Finset.mem_of_min hmin

/-- The elements of a finite set in ascending order. -/
def ascendingFrom : ℕ → Finset α → List α
  | 0, _ => []
  | fuel + 1, items =>
    match leastOf items with
    | none => []
    | some item => item :: ascendingFrom fuel (items.erase item)

/-- All elements of a finite set in ascending order. -/
def ascending (items : Finset α) : List α := ascendingFrom items.card items

theorem mem_ascendingFrom {fuel : ℕ} (hfuel : items.card ≤ fuel) :
    item ∈ ascendingFrom fuel items ↔ item ∈ items := by
  induction fuel generalizing items with
  | zero =>
    have hempty : items = ∅ := Finset.card_eq_zero.mp (Nat.le_zero.mp hfuel)
    simp [ascendingFrom, hempty]
  | succ fuel ih =>
    cases hleast : leastOf items with
    | none =>
      have hempty : items = ∅ := leastOf_eq_none.mp hleast
      simp [ascendingFrom, hempty, leastOf]
    | some least =>
      have hmem := leastOf_mem hleast
      have hcard : (items.erase least).card ≤ fuel := by
        have := Finset.card_erase_lt_of_mem hmem
        omega
      simp only [ascendingFrom, hleast, List.mem_cons, ih hcard]
      by_cases hitem : item = least
      · simp [hitem, hmem]
      · simp [hitem]

@[simp]
theorem mem_ascending : item ∈ ascending items ↔ item ∈ items :=
  mem_ascendingFrom le_rfl

theorem nodup_ascendingFrom (fuel : ℕ) (items : Finset α) :
    (ascendingFrom fuel items).Nodup ∧ ∀ item ∈ ascendingFrom fuel items, item ∈ items := by
  induction fuel generalizing items with
  | zero => simp [ascendingFrom]
  | succ _ ih =>
    cases hleast : leastOf items with
    | none => simp [ascendingFrom, hleast]
    | some =>
      obtain ⟨hnodup, hsub⟩ := ih _
      simp only [ascendingFrom, hleast, List.nodup_cons, List.mem_cons, forall_eq_or_imp]
      refine ⟨⟨fun hmem => ?_, hnodup⟩, leastOf_mem hleast, fun item hitem => ?_⟩
      · exact Finset.notMem_erase _ _ (hsub _ hmem)
      · exact Finset.mem_of_mem_erase (hsub _ hitem)

theorem nodup_ascending (items : Finset α) : (ascending items).Nodup := (nodup_ascendingFrom _ _).1

end Ascending

/-- A fold whose steps commute and are idempotent depends on what it folds, and
neither on the order nor on repetitions. -/
theorem foldl_eq_of_mem_iff {α β : Type*} {step : β → α → β}
    (hcomm : ∀ state left right, step (step state left) right = step (step state right) left)
    (hidem : ∀ state item, step (step state item) item = step state item)
    {left right : List α} (hsame : ∀ item, item ∈ left ↔ item ∈ right)
    (state : β) : left.foldl step state = right.foldl step state := by
  -- what the fold meets anyway may as well come first
  have habsorb : ∀ {items : List α} {item : α}, item ∈ items → ∀ state,
      items.foldl step (step state item) = items.foldl step state := by
    intro items item hmem
    induction hmem with
    | head => simp [hidem]
    | tail _ _ ih => simp [hcomm _ item, ih]
  have hmore : ∀ {items more : List α}, (∀ item ∈ more, item ∈ items) → ∀ state,
      (more ++ items).foldl step state = items.foldl step state := by
    intro items more hmore
    induction more with
    | nil => simp
    | cons _ _ ih =>
      rw [List.forall_mem_cons] at hmore
      simp [ih hmore.2, habsorb hmore.1]
  rw [← hmore fun item => (hsame item).mpr, ← @hmore right left fun item => (hsame item).mp]
  exact List.perm_append_comm.foldl_eq' (fun _ _ _ _ _ => hcomm ..) state

end PacketCore
