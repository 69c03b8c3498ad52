import PacketCore.Library.Word

/-!
# Retention of dead keys

Dead keys keep their fence for two epochs.  A rotation closes the epoch and raises
the floors below which the fence of an absent key is no longer accepted.
-/

namespace PacketCore.Session

inductive StoreError
  | fencedTransitionStorageExhausted

/-- Retired keys that close an epoch. -/
def retiredKeysPerEpoch : ℕ := 32768

inductive RotationReason
  | threshold
  | capacity

structure KeyRetention where
  epoch : ℕ
  floorPrev : ℕ
  floorCur : ℕ
  retiredMax : ℕ
  retiredCount : ℕ
  lastRotation : Option RotationReason

namespace KeyRetention

/-- Code that may change a retention value and the fence allocator, and keeps what it
has changed when it fails. -/
abbrev Mutation := EStateM StoreError (KeyRetention × ℕ)

def okOrExhausted : Option ℕ → Mutation ℕ
  | some value => pure value
  | none => throw .fencedTransitionStorageExhausted

/-- Close one epoch.  The result is the oldest epoch whose rows must be removed. -/
def rotate (counterLimit asyncFloor : ℕ) (reason : RotationReason) : Mutation (Option ℕ) := do
  let (keys, nextFence) ← get
  let epoch ← okOrExhausted (checkedAdd keys.epoch 1)
  let floorPrev := max keys.floorCur asyncFloor
  let floorCur := max (← okOrExhausted (checkedAdd floorPrev 1))
    (← okOrExhausted (checkedAdd keys.retiredMax 1))
  let allocated := max nextFence (← okOrExhausted (checkedAdd floorCur 1))
  if counterLimit < allocated then throw .fencedTransitionStorageExhausted
  set ((⟨epoch, floorPrev, floorCur, 0, 0, some reason⟩, allocated) : KeyRetention × ℕ)
  return checkedSub epoch 2

variable (keys : KeyRetention) (asyncFloor : ℕ)

def observedAbsentFence : ℕ := max keys.floorCur asyncFloor

def acceptsAbsentFence (expected : ℕ) : Bool :=
  expected = max keys.floorPrev asyncFloor || expected = max keys.floorCur asyncFloor

def valid (nextFence : ℕ) : Bool :=
  keys.floorPrev ≤ keys.floorCur && keys.floorCur < nextFence && keys.retiredMax < nextFence &&
  keys.retiredCount < retiredKeysPerEpoch && (keys.retiredCount ≠ 0 || keys.retiredMax = 0) &&
  (keys.epoch ≠ 0 || (keys.floorPrev = 0 && keys.floorCur = 0)) &&
  ((keys.epoch == 0) == keys.lastRotation.isNone) &&
  (keys.epoch = 0 || keys.floorPrev < keys.floorCur)

/-- A rotation fails before it changes anything, or the observed floor becomes the
previous one. -/
theorem rotate_cases (counterLimit asyncFloor : ℕ) (reason : RotationReason)
    (keys : KeyRetention) (nextFence : ℕ) :
    (∃ fault, rotate counterLimit asyncFloor reason (keys, nextFence) =
      .error fault (keys, nextFence)) ∨
    ∃ oldest floorCur allocated, keys.observedAbsentFence asyncFloor < floorCur ∧
      floorCur < allocated ∧ nextFence ≤ allocated ∧
      rotate counterLimit asyncFloor reason (keys, nextFence) = .ok oldest
        (⟨keys.epoch + 1, keys.observedAbsentFence asyncFloor, floorCur, 0, 0, some reason⟩,
          allocated) := by
  unfold rotate
  simp only [bind, EStateM.bind, get, getThe, MonadStateOf.get, EStateM.get]
  -- every check but the last is a checked addition
  cases hepoch : checkedAdd keys.epoch 1 with
  | none => exact .inl ⟨_, rfl⟩
  | some epoch =>
  cases hsuccessor : checkedAdd (max keys.floorCur asyncFloor) 1 with
  | none => exact .inl ⟨_, rfl⟩
  | some successor =>
  cases hretired : checkedAdd keys.retiredMax 1 with
  | none => exact .inl ⟨_, rfl⟩
  | some aboveRetired =>
  dsimp only [okOrExhausted, pure, EStateM.pure]
  cases hfloor : checkedAdd (max successor aboveRetired) 1 with
  | none => exact .inl ⟨_, rfl⟩
  | some aboveFloor =>
  dsimp only [EStateM.pure]
  have hepoch := checkedAdd_eq_some hepoch
  have hsuccessor := checkedAdd_eq_some hsuccessor
  have hfloor := checkedAdd_eq_some hfloor
  split
  · exact .inl ⟨_, rfl⟩
  · subst hepoch
    refine .inr ⟨_, max successor aboveRetired,
      max nextFence aboveFloor, ?_, ?_, le_max_left _ _, rfl⟩
    · exact hsuccessor ▸ lt_max_of_lt_left (Nat.lt_succ_self _)
    · exact hfloor ▸ lt_max_of_lt_right (Nat.lt_succ_self _)

/-- Successful rotations one after the other. -/
inductive Rotations (asyncFloor : ℕ) (first : KeyRetention × ℕ) : ℕ → KeyRetention × ℕ → Prop
  | none : Rotations asyncFloor first 0 first
  | rotate {count state counterLimit reason oldest next}
      (hstate : Rotations asyncFloor first count state)
      (hrotate : rotate counterLimit asyncFloor reason state = .ok oldest next) :
      Rotations asyncFloor first (count + 1) next

variable {asyncFloor counterLimit : ℕ} {reason : RotationReason}
  {oldest : Option ℕ} {first state next : KeyRetention × ℕ} {count : ℕ}

theorem rotate_floors (hrotate : rotate counterLimit asyncFloor reason state = .ok oldest next) :
    next.1.floorPrev = state.1.observedAbsentFence asyncFloor ∧
      state.1.observedAbsentFence asyncFloor < next.1.floorCur := by
  obtain ⟨_, hfails⟩ | ⟨_, _, _, hraised, -, -, hok⟩ :=
    rotate_cases counterLimit asyncFloor reason state.1 state.2
  · cases hrotate.symm.trans hfails
  · cases hrotate.symm.trans hok
    exact ⟨rfl, hraised⟩

theorem Rotations.observed_le (hrotations : Rotations asyncFloor first count next) :
    first.1.observedAbsentFence asyncFloor + count ≤ next.1.observedAbsentFence asyncFloor := by
  induction hrotations with
  | none => rfl
  | rotate _ hrotate ih =>
    exact (Nat.succ_le_succ ih).trans (le_max_of_le_left (rotate_floors hrotate).2)

/-- A fence that was observed is accepted after one more rotation and not after two. -/
theorem Rotations.accepts_iff (hrotations : Rotations asyncFloor first count next) :
    next.1.acceptsAbsentFence asyncFloor (first.1.observedAbsentFence asyncFloor) = true ↔
      count ≤ 1 := by
  have hraised := hrotations.observed_le
  unfold acceptsAbsentFence
  rw [Bool.or_eq_true, decide_eq_true_eq, decide_eq_true_eq]
  cases hrotations with
  | none => exact iff_of_true (.inr rfl) (Nat.zero_le 1)
  | @rotate count state _ _ _ _ hstate hrotate =>
    obtain ⟨hprev, -⟩ := rotate_floors hrotate
    have hbefore := hstate.observed_le
    have hfloor : max next.1.floorPrev asyncFloor = state.1.observedAbsentFence asyncFloor := by
      rw [hprev]
      exact max_eq_left (le_max_right _ _)
    have hcur : max next.1.floorCur asyncFloor = next.1.observedAbsentFence asyncFloor := rfl
    rw [hfloor, hcur]
    constructor
    · omega
    · intro hone
      obtain rfl : count = 0 := by omega
      cases hstate
      exact .inl rfl

/-- The window is one rotation wide: the fence seen at an absent key is accepted after
at most one more rotation.  A rotation keeps the retention valid and raises the
floors, and one that fails changes nothing. -/
theorem absent_fence_window :
    (∀ asyncFloor first count next, Rotations asyncFloor first count next →
      (next.1.acceptsAbsentFence asyncFloor (first.1.observedAbsentFence asyncFloor) = true ↔
        count ≤ 1)) ∧
    ∀ counterLimit asyncFloor reason keys nextFence,
      match rotate counterLimit asyncFloor reason (keys, nextFence) with
      | .error _ kept => kept = (keys, nextFence)
      | .ok _ (changed, allocated) => keys.valid nextFence = true →
        changed.valid allocated = true ∧ nextFence ≤ allocated ∧
        keys.observedAbsentFence asyncFloor < changed.observedAbsentFence asyncFloor ∧
        (1 ≤ keys.epoch → keys.floorPrev < changed.floorPrev) := by
  refine ⟨fun _ _ _ _ => Rotations.accepts_iff,
    fun counterLimit asyncFloor reason keys nextFence => ?_⟩
  obtain ⟨_, hfails⟩ | ⟨_, floorCur, allocated, hraised, hbelow, hgrows, hok⟩ :=
    rotate_cases counterLimit asyncFloor reason keys nextFence
  · rw [hfails]
  · rw [hok]
    intro hvalid
    refine ⟨?_, hgrows, lt_max_of_lt_left hraised, fun hepoch => ?_⟩
    · simp [valid, retiredKeysPerEpoch, hraised, hraised.le, hbelow, hbelow.pos]
    · have hseparated : keys.floorPrev < keys.floorCur := by
        simp [valid, Nat.one_le_iff_ne_zero.mp hepoch] at hvalid
        omega
      exact hseparated.trans_le (le_max_left _ _)

/-- The fence observed before two rotations is accepted after the first only. -/
theorem absent_fence_window_two :
    let start : KeyRetention × ℕ := (⟨0, 0, 0, 0, 0, none⟩, 1)
    let once : KeyRetention × ℕ := (⟨1, 3, 4, 0, 0, some .threshold⟩, 5)
    let twice : KeyRetention × ℕ := (⟨2, 4, 5, 0, 0, some .capacity⟩, 6)
    let fence := start.1.observedAbsentFence 3
    once.1.acceptsAbsentFence 3 fence = true ∧
      ¬ twice.1.acceptsAbsentFence 3 fence = true ∧ twice.1.valid twice.2 = true := by
  intro start once twice fence
  have honce : Rotations 3 start 1 once :=
    .rotate .none (show rotate 9 3 .threshold start = .ok none once from rfl)
  have htwice : Rotations 3 start 2 twice :=
    honce.rotate (show rotate 9 3 .capacity once = .ok (some 0) twice from rfl)
  obtain ⟨hwindow, hrotate⟩ := absent_fence_window
  refine ⟨(hwindow 3 start 1 once honce).mpr le_rfl, fun haccepts => ?_,
    (hrotate 9 3 .capacity once.1 5 rfl).1⟩
  exact absurd ((hwindow 3 start 2 twice htwice).mp haccepts) (by decide)

end KeyRetention

end PacketCore.Session
