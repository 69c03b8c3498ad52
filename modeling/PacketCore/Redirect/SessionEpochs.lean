import PacketCore.Redirect.ReplayHistory

/-!
# The epochs of a session

A session holds its current epoch and at most one other.  The control
operations only drop epochs or move them from one place to another; a new epoch
comes in by staging alone, and the counters of an epoch change in place.
-/

namespace PacketCore.Redirect

variable {kind : ReceiveEpochKind} {now : ℕ} {wireEpoch : Word 8}

namespace SessionEpochState

/-- Every epoch that the session holds. -/
def members (state : SessionEpochState) : List DirectionalEpoch :=
  state.current :: (state.pending.toList ++ state.previous.toList).map ReceiveEpoch.epoch

/-- The identifiers of the epochs that the session holds. -/
def identifiers (state : SessionEpochState) : List (Word 8) :=
  state.members.map DirectionalEpoch.epoch

variable {state next : SessionEpochState} {epoch : DirectionalEpoch}

theorem mem_members :
    epoch ∈ state.members ↔ epoch = state.current ∨
      (∃ pending, state.pending = some pending ∧ pending.epoch = epoch) ∨
      ∃ previous, state.previous = some previous ∧ previous.epoch = epoch := by
  simp [members, Option.mem_toList]

/-- At most one epoch besides the current one, and it is a different one. -/
structure Sound (state : SessionEpochState) : Prop where
  exclusive : state.pending = none ∨ state.previous = none
  pending_ne : ∀ pending, state.pending = some pending → pending.epoch.epoch ≠ state.current.epoch
  previous_ne : ∀ previous, state.previous = some previous →
    previous.epoch.epoch ≠ state.current.epoch

/-- The identifier tells the epochs of a session apart. -/
theorem Sound.unique (hsound : state.Sound) {left right : DirectionalEpoch}
    (hleft : left ∈ state.members) (hright : right ∈ state.members)
    (hsame : left.epoch = right.epoch) : left = right := by
  rw [mem_members] at hleft hright
  rcases hleft with rfl | ⟨leftOther, hleft, rfl⟩ | ⟨leftOther, hleft, rfl⟩ <;>
    rcases hright with rfl | ⟨rightOther, hright, rfl⟩ | ⟨rightOther, hright, rfl⟩
  · rfl
  · exact absurd hsame.symm (hsound.pending_ne _ hright)
  · exact absurd hsame.symm (hsound.previous_ne _ hright)
  · exact absurd hsame (hsound.pending_ne _ hleft)
  · rw [hleft] at hright
    cases hright
    rfl
  · rcases hsound.exclusive with hnone | hnone <;> simp_all
  · exact absurd hsame (hsound.previous_ne _ hleft)
  · rcases hsound.exclusive with hnone | hnone <;> simp_all
  · rw [hleft] at hright
    cases hright
    rfl

/-- Epochs are dropped or change their place, and nothing else. -/
structure Shrinks (state next : SessionEpochState) : Prop where
  sound : state.Sound → next.Sound
  members : ∀ epoch ∈ next.members, epoch ∈ state.members

theorem Shrinks.refl (state : SessionEpochState) : Shrinks state state :=
  ⟨id, fun _ => id⟩

theorem Shrinks.trans {last : SessionEpochState} (hfirst : Shrinks state next)
    (hsecond : Shrinks next last) : Shrinks state last :=
  ⟨hsecond.sound ∘ hfirst.sound, fun _ hepoch => hfirst.members _ (hsecond.members _ hepoch)⟩

/-- The same current epoch, with the others kept, shortened in time or dropped. -/
theorem Shrinks.of_others (hcurrent : next.current = state.current)
    (hpending : ∀ pending, next.pending = some pending →
      ∃ old, state.pending = some old ∧ old.epoch = pending.epoch)
    (hprevious : ∀ previous, next.previous = some previous →
      ∃ old, state.previous = some old ∧ old.epoch = previous.epoch) : Shrinks state next where
  sound := by
    intro hsound
    refine ⟨?_, ?_, ?_⟩
    · apply hsound.exclusive.imp
      · intro hnone
        rw [Option.eq_none_iff_forall_ne_some]
        intro pending hsome
        obtain ⟨old, hold, -⟩ := hpending _ hsome
        simp [hnone] at hold
      · intro hnone
        rw [Option.eq_none_iff_forall_ne_some]
        intro previous hsome
        obtain ⟨old, hold, -⟩ := hprevious _ hsome
        simp [hnone] at hold
    · intro pending hsome
      obtain ⟨old, hold, hepoch⟩ := hpending _ hsome
      rw [hcurrent, ← hepoch]
      exact hsound.pending_ne _ hold
    · intro previous hsome
      obtain ⟨old, hold, hepoch⟩ := hprevious _ hsome
      rw [hcurrent, ← hepoch]
      exact hsound.previous_ne _ hold
  members := by
    intro epoch hepoch
    rw [mem_members] at hepoch ⊢
    rcases hepoch with rfl | ⟨pending, hsome, rfl⟩ | ⟨previous, hsome, rfl⟩
    · exact .inl hcurrent
    · exact .inr (.inl (hpending _ hsome))
    · exact .inr (.inr (hprevious _ hsome))

theorem dropPending_shrinks (state : SessionEpochState) :
    Shrinks state { state with pending := none } :=
  .of_others rfl (by simp) fun previous hsome => ⟨previous, hsome, rfl⟩

theorem purge_shrinks (state : SessionEpochState) (now : ℕ) :
    Shrinks state (state.purgeExpiredReceiveEpochs now) := by
  refine .of_others rfl ?_ ?_
  · intro pending hsome
    exact ⟨pending, (Option.filter_eq_some_iff.mp hsome).1, rfl⟩
  · intro previous hsome
    exact ⟨previous, (Option.filter_eq_some_iff.mp hsome).1, rfl⟩

variable {κ : Type} {env : Environment κ}

/-- Activation moves the staged epoch to the current place and the current one
out of the way. -/
theorem promote_shrinks {overlap : ℕ} {pending : ReceiveEpoch}
    (hpending : state.pending = some pending) (hprevious : state.previous = none) :
    Shrinks state (state.promote env overlap pending now).1 := by
  unfold promote
  cases env.instantAdd now overlap with
  | none =>
    refine ⟨fun hsound => ⟨.inl rfl, by simp, by simp [hprevious]⟩, ?_⟩
    intro epoch hepoch
    rw [mem_members] at hepoch ⊢
    rcases hepoch with rfl | ⟨other, hother, -⟩ | ⟨other, hother, -⟩
    · exact .inr (.inl ⟨pending, hpending, rfl⟩)
    · cases hother
    · simp [hprevious] at hother
  | some =>
    refine ⟨fun hsound => ⟨.inl rfl, by simp, ?_⟩, ?_⟩
    · intro previous hsome
      cases hsome
      exact (hsound.pending_ne _ hpending).symm
    · intro epoch hepoch
      rw [mem_members] at hepoch ⊢
      rcases hepoch with rfl | ⟨other, hother, -⟩ | ⟨other, hother, rfl⟩
      · exact .inr (.inl ⟨pending, hpending, rfl⟩)
      · cases hother
      · cases hother
        exact .inl rfl

theorem activatePending_shrinks (env : Environment κ)
    (state : SessionEpochState) (overlap : ℕ) (wireEpoch : Word 8) (now : ℕ) :
    Shrinks state (state.activatePending env overlap wireEpoch now).1 := by
  have hpurge := purge_shrinks state now
  unfold activatePending
  generalize state.purgeExpiredReceiveEpochs now = purged at hpurge ⊢
  dsimp only
  split
  · exact hpurge
  split
  · exact hpurge
  next hprevious =>
    have hnone : purged.previous = none := by simpa using hprevious
    cases hpending : purged.pending with
    | none => exact hpurge
    | some =>
      dsimp only
      split
      · exact hpurge
      split
      · exact hpurge.trans (dropPending_shrinks _)
      · exact hpurge.trans (promote_shrinks hpending hnone)

theorem abortRotation_shrinks (state : SessionEpochState) (token : Word 8)
    (now : ℕ) : Shrinks state (state.abortRotation token now).1 := by
  have hpurge := purge_shrinks state now
  unfold abortRotation
  dsimp only
  split
  · exact hpurge
  · exact hpurge.trans (dropPending_shrinks _)

theorem extendPending_shrinks (state : SessionEpochState) (token : Word 8) (now : ℕ)
    (timeout : Option ℕ) : Shrinks state (state.extendPending token now timeout).1 := by
  unfold extendPending
  split
  · exact .refl state
  · exact .refl state
  next pending timeout hpending =>
    dsimp only
    split
    · exact .refl state
    · refine .of_others rfl ?_ fun previous hsome => ⟨previous, hsome, rfl⟩
      rintro _ ⟨⟩
      exact ⟨pending, (Option.filter_eq_some_iff.mp hpending).1, rfl⟩

theorem reconcile_shrinks (state : SessionEpochState) (overlap : ℕ)
    (epoch : Word 8) (now completion : ℕ) :
    Shrinks state (state.reconcileAuthenticatedEpoch env overlap epoch now completion).1 := by
  have hpurge := purge_shrinks state now
  unfold reconcileAuthenticatedEpoch
  generalize state.purgeExpiredReceiveEpochs now = purged at hpurge ⊢
  dsimp only
  split
  · split
    · exact hpurge
    · exact hpurge.trans (dropPending_shrinks _)
  · have hactivate := hpurge.trans (activatePending_shrinks env _ overlap epoch now)
    cases hresult : purged.activatePending env overlap epoch now with
    | mk _ outcome =>
      rw [hresult] at hactivate
      cases outcome <;> exact hactivate

/-- The replacement is staged when there is no other epoch, and purging is all
that a refusal does. -/
theorem stage_spec (state : SessionEpochState) (replacement : DirectionalEpoch)
    (validUntil now : ℕ) :
    (state.Sound → (state.stage replacement validUntil now).1.Sound) ∧
      ∀ epoch ∈ (state.stage replacement validUntil now).1.members,
        epoch = replacement ∨ epoch ∈ state.members := by
  have hpurge := purge_shrinks state now
  have hrefused : (state.Sound → (state.purgeExpiredReceiveEpochs now).Sound) ∧
      ∀ epoch ∈ (state.purgeExpiredReceiveEpochs now).members,
        epoch = replacement ∨ epoch ∈ state.members :=
    ⟨hpurge.sound, fun epoch hepoch => .inr (hpurge.members _ hepoch)⟩
  unfold stage
  generalize state.purgeExpiredReceiveEpochs now = purged at hpurge hrefused ⊢
  dsimp only
  split
  · exact hrefused
  next hfree =>
    split
    · exact hrefused
    next hother =>
      rw [not_or] at hfree hother
      have hnone : purged.previous = none := by simpa using hfree.2
      refine ⟨fun hsound => ⟨.inr hnone, ?_, by simp [hnone]⟩, ?_⟩
      · rintro _ ⟨⟩
        exact hother.1
      · intro epoch hepoch
        rw [mem_members] at hepoch
        rcases hepoch with rfl | ⟨_, ⟨⟩, rfl⟩ | ⟨previous, hsome, -⟩
        · exact .inr (hpurge.members _ (mem_members.mpr (.inl rfl)))
        · exact .inl rfl
        · simp [hnone] at hsome

/-- The epoch that a frame is looked up under is held and valid. -/
inductive Receives (state : SessionEpochState) (wireEpoch : Word 8) (now : ℕ) : Prop
  | current (hepoch : state.current.epoch = wireEpoch)
      (hdeadline : now < state.current.hardAuthenticatedDeadline)
  | pending {pending : ReceiveEpoch} (hpending : state.pending = some pending)
      (hepoch : pending.epoch.epoch = wireEpoch) (hlive : pending.Live now)
  | previous {previous : ReceiveEpoch} (hprevious : state.previous = some previous)
      (hepoch : previous.epoch.epoch = wireEpoch) (hlive : previous.Live now)

/-- The place of an epoch in the session. -/
inductive Held (state : SessionEpochState) : DirectionalEpoch → ReceiveEpochKind → Prop
  | current : Held state state.current .current
  | pending {pending} (hpending : state.pending = some pending) : Held state pending.epoch .pending
  | previous {previous} (hprevious : state.previous = some previous) :
      Held state previous.epoch .previous

theorem Held.mem (hheld : Held state epoch kind) : epoch ∈ state.members := by
  rw [mem_members]
  cases hheld with
  | current => exact .inl rfl
  | pending hpending => exact .inr (.inl ⟨_, hpending, rfl⟩)
  | previous hprevious => exact .inr (.inr ⟨_, hprevious, rfl⟩)

/-- A frame is looked up under the epoch it names. -/
theorem findEpoch_eq_ok (hfind : state.findEpoch wireEpoch now = .ok (epoch, kind)) :
    Held state epoch kind ∧ epoch.epoch = wireEpoch ∧
      (kind = .current → now < epoch.hardAuthenticatedDeadline) := by
  unfold findEpoch at hfind
  split at hfind
  next hepoch =>
    split at hfind
    · cases hfind
    next hdeadline =>
      cases hfind
      exact ⟨.current, hepoch, fun _ => Nat.lt_of_not_le hdeadline⟩
  · cases hpending : state.pending.filter fun pending => pending.epoch.epoch = wireEpoch with
    | some pending =>
      rw [hpending] at hfind
      cases hfind
      obtain ⟨hsome, hepoch⟩ := Option.filter_eq_some_iff.mp hpending
      exact ⟨.pending hsome, of_decide_eq_true hepoch, nofun⟩
    | none =>
      rw [hpending] at hfind
      cases hprevious : state.previous.filter fun previous =>
          previous.epoch.epoch = wireEpoch with
      | none => simp [hprevious] at hfind
      | some previous =>
        rw [hprevious] at hfind
        cases hfind
        obtain ⟨hsome, hepoch⟩ := Option.filter_eq_some_iff.mp hprevious
        exact ⟨.previous hsome, of_decide_eq_true hepoch, nofun⟩

/-- After the purge, what is found is valid. -/
theorem receives_of_findEpoch
    (hfind : (state.purgeExpiredReceiveEpochs now).findEpoch wireEpoch now = .ok (epoch, kind)) :
    Receives state wireEpoch now := by
  obtain ⟨hheld, hepoch, hdeadline⟩ := findEpoch_eq_ok hfind
  cases hheld with
  | current => exact .current hepoch (hdeadline rfl)
  | pending hpending =>
    obtain ⟨hsome, hlive⟩ := Option.filter_eq_some_iff.mp hpending
    exact .pending hsome hepoch (of_decide_eq_true hlive)
  | previous hprevious =>
    obtain ⟨hsome, hlive⟩ := Option.filter_eq_some_iff.mp hprevious
    exact .previous hsome hepoch (of_decide_eq_true hlive)

/-- Using an epoch in place leaves the others as they are. -/
theorem put_spec {used : DirectionalEpoch} (hsound : state.Sound)
    (hheld : Held state epoch kind) (hsame : used.epoch = epoch.epoch) :
    (state.put used kind).Sound ∧
      ∀ other ∈ (state.put used kind).members,
        other = used ∨ (other ∈ state.members ∧ other.epoch ≠ epoch.epoch) := by
  cases hheld with
  | current =>
    refine ⟨⟨hsound.exclusive, ?_, ?_⟩, ?_⟩
    · intro pending hsome
      exact hsame.symm ▸ hsound.pending_ne _ hsome
    · intro previous hsome
      exact hsame.symm ▸ hsound.previous_ne _ hsome
    · intro other hother
      rw [mem_members] at hother
      rcases hother with rfl | ⟨pending, hsome, rfl⟩ | ⟨previous, hsome, rfl⟩
      · exact .inl rfl
      · exact .inr ⟨mem_members.mpr (.inr (.inl ⟨_, hsome, rfl⟩)), hsound.pending_ne _ hsome⟩
      · exact .inr ⟨mem_members.mpr (.inr (.inr ⟨_, hsome, rfl⟩)), hsound.previous_ne _ hsome⟩
  | @pending pending hpending =>
    have hnone : state.previous = none := hsound.exclusive.resolve_left (by simp [hpending])
    have hne := hsound.pending_ne _ hpending
    simp only [put, hpending]
    refine ⟨⟨.inr hnone, ?_, by simp [hnone]⟩, ?_⟩
    · rintro _ ⟨⟩
      exact hsame.symm ▸ hne
    · intro other hother
      rw [mem_members] at hother
      rcases hother with rfl | ⟨_, ⟨⟩, rfl⟩ | ⟨previous, hsome, -⟩
      · exact .inr ⟨mem_members.mpr (.inl rfl), hne.symm⟩
      · exact .inl rfl
      · simp [hnone] at hsome
  | @previous previous hprevious =>
    have hnone : state.pending = none := hsound.exclusive.resolve_right (by simp [hprevious])
    have hne := hsound.previous_ne _ hprevious
    simp only [put, hprevious]
    refine ⟨⟨.inl hnone, by simp [hnone], ?_⟩, ?_⟩
    · rintro _ ⟨⟩
      exact hsame.symm ▸ hne
    · intro other hother
      rw [mem_members] at hother
      rcases hother with rfl | ⟨pending, hsome, -⟩ | ⟨_, ⟨⟩, rfl⟩
      · exact .inr ⟨mem_members.mpr (.inl rfl), hne.symm⟩
      · simp [hnone] at hsome
      · exact .inl rfl

end SessionEpochState

end PacketCore.Redirect
