import PacketCore.Mirror.Standby

/-!
# Custody over whole runs

Frames reach the standby late, repeated or reordered.  While an association
stays in custody its generation only advances, and the counters of one
generation only grow.  The holder keeps nothing about an association it gave
up, so across a withdraw or a takeover the same holds for as far as the installs
that start a new custody carry newer generations or later counters.
-/

namespace PacketCore.Mirror

open InMemoryStandbyHolder

/-- What may reach the holder. -/
inductive Frame
  | install (install : SaMirrorInstall)
  | checkpoint (checkpoint : SaCounterCheckpoint)
  | withdraw (sa : SaId) (epoch : KeyEpoch)
  | takeForRepin (sa : SaId) (params : RepinTakeoverParams)

namespace InMemoryStandbyHolder

/-- The holder after a frame; a refused one changes nothing. -/
def serve (holder : InMemoryStandbyHolder) : Frame → InMemoryStandbyHolder
  | .install install => ((holder.install install).toOption).getD holder
  | .checkpoint checkpoint => ((holder.checkpoint checkpoint).toOption).getD holder
  | .withdraw sa epoch => holder.withdraw sa epoch
  | .takeForRepin sa params => ((holder.takeForRepin sa params).toOption.map Prod.fst).getD holder

def run (holder : InMemoryStandbyHolder) (frames : List Frame) : InMemoryStandbyHolder :=
  frames.foldl serve holder

def held (holder : InMemoryStandbyHolder) (sa : SaId) : Option HeldSa :=
  holder.entries.find sa

end InMemoryStandbyHolder

/-- A later entry of the same SA: a newer generation, or the same keys with
counters that are not lower. -/
structure HeldSa.Later (first last : HeldSa) : Prop where
  epoch : first.epoch ≤ last.epoch
  counters : first.epoch = last.epoch → first.keymat = last.keymat ∧
    first.sendIvNext ≤ last.sendIvNext ∧ first.replayHighestAccepted ≤ last.replayHighestAccepted

/-- The entry has a newer generation, or this one with counters at or above
these. -/
def HeldSa.Reaches (entry : HeldSa) (epoch : KeyEpoch) (sendIvNext replay : ℕ) : Prop :=
  epoch ≤ entry.epoch ∧ (epoch = entry.epoch →
    sendIvNext ≤ entry.sendIvNext.val ∧ replay ≤ entry.replayHighestAccepted.val)

theorem HeldSa.Later.reaches {entry next : HeldSa} {epoch : KeyEpoch} {sendIvNext replay : ℕ}
    (hlater : entry.Later next) (hreaches : entry.Reaches epoch sendIvNext replay) :
    next.Reaches epoch sendIvNext replay := by
  obtain ⟨hnewer, hcounters⟩ := hreaches
  refine ⟨hnewer.trans hlater.epoch, fun hsame => ?_⟩
  have hentry : epoch = entry.epoch := le_antisymm hnewer (hsame ▸ hlater.epoch)
  obtain ⟨hsend, hreplay⟩ := hcounters hentry
  obtain ⟨_, hsend', hreplay'⟩ := hlater.counters (hentry ▸ hsame)
  exact ⟨hsend.trans hsend', hreplay.trans hreplay'⟩

theorem HeldSa.later_merge (entry : HeldSa) (sendIvNext replay : Fin (2 ^ 64)) :
    entry.Later (entry.merge sendIvNext replay) :=
  ⟨le_rfl, fun _ => ⟨rfl, le_max_left _ _, le_max_left _ _⟩⟩

/-- The entry that an install brings along. -/
def SaMirrorInstall.entry (install : SaMirrorInstall) : HeldSa :=
  ⟨install.epoch, install.keymat, install.sendIvNext, install.replayHighestAccepted⟩

variable {install : SaMirrorInstall} {next : InMemoryStandbyHolder}
  {frames : List Frame} {starts : SaMirrorInstall → Prop}

theorem later_of_admission {entry next : HeldSa}
    (hok : admission (some entry) install = .ok next) : entry.Later next := by
  obtain ⟨hstale, hok⟩ := refuseIf_bind hok
  rw [not_lt] at hstale
  split at hok
  · obtain ⟨_, _, hok⟩ := bind_eq_ok hok
    cases hok
    exact entry.later_merge _ _
  · next hnewer =>
    cases hok
    exact ⟨hstale, fun hsame => absurd hsame.symm hnewer⟩

/-- What one frame can do to the custody of one SA. -/
inductive Moves (holder : InMemoryStandbyHolder) (frame : Frame) (sa : SaId) :
    Option HeldSa → Option HeldSa → Prop
  | same (entry : Option HeldSa) : Moves holder frame sa entry entry
  | removed (entry : HeldSa) : Moves holder frame sa (some entry) none
  | advanced {entry next : HeldSa} (hlater : entry.Later next) :
      Moves holder frame sa (some entry) (some next)
  | started {install : SaMirrorInstall} {next : InMemoryStandbyHolder}
      (hframe : frame = .install install) (hsa : install.sa = sa)
      (haccepted : holder.install install = .ok next) :
      Moves holder frame sa none (some install.entry)

section Steps

variable {holder : InMemoryStandbyHolder}

theorem held_insert {entries : Table SaId HeldSa} {sa other : SaId} {entry : HeldSa} :
    ({ holder with entries := entries.insert sa entry } : InMemoryStandbyHolder).held other =
      if other = sa then some entry else entries.find other := rfl

theorem moves_install (haccepted : holder.install install = .ok next) (sa : SaId) :
    Moves holder (.install install) sa (holder.held sa) (next.held sa) := by
  have hinstall := haccepted
  iterate 2 obtain ⟨_, _, hinstall⟩ := bind_eq_ok hinstall
  obtain ⟨_, hadmission, hinstall⟩ := bind_eq_ok hinstall
  cases hinstall
  rw [held_insert]
  split
  · next hsa =>
    subst hsa
    unfold held
    cases hheld : holder.entries.find install.sa with
    | none =>
      rw [hheld] at hadmission
      cases hadmission
      exact .started rfl rfl haccepted
    | some =>
      rw [hheld] at hadmission
      exact .advanced (later_of_admission hadmission)
  · exact .same _

theorem moves_checkpoint {checkpoint : SaCounterCheckpoint}
    (hok : holder.checkpoint checkpoint = .ok next) (sa : SaId) :
    Moves holder (.checkpoint checkpoint) sa (holder.held sa) (next.held sa) := by
  obtain ⟨_, _, hok⟩ := bind_eq_ok hok
  obtain ⟨entry, hheld, hok⟩ := okOr_bind hok
  iterate 2 obtain ⟨_, _, hok⟩ := bind_eq_ok hok
  cases hok
  rw [held_insert]
  split
  · next hsa =>
    subst hsa
    rw [held, hheld]
    exact .advanced (entry.later_merge _ _)
  · exact .same _

/-- Giving up one SA leaves the others alone. -/
theorem moves_erase (frame : Frame) (given sa : SaId) :
    Moves holder frame sa (holder.held sa)
      (({ holder with
        entries := holder.entries.erase given } : InMemoryStandbyHolder).held sa) := by
  change Moves holder frame sa (holder.held sa) (if sa = given then none else holder.held sa)
  split
  · cases holder.held sa with
    | none => exact .same none
    | some entry => exact .removed entry
  · exact .same _

theorem moves_serve (holder : InMemoryStandbyHolder) (frame : Frame) (sa : SaId) :
    Moves holder frame sa (holder.held sa) ((holder.serve frame).held sa) := by
  cases frame with
  | install install =>
    cases hinstall : holder.install install with
    | error =>
      rw [serve, hinstall]
      exact .same _
    | ok =>
      rw [serve, hinstall]
      exact moves_install hinstall sa
  | checkpoint checkpoint =>
    cases hcheckpoint : holder.checkpoint checkpoint with
    | error =>
      rw [serve, hcheckpoint]
      exact .same _
    | ok =>
      rw [serve, hcheckpoint]
      exact moves_checkpoint hcheckpoint sa
  | withdraw given =>
    simp only [serve, withdraw]
    split
    · split
      · exact moves_erase _ given sa
      · exact .same _
    · exact .same _
  | takeForRepin given params =>
    cases htake : holder.takeForRepin given params with
    | error =>
      rw [serve, htake]
      exact .same _
    | ok =>
      rw [serve, htake]
      iterate 3 obtain ⟨_, _, htake⟩ := bind_eq_ok htake
      cases htake
      exact moves_erase _ given sa

end Steps

section Runs

variable {holder : InMemoryStandbyHolder} {sa : SaId}

/-- Every install that starts a new custody of the SA along the run is one that
`starts` accepts. -/
def Renews (starts : SaMirrorInstall → Prop) (sa : SaId) : InMemoryStandbyHolder → List Frame → Prop
  | _, [] => True
  | holder, frame :: rest =>
    (∀ install next, frame = .install install → install.sa = sa →
      holder.held sa = none → holder.install install = .ok next → starts install) ∧
    Renews starts sa (holder.serve frame) rest

/-- What later entries inherit and new custodies begin with holds of the entry
at the end of the run. -/
theorem run_held {Holds : HeldSa → Prop}
    (hlater : ∀ entry next, entry.Later next → Holds entry → Holds next)
    (hstarts : ∀ install, starts install → Holds install.entry)
    (hholder : ∀ entry, holder.held sa = some entry → Holds entry)
    (hrenews : Renews starts sa holder frames) :
    ∀ entry, (holder.run frames).held sa = some entry → Holds entry := by
  induction frames generalizing holder with
  | nil => exact hholder
  | cons frame _ ih =>
    obtain ⟨hfirst, hrest⟩ := hrenews
    apply ih _ hrest
    intro entry hentry
    have hmoves := moves_serve holder frame sa
    rw [hentry] at hmoves
    generalize hbefore : holder.held sa = before at hmoves
    cases hmoves with
    | same => exact hholder entry hbefore
    | advanced hnext => exact hlater _ _ hnext (hholder _ hbefore)
    | started hframe hsa haccepted =>
      exact hstarts _ (hfirst _ _ hframe hsa hbefore haccepted)

/-- While the SA stays in custody nothing starts anew. -/
theorem renews_of_held (hheld : ∀ served, served <+: frames → (holder.run served).held sa ≠ none) :
    Renews starts sa holder frames := by
  induction frames generalizing holder with
  | nil => trivial
  | cons frame _ ih =>
    refine ⟨fun _ _ _ _ hnone _ => absurd hnone (hheld [] (List.nil_prefix)), ih ?_⟩
    intro served hserved
    exact hheld (frame :: served) (List.cons_prefix_cons.2 ⟨rfl, hserved⟩)

/-- What a takeover took, and what it left. -/
theorem takeForRepin_eq_ok {params : RepinTakeoverParams} {taken : LiveMirroredTakeover}
    (hok : holder.takeForRepin sa params = .ok (next, taken)) :
    ∃ entry, holder.held sa = some entry ∧ next.held sa = none ∧
      taken.epoch = entry.epoch ∧ taken.resume.restoredSendIvNext =
        entry.sendIvNext.val + params.forwardJump.forwardJump.val := by
  obtain ⟨entry, hentry, hok⟩ := okOr_bind hok
  obtain ⟨_, hrestored, hok⟩ := okOr_bind hok
  obtain ⟨_, _, hok⟩ := bind_eq_ok hok
  cases hok
  refine ⟨entry, hentry, ?_, rfl, checkedAdd_eq_some hrestored⟩
  change (holder.entries.erase sa).find sa = none
  rw [Table.find_erase, if_pos rfl]

end Runs

/-- Custody advances.  From a moment when the SA is held with entry `first` to a
later one when it is held with entry `last`, the generation did not decrease and
the counters of one generation did not either, if the SA was held throughout or
every custody started in between has a newer generation, or the same one with
counters at or above those of `first`.  A second takeover is not under an older
generation and does not return lower counters under the same one, if every
custody started after the first has a newer generation or a counter that with
the second forward jump is at or above what the first takeover restored. -/
theorem custody_advances (capacity : ℕ) (hcapacity : 0 < capacity)
    (history frames : List Frame) (sa : SaId) :
    (∀ first last, ((withCapacity capacity hcapacity).run history).held sa = some first →
      (((withCapacity capacity hcapacity).run history).run frames).held sa = some last →
      ((∀ served, served <+: frames →
          (((withCapacity capacity hcapacity).run history).run served).held sa ≠ none) ∨
        Renews (fun install => first.epoch < install.epoch ∨
            install.epoch = first.epoch ∧ first.sendIvNext ≤ install.sendIvNext ∧
            first.replayHighestAccepted ≤ install.replayHighestAccepted) sa
          ((withCapacity capacity hcapacity).run history) frames) →
      first.epoch ≤ last.epoch ∧
        (first.epoch = last.epoch → first.sendIvNext ≤ last.sendIvNext ∧
          first.replayHighestAccepted ≤ last.replayHighestAccepted)) ∧
    ∀ params params' between final taken taken',
      ((withCapacity capacity hcapacity).run history).takeForRepin sa params =
        .ok (between, taken) →
      (between.run frames).takeForRepin sa params' = .ok (final, taken') →
      Renews (fun install => taken.epoch < install.epoch ∨
        install.epoch = taken.epoch ∧ taken.resume.restoredSendIvNext ≤
          install.sendIvNext.val + params'.forwardJump.forwardJump.val) sa between frames →
      taken.epoch ≤ taken'.epoch ∧ (taken.epoch = taken'.epoch →
        taken.resume.restoredSendIvNext ≤ taken'.resume.restoredSendIvNext) := by
  constructor
  · intro first last hfirst hlast hbetween
    have hrenews := hbetween.elim renews_of_held id
    have habove : last.Reaches first.epoch first.sendIvNext.val
        first.replayHighestAccepted.val := by
      refine run_held (fun _ _ => HeldSa.Later.reaches) ?_ ?_ hrenews last hlast
      · rintro install (hnewer | ⟨hsame, hcounters⟩)
        · exact ⟨hnewer.le, fun hsame => absurd hsame hnewer.ne⟩
        · exact ⟨hsame.ge, fun _ => hcounters⟩
      · intro entry hentry
        cases hfirst.symm.trans hentry
        exact ⟨le_rfl, fun _ => ⟨le_rfl, le_rfl⟩⟩
    exact habove
  · intro params params' between final taken taken' htake htake' hrenews
    obtain ⟨_, _, hgone, _, _⟩ := takeForRepin_eq_ok htake
    obtain ⟨last, hlast, _, hepoch, _⟩ := takeForRepin_eq_ok htake'
    have habove : last.Reaches taken.epoch
        (taken.resume.restoredSendIvNext - params'.forwardJump.forwardJump.val) 0 := by
      refine run_held (fun _ _ => HeldSa.Later.reaches) ?_ ?_ hrenews last hlast
      · rintro install (hnewer | ⟨hsame, hcounter⟩)
        · exact ⟨hnewer.le, fun hsame => absurd hsame hnewer.ne⟩
        · exact ⟨hsame.ge, fun _ => ⟨Nat.sub_le_of_le_add hcounter, Nat.zero_le _⟩⟩
      · intro entry hentry
        rw [hgone] at hentry
        cases hentry
    rw [hepoch]
    refine ⟨habove.1, fun hsame => ?_⟩
    obtain ⟨hlow, _⟩ := habove.2 hsame
    omega

section Samples

def sampleSa : SaId := .ike 9

def sampleKeymat (key : Byte) : MirroredSaKeymat :=
  ⟨⟨1, one_ne_zero⟩, ⟨[key], List.cons_ne_nil key []⟩⟩

def sampleInstall (epoch : KeyEpoch) (key : Byte) (sendIvNext : Fin (2 ^ 64)) : Frame :=
  .install ⟨sampleSa, epoch, sampleKeymat key, sendIvNext, 0⟩

def firstEpoch : KeyEpoch := ⟨1, one_ne_zero⟩

def secondEpoch : KeyEpoch := ⟨2, fun h => absurd h (by decide)⟩

def sampleParams : RepinTakeoverParams := ⟨⟨2 ^ 30, .ikeAeadExplicitIv64⟩, 8⟩

def emptyHolder : InMemoryStandbyHolder := withCapacity 4 (Nat.succ_pos 3)

/-- A withdrawn SA that is installed again under its generation, and two
takeovers of one generation whose second install carries a later counter. -/
theorem custody_advances_sample :
    (∃ first last,
      (emptyHolder.run [sampleInstall firstEpoch 1 5]).held sampleSa = some first ∧
      ((emptyHolder.run [sampleInstall firstEpoch 1 5]).run
        [.withdraw sampleSa firstEpoch, sampleInstall firstEpoch 1 6]).held sampleSa = some last ∧
      first.sendIvNext ≤ last.sendIvNext) ∧
    ∃ between final taken taken',
      (emptyHolder.run [sampleInstall firstEpoch 1 500]).takeForRepin sampleSa sampleParams =
        .ok (between, taken) ∧
      (between.run [sampleInstall firstEpoch 1 600]).takeForRepin sampleSa sampleParams =
        .ok (final, taken') ∧
      taken.resume.restoredSendIvNext ≤ taken'.resume.restoredSendIvNext := by
  constructor
  · have hadvances := (custody_advances 4 (by decide) [sampleInstall firstEpoch 1 5]
      [.withdraw sampleSa firstEpoch, sampleInstall firstEpoch 1 6] sampleSa).1
      ⟨firstEpoch, sampleKeymat 1, 5, 0⟩ ⟨firstEpoch, sampleKeymat 1, 6, 0⟩ rfl rfl
    refine ⟨_, _, rfl, rfl, ((hadvances (.inr ⟨?_, ?_, trivial⟩)).2 rfl).1⟩
    · rintro install next hframe - - -
      cases hframe
    · rintro install next hframe - - -
      cases hframe
      exact .inr ⟨rfl, by decide⟩
  · have hadvances := (custody_advances 4 (by decide) [sampleInstall firstEpoch 1 500]
      [sampleInstall firstEpoch 1 600] sampleSa).2 sampleParams sampleParams
      _ _ _ _ rfl rfl
    refine ⟨_, _, _, _, rfl, rfl, (hadvances ⟨?_, trivial⟩).2 rfl⟩
    rintro install next hframe - - -
    cases hframe
    exact .inr ⟨rfl, by decide⟩

/-- After a withdraw a late install brings a superseded generation back, and
after a takeover a repeated install rewinds the counters of its generation. -/
theorem custody_rolls_back :
    ((emptyHolder.run [sampleInstall firstEpoch 1 5, sampleInstall secondEpoch 2 5]).held
        sampleSa).map HeldSa.epoch = some secondEpoch ∧
      ((emptyHolder.run [sampleInstall firstEpoch 1 5, sampleInstall secondEpoch 2 5,
        .withdraw sampleSa secondEpoch, sampleInstall firstEpoch 1 5]).held sampleSa).map
          HeldSa.epoch = some firstEpoch ∧
      (((emptyHolder.run [sampleInstall firstEpoch 1 500]).takeForRepin sampleSa
        sampleParams).toOption.map fun taken => taken.2.resume.restoredSendIvNext) =
          some (500 + 2 ^ 30) ∧
      (((emptyHolder.run [sampleInstall firstEpoch 1 500, .takeForRepin sampleSa sampleParams,
        sampleInstall firstEpoch 1 5]).takeForRepin sampleSa sampleParams).toOption.map
          fun taken => taken.2.resume.restoredSendIvNext) = some (5 + 2 ^ 30) := by
  decide +kernel

end Samples

/-- The entry of an SA after a checkpoint, which counts for its own generation only. -/
def HeldSa.checkpointed (sa : SaId) (entry : HeldSa) (checkpoint : SaCounterCheckpoint) : HeldSa :=
  if checkpoint.validate = .ok () ∧ checkpoint.sa = sa ∧ checkpoint.epoch = entry.epoch then
    entry.merge checkpoint.sendIvNext checkpoint.replayHighestAccepted
  else entry

theorem held_serve_checkpoint (holder : InMemoryStandbyHolder) (checkpoint : SaCounterCheckpoint)
    (sa : SaId) : (holder.serve (.checkpoint checkpoint)).held sa =
      (holder.held sa).map (·.checkpointed sa checkpoint) := by
  unfold HeldSa.checkpointed
  cases hcheckpoint : holder.checkpoint checkpoint with
  | error =>
    rw [serve, hcheckpoint]
    change holder.held sa = _
    cases hheld : holder.held sa with
    | none => rfl
    | some entry =>
      rw [Option.map_some, if_neg]
      rintro ⟨hvalid, rfl, hepoch⟩
      rw [held] at hheld
      simp [InMemoryStandbyHolder.checkpoint, hvalid, hheld, hepoch, okOr, refuseIf] at hcheckpoint
  | ok =>
    rw [serve, hcheckpoint]
    obtain ⟨_, hvalid, hcheckpoint⟩ := bind_eq_ok hcheckpoint
    obtain ⟨entry, hheld, hcheckpoint⟩ := okOr_bind hcheckpoint
    obtain ⟨hstale, hcheckpoint⟩ := refuseIf_bind hcheckpoint
    obtain ⟨hunknown, hcheckpoint⟩ := refuseIf_bind hcheckpoint
    cases hcheckpoint
    have hepoch := le_antisymm (not_lt.mp hunknown) (not_lt.mp hstale)
    by_cases hsa : checkpoint.sa = sa
    · subst hsa
      simp [Except.toOption, held, hheld, hvalid, hepoch]
    · simp [Except.toOption, held, Table.find_insert, hsa, Ne.symm hsa]

/-- Standbys that start alike and receive the same checkpoints hold the same
entries, in whatever order and however often these arrive. -/
theorem checkpoints_converge (holder : InMemoryStandbyHolder)
    {left right : List SaCounterCheckpoint}
    (hsame : ∀ item, item ∈ left ↔ item ∈ right) (sa : SaId) :
    (holder.run (left.map .checkpoint)).held sa = (holder.run (right.map .checkpoint)).held sa := by
  have hrun : ∀ (checkpoints : List SaCounterCheckpoint) (holder : InMemoryStandbyHolder),
      (holder.run (checkpoints.map .checkpoint)).held sa =
        (holder.held sa).map fun entry => checkpoints.foldl (HeldSa.checkpointed sa) entry := by
    intro checkpoints
    induction checkpoints with
    | nil => simp [InMemoryStandbyHolder.run]
    | cons checkpoint _ ih =>
      intro holder
      refine (ih _).trans ?_
      rw [held_serve_checkpoint, Option.map_map]
      rfl
  rw [hrun, hrun]
  congr 1
  funext entry
  -- counters are merged by taking the larger one
  refine foldl_eq_of_mem_iff ?_ ?_ hsame entry
  · intro entry first second
    unfold HeldSa.checkpointed
    split_ifs <;> simp_all [HeldSa.merge, max_right_comm]
  · intro entry checkpoint
    unfold HeldSa.checkpointed
    split_ifs <;> simp_all [HeldSa.merge]

/-- Both orders reach the larger counter of either checkpoint; one under another
generation leaves no trace. -/
theorem checkpoints_converge_sample :
    let holder := emptyHolder.run [sampleInstall firstEpoch 1 5]
    let first : SaCounterCheckpoint := ⟨sampleSa, firstEpoch, 9, 3⟩
    let second : SaCounterCheckpoint := ⟨sampleSa, firstEpoch, 7, 4⟩
    let other : SaCounterCheckpoint := ⟨sampleSa, secondEpoch, 99, 99⟩
    (holder.run ([first, second, other].map .checkpoint)).held sampleSa =
        (holder.run ([other, second, first, first].map .checkpoint)).held sampleSa ∧
      (holder.run ([first, second, other].map .checkpoint)).held sampleSa =
        some ⟨firstEpoch, sampleKeymat 1, 9, 4⟩ :=
  ⟨checkpoints_converge _ (by simp; tauto) _, rfl⟩

end PacketCore.Mirror
