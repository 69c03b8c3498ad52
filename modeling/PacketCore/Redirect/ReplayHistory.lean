import PacketCore.Redirect.PeerSession

/-!
# What a replay window remembers

A window forgets sequence numbers that fell out of it, and still never accepts
one twice: what it forgot is too old to be accepted again.  `Tracks` relates a
window to the set of all numbers it ever accepted.  `Derives` is what one
operation can do to an epoch: at most one number more in the window, at most
one nonce more spent.
-/

namespace PacketCore.Redirect

namespace ReplayWindow

/-- The window after it has accepted exactly these numbers. -/
structure Tracks (window : ReplayWindow) (width : ℕ) (seen : Set ℕ) : Prop where
  width_eq : window.width = width
  le_highest : ∀ sequence ∈ seen, sequence ≤ window.highest
  highest_seen : window.highest = 0 ∨ window.highest ∈ seen
  accepted_iff : ∀ sequence,
    sequence ∈ window.accepted ↔ sequence ∈ seen ∧ window.highest - (width - 1) ≤ sequence

variable {window next : ReplayWindow} {width sequence : ℕ} {seen : Set ℕ}

theorem Tracks.new (width : NonZero 2) : (ReplayWindow.new width).Tracks width.1.val ∅ where
  width_eq := rfl
  le_highest := by simp
  highest_seen := .inl rfl
  accepted_iff := by simp [ReplayWindow.new]

theorem accept_eq_ok (hok : window.accept sequence = .ok next) :
    0 < sequence ∧
      ¬ (window.highest ≠ 0 ∧ sequence < window.highest ∧
        window.width ≤ window.highest - sequence) ∧
      sequence ∉ window.accepted ∧ next = window.advance sequence := by
  obtain ⟨hzero, hok⟩ := refuseIf_bind hok
  obtain ⟨hold, hok⟩ := refuseIf_bind hok
  obtain ⟨hseen, hok⟩ := refuseIf_bind hok
  cases hok
  exact ⟨Nat.pos_of_ne_zero hzero, hold, hseen, rfl⟩

section

variable (htracks : window.Tracks width seen)
include htracks

/-- A number that is accepted was never accepted before. -/
theorem Tracks.not_seen (hwidth : 0 < width)
    (haccept : window.accept sequence = .ok next) : sequence ∉ seen := by
  obtain ⟨_, hold, hfresh, -⟩ := accept_eq_ok haccept
  intro hseen
  have hwidthEq := htracks.width_eq
  -- A seen number that is no longer in the set is too old for the window.
  have hforgotten : sequence < window.highest - (width - 1) := by
    by_contra hrecent
    exact hfresh ((htracks.accepted_iff _).mpr ⟨hseen, by omega⟩)
  exact hold ⟨by omega, by omega, by omega⟩

theorem Tracks.accept
    (haccept : window.accept sequence = .ok next) : next.Tracks width (insert sequence seen) := by
  obtain ⟨_, -, -, rfl⟩ := accept_eq_ok haccept
  have hwidth := htracks.width_eq
  refine ⟨hwidth, ?_, ?_, ?_⟩
  · rintro other (rfl | hother)
    · exact le_max_right ..
    · exact (htracks.le_highest _ hother).trans (le_max_left ..)
  · change max window.highest sequence = 0 ∨ max window.highest sequence ∈ insert sequence seen
    rcases le_total _ sequence with hle | hle
    · rw [max_eq_right hle]
      exact .inr (Set.mem_insert ..)
    · rw [max_eq_left hle]
      exact htracks.highest_seen.imp_right (Set.mem_insert_of_mem _)
  · intro other
    simp only [advance, Finset.mem_filter, Finset.mem_insert, hwidth, htracks.accepted_iff]
    constructor
    · rintro ⟨rfl | ⟨hseen, -⟩, hrecent⟩
      · exact ⟨.inl rfl, hrecent⟩
      · exact ⟨.inr hseen, hrecent⟩
    · rintro ⟨rfl | hseen, hrecent⟩
      · exact ⟨.inl rfl, hrecent⟩
      · exact ⟨.inr ⟨hseen, by omega⟩, hrecent⟩

/-- A new number above the lower end of the window is accepted. -/
theorem Tracks.accepts (hpositive : 0 < sequence)
    (hfresh : sequence ∉ seen) (hrecent : ∀ other ∈ seen, other < sequence + width) :
    window.accept sequence = .ok (window.advance sequence) := by
  have hwidth := htracks.width_eq
  have hold : ¬ (window.highest ≠ 0 ∧ sequence < window.highest ∧
      window.width ≤ window.highest - sequence) := by
    rintro ⟨hhighest, _, _⟩
    have hmem := htracks.highest_seen.resolve_left hhighest
    have := hrecent _ hmem
    omega
  have hout : sequence ∉ window.accepted := fun hmem =>
    hfresh ((htracks.accepted_iff _).mp hmem).1
  unfold ReplayWindow.accept
  rw [refuseIf_of_not (by omega), ok_bind, refuseIf_of_not hold, ok_bind, refuseIf_of_not hout]
  rfl

theorem Tracks.congr {other : Set ℕ}
    (hsame : ∀ sequence, sequence ∈ other ↔ sequence ∈ seen) : window.Tracks width other := by
  rwa [Set.ext hsame]

end

end ReplayWindow

/-- An epoch and a sequence number of it. -/
abbrev Numbered := Word 8 × Word 8

/-- An epoch and a nonce spent under it. -/
abbrev Spent := Word 8 × List.Vector Byte 12

/-- What one operation can make of an epoch, when it lets `admitted` through a
window and hands `spent` to the cipher. -/
structure Derives (admitted : Option Numbered) (spent : Option Spent)
    (old new : DirectionalEpoch) : Prop where
  epoch_eq : new.epoch = old.epoch
  sendNoncePrefix_eq : new.sendNoncePrefix = old.sendNoncePrefix
  replay : ((∀ item, admitted = some item → item.1 ≠ old.epoch) ∧ new.replay = old.replay) ∨
    ∃ sequence, admitted = some (old.epoch, sequence) ∧
      old.replay.accept sequence.val = .ok new.replay
  counter_le : old.nextSendSequence ≤ new.nextSendSequence
  counter_lt : ∀ item, spent = some item → item.1 = old.epoch →
    old.nextSendSequence < new.nextSendSequence

variable {old : DirectionalEpoch} {fault : IngressRedirectError}
  {header : IngressRedirectFrameHeader}

namespace Derives

variable {admitted : Option Numbered} {spent : Option Spent} {epoch : DirectionalEpoch}

/-- An epoch that the operation has nothing to do with. -/
theorem untouched (hadmitted : ∀ item, admitted = some item → item.1 ≠ epoch.epoch)
    (hspent : ∀ item, spent = some item → item.1 ≠ epoch.epoch) :
    Derives admitted spent epoch epoch :=
  ⟨rfl, rfl, .inl ⟨hadmitted, rfl⟩, le_rfl, fun _ hitem heq => absurd heq (hspent _ hitem)⟩

theorem refl (epoch : DirectionalEpoch) : Derives none none epoch epoch :=
  untouched (by simp) (by simp)

/-- The usage counters are no part of the lineage. -/
theorem of_counters {new : DirectionalEpoch} (hepoch : new.epoch = old.epoch)
    (hnonce : new.sendNoncePrefix = old.sendNoncePrefix) (hreplay : new.replay = old.replay)
    (hnext : new.nextSendSequence = old.nextSendSequence) : Derives none none old new :=
  ⟨hepoch, hnonce, .inl ⟨by simp, hreplay⟩, hnext.ge, by simp⟩

end Derives

namespace DirectionalEpoch

open IngressRedirectSecurityMode

variable {κ : Type} {env : Environment κ} {mode : IngressRedirectSecurityMode}
  {epoch next : DirectionalEpoch}

/-- Two epochs that differ in their usage counters only. -/
def SameKeys (old new : DirectionalEpoch) : Prop :=
  new.epoch = old.epoch ∧ new.sendNoncePrefix = old.sendNoncePrefix ∧
    new.replay = old.replay ∧ new.nextSendSequence = old.nextSendSequence ∧
    new.hardAuthenticatedDeadline = old.hardAuthenticatedDeadline

theorem reserveNewAeadSeal_keys (hreserve : epoch.reserveNewAeadSeal mode = .ok next) :
    SameKeys epoch next := by
  unfold reserveNewAeadSeal at hreserve
  repeat' split at hreserve
  all_goals
    cases hreserve
    try exact ⟨rfl, rfl, rfl, rfl, rfl⟩

theorem reserveSuccessfulAeadOpen_keys
    (hreserve : epoch.reserveSuccessfulAeadOpen mode = .ok next) :
    SameKeys epoch next := by
  unfold reserveSuccessfulAeadOpen at hreserve
  repeat' split at hreserve
  all_goals
    cases hreserve
    try exact ⟨rfl, rfl, rfl, rfl, rfl⟩

theorem recordFailedAeadAuthentication_keys :
    SameKeys epoch (epoch.recordFailedAeadAuthentication mode) := by
  unfold recordFailedAeadAuthentication
  repeat' split
  all_goals exact ⟨rfl, rfl, rfl, rfl, rfl⟩

theorem SameKeys.derives {new : DirectionalEpoch} (hsame : SameKeys old new) :
    Derives none none old new :=
  .of_counters hsame.1 hsame.2.1 hsame.2.2.1 hsame.2.2.2.1

/-- What a frame leaves of the epoch it was opened under. -/
inductive Received (epoch : DirectionalEpoch) (sequence : ℕ) :
    DirectionalEpoch → Except IngressRedirectError (List Byte × List Byte) → Prop
  /-- Refused before the window, which is where replays are found. -/
  | refused {used fault} (hkeys : SameKeys epoch used) (hfault : fault ≠ .replayRejected) :
      Received epoch sequence used (.error fault)
  | replayed {used raised} (hkeys : SameKeys epoch used)
      (hwindow : epoch.replay.accept sequence = .error raised) :
      Received epoch sequence used (.error .replayRejected)
  | admitted {used window opened} (hkeys : SameKeys epoch used)
      (hwindow : epoch.replay.accept sequence = .ok window) :
      Received epoch sequence { used with replay := window } (.ok opened)

theorem refuseIf_error {test : Prop} [Decidable test] {raised : IngressRedirectError}
    (hfault : refuseIf test raised = .error fault)
    (hraised : raised ≠ .replayRejected) : fault ≠ .replayRejected :=
  (refuseIf_eq_error.mp hfault).2 ▸ hraised

theorem enforceAeadReceiveBudget_error
    (hbudget : epoch.enforceAeadReceiveBudget mode = .error fault) : fault ≠ .replayRejected := by
  cases mode with
  | hmacSha256 => cases hbudget
  | aes256Gcm =>
    rcases bind_eq_error hbudget with hfault | ⟨_, -, hfault⟩
    · exact refuseIf_error hfault (by decide)
    · exact refuseIf_error hfault (by decide)

theorem openFrame_error {datagram : List Byte}
    (hopen : epoch.openFrame env mode header datagram = .error fault) :
    fault ≠ .replayRejected := by
  rcases bind_eq_error hopen with hfault | ⟨_, -, hopen⟩
  · exact refuseIf_error hfault (by decide)
  rcases bind_eq_error hopen with hfault | ⟨_, -, hopen⟩
  · cases mode with
    | aes256Gcm =>
      rw [openBody, okOr_eq_error] at hfault
      rw [← hfault.2]
      decide
    | hmacSha256 =>
      unfold openBody at hfault
      dsimp only at hfault
      split at hfault
      · cases hfault
      · cases hfault
        decide
  rcases bind_eq_error hopen with hfault | ⟨_, -, hfault⟩
  · exact refuseIf_error hfault (by decide)
  · cases hfault

theorem checkSender_error {hopLimit : Word 1} {digest : List.Vector Byte 32}
    (hcheck : checkSender hopLimit digest header = .error fault) : fault ≠ .replayRejected := by
  rcases bind_eq_error hcheck with hfault | ⟨_, -, hfault⟩
  · exact refuseIf_error hfault (by decide)
  · exact refuseIf_error hfault (by decide)

theorem reserveSuccessfulAeadOpen_error
    (hreserve : epoch.reserveSuccessfulAeadOpen mode = .error fault) : fault ≠ .replayRejected := by
  unfold reserveSuccessfulAeadOpen at hreserve
  repeat' split at hreserve
  all_goals
    cases hreserve
    try decide

theorem receiveFrame_received (epoch : DirectionalEpoch) (env : Environment κ)
    (mode : IngressRedirectSecurityMode) (hopLimit : Word 1) (digest : List.Vector Byte 32)
    (header : IngressRedirectFrameHeader) (datagram : List Byte) :
    Received epoch header.sequence.val
      (epoch.receiveFrame env mode hopLimit digest header datagram).1
      (epoch.receiveFrame env mode hopLimit digest header datagram).2 := by
  have hself : SameKeys epoch epoch := ⟨rfl, rfl, rfl, rfl, rfl⟩
  unfold receiveFrame
  cases hbudget : epoch.enforceAeadReceiveBudget mode with
  | error => exact .refused hself (enforceAeadReceiveBudget_error hbudget)
  | ok =>
    cases hopen : epoch.openFrame env mode header datagram with
    | error fault =>
      have hkeys : SameKeys epoch (if fault = .authenticationFailed then
          epoch.recordFailedAeadAuthentication mode else epoch) := by
        split
        · exact recordFailedAeadAuthentication_keys
        · exact hself
      exact .refused hkeys (openFrame_error hopen)
    | ok =>
      cases hreserve : epoch.reserveSuccessfulAeadOpen mode with
      | error => exact .refused hself (reserveSuccessfulAeadOpen_error hreserve)
      | ok reserved =>
        have hkeys := reserveSuccessfulAeadOpen_keys hreserve
        cases hsender : checkSender hopLimit digest header with
        | error => exact .refused hkeys (checkSender_error hsender)
        | ok =>
          have hwindow : epoch.replay = reserved.replay := hkeys.2.2.1.symm
          dsimp only
          cases haccept : reserved.replay.accept header.sequence.val with
          | error => exact .replayed hkeys (by rw [hwindow]; exact haccept)
          | ok => exact .admitted hkeys (by rw [hwindow]; exact haccept)

end DirectionalEpoch

end PacketCore.Redirect
