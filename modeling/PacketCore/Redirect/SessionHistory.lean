import PacketCore.Redirect.SessionRuns

/-!
# Redirect frames are accepted once

When every bootstrap of a run brings a fresh epoch, each window stands for all
frames ever let through under its epoch's identifier, and each send counter for
all nonces ever spent under it.  A frame is accepted at most once and only
under a valid epoch, a new frame within the window is not refused as a replay,
an epoch that has left the session stays out, and no nonce is used twice under
one epoch.
-/

namespace PacketCore.Redirect

open SessionEpochState IngressRedirectPeerSession IngressRedirectFrameHeader List

variable {κ : Type} {env : Environment κ} {session : IngressRedirectPeerSession}

namespace IngressRedirectPeerSession

theorem openAt_profile (datagram : List Byte) (now : ℕ) :
    (session.openAt env datagram now).1.profile = session.profile := by
  have hreceive : (session.receive env datagram now).1.profile = session.profile := by
    unfold receive
    split
    · rfl
    split
    · rfl
    dsimp only
    split
    · rfl
    split <;> rfl
  unfold openAt
  cases hresult : session.receive env datagram now with
  | mk received outcome =>
    rw [hresult] at hreceive
    cases outcome with
    | error => exact hreceive
    | ok frame =>
      have hcut : (received.cutOver env frame.2.1 frame.1.epoch now).1.profile =
          received.profile := by
        cases frame.2.1 <;> rfl
      dsimp only
      cases hdone : received.cutOver env frame.2.1 frame.1.epoch now with
      | mk _ done =>
        rw [hdone] at hcut
        cases done <;> exact hcut.trans hreceive

theorem sealPrepared_profile (prepared : Except IngressRedirectError SealRequest) :
    (session.sealPrepared env prepared).1.profile = session.profile := by
  cases prepared with
  | error => rfl
  | ok request =>
    change (session.sealCurrent env request).1.profile = _
    rw [sealCurrent_session]
    unfold sealHeader
    split <;> rfl

theorem perform_profile (now : ℕ) (operation : Operation κ) :
    (session.perform env now operation).1.profile = session.profile := by
  cases operation with
  | stageRotation bootstrap =>
    change (session.stageRotationAt env bootstrap now).1.profile = _
    unfold stageRotationAt
    split <;> rfl
  | sealData | sealForwardedData | sealReceipt => exact sealPrepared_profile _
  | openAt => exact openAt_profile _ _
  | _ => rfl

end IngressRedirectPeerSession

/-- The sequence numbers that a log has for one epoch. -/
def seenUnder (admissions : List Numbered) (epoch : Word 8) : Set ℕ :=
  {number | ∃ sequence : Word 8, (epoch, sequence) ∈ admissions ∧ sequence.val = number}

variable {admissions : List Numbered} {epoch wireEpoch : Word 8} {item : Numbered}
  {new old : DirectionalEpoch} {fault : IngressRedirectError} {header : IngressRedirectFrameHeader}
  {overlap now : ℕ} {ownershipKey packet datagram : List Byte}
  {state : SessionEpochState} {offered : List (Word 8)} {expenses : List Spent}

theorem mem_seenUnder {sequence : Word 8} :
    sequence.val ∈ seenUnder admissions epoch ↔ (epoch, sequence) ∈ admissions := by
  constructor
  · rintro ⟨_, hmem, hval⟩
    rwa [← Fin.ext hval]
  · exact fun hmem => ⟨sequence, hmem, rfl⟩

/-- A session after these epochs were offered to it, these frames admitted and
these nonces spent. -/
structure Tracked (session : IngressRedirectPeerSession) (offered : List (Word 8))
    (admissions : List Numbered) (expenses : List Spent) : Prop where
  sound : session.epochs.Sound
  members_offered : ∀ epoch ∈ session.epochs.members, epoch.epoch ∈ offered
  admissions_offered : ∀ item ∈ admissions, item.1 ∈ offered
  expenses_offered : ∀ item ∈ expenses, item.1 ∈ offered
  windows : ∀ epoch ∈ session.epochs.members,
    epoch.replay.Tracks session.profile.1.replayWindow.1.val (seenUnder admissions epoch.epoch)
  counters : ∀ epoch ∈ session.epochs.members, ∀ nonce, (epoch.epoch, nonce) ∈ expenses →
    ∃ sequence < epoch.nextSendSequence, nonce = frameNonce epoch.sendNoncePrefix sequence
  admissions_nodup : admissions.Nodup
  expenses_nodup : expenses.Nodup

namespace Tracked

theorem start {bootstrap : IngressRedirectBootstrap}
    (hstart : fromBootstrap bootstrap = .ok session) :
    Tracked session [bootstrap.epoch] [] [] := by
  obtain ⟨_, -, hsession⟩ := bind_eq_ok hstart
  cases hsession
  refine ⟨⟨.inl rfl, nofun, nofun⟩, ?_, nofun, nofun, ?_, nofun, .nil, .nil⟩
  · exact forall_mem_singleton.mpr (mem_singleton_self _)
  · refine forall_mem_singleton.mpr ((ReplayWindow.Tracks.new _).congr ?_)
    simp [seenUnder]

section Step

variable {after : SessionEpochState} {staged : Option DirectionalEpoch}
  {admitted : Option Numbered} {spent : Option Spent}

theorem window_step (htracked : Tracked session offered admissions expenses)
    (hold : old ∈ session.epochs.members) (hderives : Derives admitted spent old new) :
    new.replay.Tracks session.profile.1.replayWindow.1.val
      (seenUnder (admissions ++ admitted.toList) new.epoch) := by
  have hwindow := htracked.windows _ hold
  rcases hderives.replay with ⟨hother, hsame⟩ | ⟨sequence, rfl, haccept⟩
  · rw [hsame, hderives.epoch_eq]
    refine hwindow.congr fun number => ?_
    constructor
    · rintro ⟨sequence, hmem, hval⟩
      refine ⟨sequence, ?_, hval⟩
      rcases mem_append.mp hmem with hmem | hmem
      · exact hmem
      · exact absurd rfl (hother _ (Option.mem_toList.mp hmem))
    · rintro ⟨sequence, hmem, hval⟩
      exact ⟨sequence, mem_append_left _ hmem, hval⟩
  · rw [hderives.epoch_eq]
    refine (hwindow.accept haccept).congr fun number => ?_
    constructor
    · rintro ⟨other, hmem, hval⟩
      rcases mem_append.mp hmem with hmem | hmem
      · exact .inr ⟨other, hmem, hval⟩
      · obtain rfl : other = sequence := by simpa using hmem
        exact .inl hval.symm
    · rintro (rfl | ⟨other, hmem, hval⟩)
      · exact ⟨sequence, by simp, rfl⟩
      · exact ⟨other, mem_append_left _ hmem, hval⟩

section

variable (htracked : Tracked session offered admissions expenses)
  (heffect : Effect session.epochs after staged admitted spent)
include htracked heffect

theorem counter_step (hold : old ∈ session.epochs.members)
    (hderives : Derives admitted spent old new) {nonce : List.Vector Byte 12}
    (hnonce : (new.epoch, nonce) ∈ expenses ++ spent.toList) :
    ∃ sequence < new.nextSendSequence, nonce = frameNonce new.sendNoncePrefix sequence := by
  rw [hderives.epoch_eq] at hnonce
  rw [hderives.sendNoncePrefix_eq]
  rcases mem_append.mp hnonce with hmem | hmem
  · obtain ⟨sequence, hless, hnonce⟩ := htracked.counters _ hold _ hmem
    exact ⟨sequence, hless.trans_le hderives.counter_le, hnonce⟩
  · have hspent := Option.mem_toList.mp hmem
    obtain ⟨owner, howner, hepoch, hnonce⟩ := heffect.spent _ hspent
    obtain rfl := htracked.sound.unique howner hold hepoch
    exact ⟨owner.nextSendSequence, hderives.counter_lt _ hspent rfl, hnonce⟩

/-- What is let through a window was not let through before. -/
theorem admitted_fresh (hitem : admitted = some item) : item ∉ admissions := by
  obtain ⟨old, hold, hepoch, _, haccept⟩ := heffect.admitted _ hitem
  intro hmem
  have hseen : item.2.val ∈ seenUnder admissions old.epoch := by
    rw [mem_seenUnder, hepoch]
    exact hmem
  exact (htracked.windows _ hold).not_seen session.profile.1.replayWindow.2 haccept hseen

/-- What is handed to the cipher was not handed to it before. -/
theorem spent_fresh {item : Spent} (hitem : spent = some item) : item ∉ expenses := by
  obtain ⟨old, hold, hepoch, hnonce⟩ := heffect.spent _ hitem
  intro hmem
  have hlogged : (old.epoch, item.2) ∈ expenses := by
    rw [hepoch]
    exact hmem
  obtain ⟨_, hless, hold⟩ := htracked.counters _ hold item.2 hlogged
  rw [hnonce] at hold
  exact absurd (frameNonce_injective hold) hless.ne'

/-- Whatever an operation logs is logged under an epoch that was offered. -/
theorem admitted_offered :
    (∀ item ∈ admissions ++ admitted.toList, item.1 ∈ offered) ∧
      ∀ item ∈ expenses ++ spent.toList, item.1 ∈ offered := by
  simp only [forall_mem_append, Option.mem_toList]
  refine ⟨⟨htracked.admissions_offered, ?_⟩, htracked.expenses_offered, ?_⟩
  · intro item hitem
    obtain ⟨old, hold, hepoch, -⟩ := heffect.admitted _ hitem
    exact hepoch ▸ htracked.members_offered _ hold
  · intro item hitem
    obtain ⟨old, hold, hepoch, -⟩ := heffect.spent _ hitem
    exact hepoch ▸ htracked.members_offered _ hold

end

theorem nodup_append_toList {α : Type} {log : List α} {entry : Option α} (hlog : log.Nodup)
    (hentry : ∀ item, entry = some item → item ∉ log) : (log ++ entry.toList).Nodup := by
  cases entry with
  | none => simpa using hlog
  | some =>
    rw [nodup_append]
    refine ⟨hlog, by simp, ?_⟩
    intro _ hleft _ hright
    rw [Option.toList_some, mem_singleton] at hright
    rintro rfl
    exact hentry _ rfl (hright ▸ hleft)

end Step

theorem perform (htracked : Tracked session offered admissions expenses)
    (env : Environment κ) (now : ℕ) (operation : Operation κ)
    (hfresh : ∀ epoch, operation.staged = some epoch → epoch ∉ offered) :
    Tracked (session.perform env now operation).1 (offered ++ operation.staged.toList)
      (admissions ++ (session.admitted env now operation).toList)
      (expenses ++ (session.spent env now operation).toList) := by
  have heffect := session.perform_effect env htracked.sound now operation
  obtain ⟨hadmissions, hexpenses⟩ := htracked.admitted_offered heffect
  have hstaged : ∀ new, session.replacement operation = some new →
      operation.staged = some new.epoch ∧ new.replay = .new session.profile.1.replayWindow := by
    intro new hnew
    cases operation with
    | stageRotation =>
      cases hnew
      exact ⟨rfl, rfl⟩
    | _ => cases hnew
  refine ⟨heffect.sound, ?_, ?_, ?_, ?_, ?_, ?_, ?_⟩
  · intro new hnew
    rcases heffect.members _ hnew with hnew | ⟨old, hold, hderives⟩
    · exact mem_append_right _ (Option.mem_toList.mpr (hstaged _ hnew).1)
    · rw [hderives.epoch_eq]
      exact mem_append_left _ (htracked.members_offered _ hold)
  · exact fun item hitem => mem_append_left _ (hadmissions _ hitem)
  · exact fun item hitem => mem_append_left _ (hexpenses _ hitem)
  · intro new hnew
    rw [perform_profile]
    rcases heffect.members _ hnew with hnew | ⟨old, hold, hderives⟩
    · obtain ⟨hepoch, hreplay⟩ := hstaged _ hnew
      rw [hreplay]
      refine (ReplayWindow.Tracks.new _).congr fun number => ?_
      simp only [Set.mem_empty_iff_false, iff_false]
      rintro ⟨_, hmem, -⟩
      exact hfresh _ hepoch (hadmissions _ hmem)
    · exact htracked.window_step hold hderives
  · intro new hnew _ hnonce
    rcases heffect.members _ hnew with hnew | ⟨old, hold, hderives⟩
    · exact absurd (hexpenses _ hnonce) (hfresh _ (hstaged _ hnew).1)
    · exact htracked.counter_step heffect hold hderives hnonce
  · exact nodup_append_toList htracked.admissions_nodup fun item =>
      htracked.admitted_fresh heffect
  · exact nodup_append_toList htracked.expenses_nodup fun item => htracked.spent_fresh heffect

/-- A whole run, when every epoch it offers is a fresh one. -/
theorem run (env : Environment κ) (operations : List (ℕ × Operation κ))
    (htracked : Tracked session offered admissions expenses)
    (hfresh : (offered ++ stagedEpochs operations).Nodup) :
    Tracked (session.run env operations) (offered ++ stagedEpochs operations)
      (admissions ++ session.admissions env operations)
      (expenses ++ session.expenses env operations) := by
  induction operations generalizing session offered admissions expenses with
  | nil =>
    simpa [IngressRedirectPeerSession.run, IngressRedirectPeerSession.admissions,
      IngressRedirectPeerSession.expenses, stagedEpochs] using htracked
  | cons step rest ih =>
    obtain ⟨now, operation⟩ := step
    have hsplit : stagedEpochs ((now, operation) :: rest) =
        operation.staged.toList ++ stagedEpochs rest := by
      unfold stagedEpochs
      rw [filterMap_cons]
      cases operation.staged <;> rfl
    rw [hsplit, ← append_assoc] at hfresh ⊢
    have hstep : ∀ epoch, operation.staged = some epoch → epoch ∉ offered := by
      intro epoch hepoch hmem
      have hpair := (nodup_append.mp (nodup_append.mp hfresh).1).2.2
      exact hpair _ hmem _ (by simp [hepoch]) rfl
    have hrest := ih (htracked.perform env now _ hstep) hfresh
    rw [append_assoc admissions, append_assoc expenses] at hrest
    exact hrest

end Tracked

namespace IngressRedirectPeerSession

theorem admitted_eq_some (hadmitted : session.admitted env now (.openAt datagram) = some item) :
    ∃ header rest, (session.receive env datagram now).2 = .ok (header, rest) ∧
      item = (header.epoch, header.sequence) := by
  unfold admitted at hadmitted
  dsimp only at hadmitted
  cases hreceive : (session.receive env datagram now).2 <;>
    rw [hreceive] at hadmitted <;> cases hadmitted
  exact ⟨_, _, rfl, rfl⟩

/-- A frame is let through under a valid epoch. -/
theorem receives_of_admitted (hadmitted : session.admitted env now (.openAt datagram) = some item) :
    session.epochs.Receives item.1 now := by
  obtain ⟨header, rest, hreceive, rfl⟩ := admitted_eq_some hadmitted
  have hreceipt := receive_receipt env session datagram now
  rw [hreceive] at hreceipt
  generalize (session.receive env datagram now).1.epochs = after at hreceipt
  generalize houtcome : Except.ok (header, rest) = outcome at hreceipt
  cases hreceipt with
  | unread | unknown => cases houtcome
  | received _ hfind hreceived =>
    cases hreceived with
    | refused | replayed => cases houtcome
    | admitted =>
      cases houtcome
      exact receives_of_findEpoch hfind

/-- A frame that is returned was let through a window. -/
theorem admitted_of_openAt {frame : AuthenticatedIngressRedirectFrame κ}
    (hopen : (session.openAt env datagram now).2 = .ok frame) :
    ∃ item, session.admitted env now (.openAt datagram) = some item := by
  unfold openAt at hopen
  unfold admitted
  cases hreceive : session.receive env datagram now with
  | mk _ outcome =>
    rw [hreceive] at hopen
    cases outcome with
    | error => cases hopen
    | ok parts =>
      dsimp only
      rw [hreceive]
      exact ⟨(parts.1.epoch, parts.1.sequence), rfl⟩

theorem activatePending_error
    (hactivate : (state.activatePending env overlap wireEpoch now).2 = .error fault) :
    fault ≠ .replayRejected := by
  unfold activatePending promote at hactivate
  dsimp only at hactivate
  repeat' split at hactivate
  all_goals
    cases hactivate
    try decide

theorem frame_error (hframe : frame env header ownershipKey packet = .error fault) :
    fault ≠ .replayRejected := by
  unfold frame at hframe
  repeat' split at hframe
  all_goals
    cases hframe
    try decide

/-- Replays are found by the window and nowhere else. -/
theorem receive_of_replayRejected
    (hopen : (session.openAt env datagram now).2 = .error .replayRejected) :
    (session.receive env datagram now).2 = .error .replayRejected := by
  unfold openAt at hopen
  cases hreceive : session.receive env datagram now with
  | mk received outcome =>
    rw [hreceive] at hopen
    cases outcome with
    | error =>
      cases hopen
      rfl
    | ok parts =>
      exfalso
      dsimp only at hopen
      cases hcut : received.cutOver env parts.2.1 parts.1.epoch now with
      | mk _ done =>
        rw [hcut] at hopen
        cases done with
        | ok => exact frame_error hopen rfl
        | error =>
          cases hopen
          cases hkind : parts.2.1 with
          | pending =>
            rw [hkind] at hcut
            exact activatePending_error (congrArg Prod.snd hcut) rfl
          | current | previous =>
            rw [hkind] at hcut
            cases hcut

/-- Activation of a staged epoch that is still valid fails only when the overlap
has no end on the clock. -/
theorem activatePending_of_pending {pending : ReceiveEpoch} (hsound : state.Sound)
    (hpending : state.pending = some pending) (hlive : pending.Live now)
    (hepoch : pending.epoch.epoch = wireEpoch)
    (hactivate : (state.activatePending env overlap wireEpoch now).2 = .error fault) :
    fault = .stateUnavailable := by
  subst hepoch
  have hprevious : state.previous = none := hsound.exclusive.resolve_left (by simp [hpending])
  have hcurrent : (state.purgeExpiredReceiveEpochs now).current.epoch ≠ pending.epoch.epoch :=
    (hsound.pending_ne _ hpending).symm
  have hkept : (state.purgeExpiredReceiveEpochs now).pending = some pending := by
    simp [purgeExpiredReceiveEpochs, hpending, hlive]
  have hnone : (state.purgeExpiredReceiveEpochs now).previous = none := by
    simp [purgeExpiredReceiveEpochs, hprevious]
  unfold activatePending at hactivate
  rw [if_neg hcurrent, hnone, hkept] at hactivate
  simp only [ne_eq, hlive] at hactivate
  unfold promote at hactivate
  cases hend : env.instantAdd now overlap <;> rw [hend] at hactivate <;> cases hactivate
  rfl

/-- A decoded header has what its kind of frame needs. -/
theorem frame_error_of_decode (hdecode : decode datagram = .ok header)
    (hframe : frame env header ownershipKey packet = .error fault) :
    fault = .invalidOwnershipKey := by
  obtain ⟨_, -, hvalid⟩ := bind_eq_ok (validate_of_decode hdecode)
  unfold frame at hframe
  cases hkind : header.kind with
  | data =>
    rw [hkind] at hframe
    dsimp only at hframe
    split at hframe
    · cases hframe
      rfl
    · cases hframe
  | receipt =>
    unfold validateKind at hvalid
    rw [hkind] at hframe hvalid
    obtain ⟨_, -, hvalid⟩ := bind_eq_ok hvalid
    obtain ⟨_, hcode, -⟩ := bind_eq_ok hvalid
    cases hreceipt : header.receiptCode with
    | none => simp [hreceipt] at hcode
    | some =>
      rw [hreceipt] at hframe
      cases hframe

/-- A frame that a window lets through is returned, unless its ownership key is
not canonical or the overlap has no end on the clock. -/
theorem openAt_of_admitted (hsound : session.epochs.Sound)
    (hadmitted : session.admitted env now (.openAt datagram) = some item)
    (hopen : (session.openAt env datagram now).2 = .error fault) :
    fault = .invalidOwnershipKey ∨ fault = .stateUnavailable := by
  obtain ⟨header, rest, hreceive, rfl⟩ := admitted_eq_some hadmitted
  have hreceipt := receive_receipt env session datagram now
  have hafter := (receive_effect env _ hsound datagram now).sound
  unfold openAt at hopen
  cases hresult : session.receive env datagram now with
  | mk received outcome =>
    rw [hresult] at hopen hreceive hreceipt hafter
    subst hreceive
    generalize hepochs : received.epochs = after at hreceipt
    generalize houtcome : Except.ok (header, rest) = outcome at hreceipt
    cases hreceipt with
    | unread | unknown => cases houtcome
    | @received other kind epoch _ _ hdecode hfind hreceived =>
      cases hreceived with
      | refused | replayed => cases houtcome
      | @admitted used window opened hkeys hwindow =>
        cases houtcome
        dsimp only at hopen
        obtain ⟨hheld, hepoch, -⟩ := findEpoch_eq_ok hfind
        cases hheld with
        | current | previous => exact .inl (frame_error_of_decode hdecode hopen)
        | @pending pending hpending =>
          obtain ⟨-, hlive⟩ := Option.filter_eq_some_iff.mp hpending
          obtain ⟨hsame, -, -, -, hdeadline⟩ := hkeys
          have hput : received.epochs.pending =
              some { pending with epoch := { used with replay := window } } := by
            rw [hepochs]
            simp [put, hpending]
          have hstill : ReceiveEpoch.Live
              { pending with epoch := { used with replay := window } } now := by
            have hlive : pending.Live now := of_decide_eq_true hlive
            exact ⟨hlive.1, hdeadline.symm ▸ hlive.2⟩
          cases hcut : received.cutOver env .pending header.epoch now with
          | mk _ done =>
            rw [hcut] at hopen
            cases done with
            | ok => exact .inl (frame_error_of_decode hdecode hopen)
            | error =>
              cases hopen
              exact .inr (activatePending_of_pending hafter hput hstill
                (hsame.trans hepoch) (congrArg Prod.snd hcut))

end IngressRedirectPeerSession

/-- A new frame within the window is not refused as a replay. -/
theorem Tracked.not_refused (htracked : Tracked session offered admissions expenses)
    (env : Environment κ) (hdecode : decode datagram = .ok header)
    (hfresh : (header.epoch, header.sequence) ∉ admissions)
    (hrecent : ∀ sequence, (header.epoch, sequence) ∈ admissions →
      sequence.val < header.sequence.val + session.profile.1.replayWindow.1.val) :
    (session.openAt env datagram now).2 ≠ .error .replayRejected := by
  intro hopen
  have hreceive := receive_of_replayRejected hopen
  have hreceipt := receive_receipt env session datagram now
  rw [hreceive] at hreceipt
  generalize (session.receive env datagram now).1.epochs = after at hreceipt
  generalize houtcome : Except.error IngressRedirectError.replayRejected = outcome at hreceipt
  cases hreceipt with
  | unread hfault | unknown hfault =>
    cases houtcome
    exact hfault rfl
  | @received other kind epoch used outcome hother hfind hreceived =>
    obtain rfl : other = header := Except.ok.inj (hother.symm.trans hdecode)
    obtain ⟨hheld, hepoch, -⟩ := findEpoch_eq_ok hfind
    have hmember := (purge_shrinks _ _).members _ hheld.mem
    have hwindow := htracked.windows _ hmember
    rw [hepoch] at hwindow
    have hseen : other.sequence.val ∉ seenUnder admissions other.epoch := by
      rwa [mem_seenUnder]
    have haccept := hwindow.accepts
      (sequence_pos_of_decode hdecode) hseen (by
        rintro _ ⟨sequence, hmem, rfl⟩
        exact hrecent _ hmem)
    cases hreceived with
    | refused _ hfault =>
      cases houtcome
      exact hfault rfl
    | replayed _ hrefused =>
      rw [hrefused] at haccept
      cases haccept
    | admitted => cases houtcome

namespace IngressRedirectPeerSession

theorem run_append (env : Environment κ) (session : IngressRedirectPeerSession)
    (earlier later : List (ℕ × Operation κ)) :
    session.run env (earlier ++ later) = (session.run env earlier).run env later := by
  induction earlier generalizing session with
  | nil => rfl
  | cons _ _ ih => exact ih _

end IngressRedirectPeerSession

theorem stagedEpochs_append (earlier later : List (ℕ × Operation κ)) :
    stagedEpochs (earlier ++ later) = stagedEpochs earlier ++ stagedEpochs later :=
  filterMap_append

/-- An epoch comes into a session by an offer and in no other way. -/
theorem identifiers_run (env : Environment κ) (hsound : session.epochs.Sound)
    (operations : List (ℕ × Operation κ)) :
    ∀ epoch ∈ (session.run env operations).epochs.identifiers,
      epoch ∈ session.epochs.identifiers ∨ epoch ∈ stagedEpochs operations := by
  induction operations generalizing session with
  | nil => exact fun epoch hepoch => .inl hepoch
  | cons step _ ih =>
    obtain ⟨now, operation⟩ := step
    have heffect := session.perform_effect env hsound now operation
    intro epoch hepoch
    rcases ih heffect.sound _ hepoch with hepoch | hepoch
    · obtain ⟨_, hnew, rfl⟩ := mem_map.mp hepoch
      rcases heffect.members _ hnew with hstaged | ⟨_, hold, hderives⟩
      · cases operation with
        | stageRotation =>
          cases hstaged
          exact .inr (mem_cons_self ..)
        | _ => cases hstaged
      · rw [hderives.epoch_eq]
        exact .inl (mem_map_of_mem hold)
    · right
      unfold stagedEpochs at hepoch ⊢
      rw [filterMap_cons]
      split
      · exact hepoch
      · exact mem_cons_of_mem _ hepoch

namespace IngressRedirectPeerSession

/-- The width of the replay windows does not change along a run. -/
theorem run_profile (env : Environment κ) (session : IngressRedirectPeerSession)
    (operations : List (ℕ × Operation κ)) :
    (session.run env operations).profile = session.profile := by
  induction operations generalizing session with
  | nil => rfl
  | cons step _ ih => exact (ih _).trans (perform_profile step.1 step.2)

/-- An epoch that has left the session stays out of it. -/
theorem left_for_good (env : Environment κ) {earlier middle later : List (ℕ × Operation κ)}
    (htracked : Tracked session offered [] [])
    (hfresh : (offered ++ stagedEpochs (earlier ++ middle ++ later)).Nodup)
    (hheld : epoch ∈ (session.run env earlier).epochs.identifiers)
    (hleft : epoch ∉ (session.run env (earlier ++ middle)).epochs.identifiers) :
    epoch ∉ (session.run env (earlier ++ middle ++ later)).epochs.identifiers := by
  rw [stagedEpochs_append, ← append_assoc] at hfresh
  obtain ⟨hbefore, -, hapart⟩ := nodup_append.mp hfresh
  have hreached := htracked.run env _ hbefore
  -- The epoch was held at some point, so it was offered before `later` begins.
  have hoffered : epoch ∈ offered ++ stagedEpochs (earlier ++ middle) := by
    rw [stagedEpochs_append, ← append_assoc] at hbefore ⊢
    obtain ⟨_, hmember, rfl⟩ := mem_map.mp hheld
    have hfirst := htracked.run env _ (nodup_append.mp hbefore).1
    exact mem_append_left _ (hfirst.members_offered _ hmember)
  intro hagain
  rw [run_append] at hagain
  rcases identifiers_run _ hreached.sound _ _ hagain with hagain | hagain
  · exact hleft hagain
  · exact hapart _ hoffered _ hagain rfl

/-- In every run whose bootstraps bring fresh epochs: no frame passes a replay
window twice; only a frame that passes is returned; it passes under a current,
staged or previous epoch that is valid at that instant, and is then returned
unless its ownership key is not canonical or the overlap has no end on the
clock; a staged and a previous epoch never stand side by side; an epoch that has
left the session stays out of it; a number above the lower end of the window
that has not passed is not refused as a replay; no nonce is spent twice under
one epoch; and a nonce counts as spent when AES-GCM is called with it: what is
sealed is a ciphertext under the spent nonce and the current key, and no
operation depends on the cipher under another nonce. -/
theorem frames_accepted_once (env : Environment κ) {bootstrap : IngressRedirectBootstrap}
    {session reached : IngressRedirectPeerSession} {operations : List (ℕ × Operation κ)}
    (hstart : fromBootstrap bootstrap = .ok session)
    (hrun : session.run env operations = reached)
    (hfresh : (bootstrap.epoch :: stagedEpochs operations).Nodup) :
    (session.admissions env operations).Nodup ∧
    (∀ now datagram frame, (reached.openAt env datagram now).2 = .ok frame →
      ∃ item, reached.admitted env now (.openAt datagram) = some item) ∧
    (∀ now datagram item, reached.admitted env now (.openAt datagram) = some item →
      reached.epochs.Receives item.1 now ∧
      ∀ fault, (reached.openAt env datagram now).2 = .error fault →
        fault = .invalidOwnershipKey ∨ fault = .stateUnavailable) ∧
    (reached.epochs.pending = none ∨ reached.epochs.previous = none) ∧
    (∀ earlier middle later, operations = earlier ++ middle ++ later →
      ∀ epoch ∈ (session.run env earlier).epochs.identifiers,
        epoch ∉ (session.run env (earlier ++ middle)).epochs.identifiers →
        epoch ∉ reached.epochs.identifiers) ∧
    (∀ now datagram header, decode datagram = .ok header →
      (header.epoch, header.sequence) ∉ session.admissions env operations →
      (∀ sequence, (header.epoch, sequence) ∈ session.admissions env operations →
        sequence.val < header.sequence.val + session.profile.1.replayWindow.1.val) →
      (reached.openAt env datagram now).2 ≠ .error .replayRejected) ∧
    (session.expenses env operations).Nodup ∧
    (∀ now operation frame, reached.mode = .aes256Gcm →
      (reached.perform env now operation).2 = .sealed frame →
      ∃ nonce, reached.spent env now operation = some (frame.epoch, nonce) ∧
        ∃ authenticated packet ciphertext,
          env.encrypt reached.epochs.current.sendKey nonce authenticated packet =
            some ciphertext ∧
          frame.bytes = authenticated ++ ciphertext) ∧
    ∀ now operation encrypt,
      (∀ item, reached.spent env now operation = some item →
        ∀ key, encrypt key item.2 = env.encrypt key item.2) →
      reached.perform { env with encrypt } now operation = reached.perform env now operation := by
  subst hrun
  have hbegin := Tracked.start hstart
  have hreached := hbegin.run env _ hfresh
  refine ⟨hreached.admissions_nodup, fun now datagram frame => admitted_of_openAt, ?_,
    hreached.sound.exclusive, ?_, ?_, hreached.expenses_nodup, ?_, fun _ _ _ => perform_congr⟩
  · intro now datagram item hadmitted
    exact ⟨receives_of_admitted hadmitted,
      fun fault => openAt_of_admitted hreached.sound hadmitted⟩
  · rintro earlier middle later rfl epoch hheld hleft
    exact left_for_good _ hbegin hfresh hheld hleft
  · intro now datagram header hdecode hnew hrecent
    rw [← run_profile] at hrecent
    exact hreached.not_refused _ hdecode hnew hrecent
  · intro now operation frame hmode hsealed
    obtain ⟨prepared, hrequest, hseal⟩ := perform_sealed hsealed
    obtain ⟨nonce, hspent, hencrypts⟩ := sealPrepared_encrypts hmode hseal
    refine ⟨nonce, ?_, hencrypts⟩
    rw [spent, hrequest]
    exact hspent

section Sample

/-- Ciphers that protect nothing, and one ownership key. -/
def sampleEnvironment : Environment Unit :=
  { encrypt := fun _ _ _ packet => some (packet ++ replicate 16 0)
    decrypt := fun _ _ _ body => some (body.take (body.length - 16))
    hmacSha2256 := fun _ _ => List.Vector.replicate 32 0
    toCanonicalBytes := fun _ => [7]
    fromCanonicalBytes := fun bytes => if bytes = [7] then some () else none
    routingDomain := fun _ => 3
    lastInstant := seconds 1000000 }

def sampleProfile : IngressRedirectProfile :=
  ⟨{ securityMode := .aes256Gcm
     steeringPathMtu := ⟨1500, by decide⟩
     hopLimit := ⟨4, by decide⟩
     replayWindow := ⟨2, by decide⟩
     rotationOverlap := seconds 60
     queuePackets := 1024
     queueBytes := 16777216
     receiptCacheEntries := 65536
     receiptTimeout := 250000000
     maxRetries := 2
     maximumAuthenticationAge := seconds 900 }, by decide +kernel⟩

def sampleBootstrap (epoch : Word 8) : IngressRedirectBootstrap :=
  { profile := sampleProfile
    localOwner := "a", peerOwner := "b"
    localSenderDigest := List.Vector.replicate 32 1
    peerSenderDigest := List.Vector.replicate 32 2
    routingDomains := [3]
    localUdpEndpoint := .v4 1 1000, peerUdpEndpoint := .v4 2 1000
    epoch
    sendKey := List.Vector.replicate 32 0, receiveKey := List.Vector.replicate 32 0
    sendNoncePrefix := List.Vector.replicate 4 0, receiveNoncePrefix := List.Vector.replicate 4 0
    hardAuthenticatedDeadline := seconds 900 }

/-- A one-octet packet of the peer. -/
def sampleFrame (epoch sequence : Word 8) : List Byte :=
  let header : IngressRedirectFrameHeader :=
    { kind := .data, securityMode := .aes256Gcm, hopCount := 1, hopLimit := 4, receiptCode := none
      epoch, sequence, ownershipGeneration := 1
      senderDigest := List.Vector.replicate 32 2, ownershipKeyLen := 1, packetLen := 1
      acknowledgedEpoch := 0, acknowledgedSequence := 0 }
  header.encode ++ [7] ++ [9] ++ replicate 16 0

def sampleSession : IngressRedirectPeerSession :=
  { sampleBootstrap 1 with
    epochs :=
      { current := epochFromBootstrap sampleProfile (sampleBootstrap 1)
        previous := none, pending := none } }

/-- A frame, its replay, a rotation that the peer's first frame completes, and a
late frame under the previous epoch; two frames are sealed in between. -/
def sampleRun : List (ℕ × Operation Unit) :=
  [(0, .openAt (sampleFrame 1 5)), (1, .openAt (sampleFrame 1 5)),
    (2, .sealReceipt 1 5 .delivered), (3, .stageRotation (sampleBootstrap 2)),
    (4, .openAt (sampleFrame 2 1)), (5, .openAt (sampleFrame 1 4)),
    (6, .sealReceipt 2 1 .delivered), (7, .openAt (sampleFrame 1 5))]

theorem fromBootstrap_sample : fromBootstrap (sampleBootstrap 1) = .ok sampleSession := by
  unfold fromBootstrap canonicalRoutingDomains sampleBootstrap
  simp [refuseIf]
  rfl

theorem frames_accepted_once_sample :
    sampleSession.admissions sampleEnvironment sampleRun = [(1, 5), (2, 1), (1, 4)] ∧
      (sampleSession.expenses sampleEnvironment sampleRun).length = 2 ∧
      (sampleSession.expenses sampleEnvironment sampleRun).Nodup ∧
      ((sampleSession.run sampleEnvironment sampleRun).epochs.pending = none ∨
        (sampleSession.run sampleEnvironment sampleRun).epochs.previous = none) := by
  have honce := @frames_accepted_once Unit sampleEnvironment (sampleBootstrap 1) sampleSession _
    sampleRun fromBootstrap_sample rfl (by decide)
  exact ⟨by decide +kernel, by decide +kernel, honce.2.2.2.2.2.2.1, honce.2.2.2.1⟩

end Sample

end IngressRedirectPeerSession

end PacketCore.Redirect
