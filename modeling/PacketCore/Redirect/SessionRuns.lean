import PacketCore.Redirect.SessionEpochs

/-!
# Runs of a redirect session

The control operations, the sealing of frames and the opening of received ones,
in any order.  Along a run the session is compared with three logs: the epochs
it was given, the frames its windows let through, and the nonces it handed to
the cipher.
-/

namespace PacketCore.Redirect

inductive Operation (κ : Type)
  | stageRotation (bootstrap : IngressRedirectBootstrap)
  | activateRotation (token : Word 8)
  | abortRotation (token : Word 8)
  | retainPending (token : Word 8)
  | reconcile (epoch : Word 8) (completion : ℕ)
  | rotationStatus
  | receiveEpochValidUntil (wireEpoch : Word 8)
  | sealData (packet : List Byte) (ownershipKey : κ)
      (ownershipGeneration : NonZero 8) (requiredValidUntil : ℕ)
  | sealForwardedData (prior : AuthenticatedIngressRedirectData κ)
      (ownershipGeneration : NonZero 8) (requiredValidUntil : ℕ)
  | sealReceipt (acknowledgedEpoch acknowledgedSequence : Word 8)
      (code : IngressRedirectReceiptCode)
  | openAt (datagram : List Byte)

structure IngressRedirectRotationStatus where
  current : Word 8
  pendingReceive : Option (Word 8)
  previousReceive : Option (Word 8)
  pendingLifetimeRemaining : ℕ

inductive Response (κ : Type)
  | refused (fault : IngressRedirectError)
  | done
  | epoch (epoch : Word 8)
  | validUntil (instant : ℕ)
  | status (status : IngressRedirectRotationStatus)
  | sealed (frame : SealedIngressRedirectFrame)
  | opened (frame : AuthenticatedIngressRedirectFrame κ)

def rotationStatus (state : SessionEpochState) (now : ℕ) : IngressRedirectRotationStatus :=
  { current := state.current.epoch
    pendingReceive := state.pending.map (·.epoch.epoch)
    previousReceive := state.previous.map (·.epoch.epoch)
    pendingLifetimeRemaining := (state.pending.map (·.validUntil - now)).getD 0 }

/-- The response to a result. -/
def answer {κ α : Type} (result : IngressRedirectPeerSession × Except IngressRedirectError α)
    (response : α → Response κ) : IngressRedirectPeerSession × Response κ :=
  (result.1, result.2.casesOn .refused response)

variable {κ : Type}

theorem answer_eq {α : Type} {result : IngressRedirectPeerSession × Except IngressRedirectError α}
    {response : α → Response κ} {given : Response κ} (hanswer : (answer result response).2 = given)
    (haccepted : ∀ fault, given ≠ .refused fault) :
    ∃ value, result.2 = .ok value ∧ response value = given := by
  rcases result with ⟨_, fault | value⟩
  · exact absurd hanswer.symm (haccepted fault)
  · exact ⟨value, rfl, hanswer⟩

/-- What an operation asks to be sealed, when it does. -/
def Operation.sealRequest (env : Environment κ) (session : IngressRedirectPeerSession) (now : ℕ) :
    Operation κ → Option (Except IngressRedirectError SealRequest)
  | .sealData packet key generation required =>
    some (session.prepareData env packet key generation required now)
  | .sealForwardedData prior generation required =>
    some (session.prepareForwardedData env prior generation required now)
  | .sealReceipt epoch sequence code => some (session.prepareReceipt epoch sequence code now)
  | _ => none

/-- The epoch that an operation offers. -/
def Operation.staged : Operation κ → Option (Word 8)
  | .stageRotation bootstrap => some bootstrap.epoch
  | _ => none

namespace IngressRedirectPeerSession

section Steps

variable (env : Environment κ) (session : IngressRedirectPeerSession)

/-- Seal a request whose checks have passed. -/
def sealPrepared (request : Except IngressRedirectError SealRequest) :
    IngressRedirectPeerSession × Except IngressRedirectError SealedIngressRedirectFrame :=
  match request with
  | .error fault => (session, .error fault)
  | .ok request => session.sealCurrent env request

/-- One operation at one reading of the clock. -/
def perform (now : ℕ) : Operation κ → IngressRedirectPeerSession × Response κ
  | .stageRotation bootstrap => answer (session.stageRotationAt env bootstrap now) .epoch
  | .activateRotation token => answer (session.activateRotationAt env token now) .epoch
  | .abortRotation token =>
    answer (session.withEpochs (session.epochs.abortRotation token now)) fun _ => .done
  | .retainPending token =>
    answer (session.withEpochs (session.epochs.retainPendingForReconciliation env token now))
      fun _ => .done
  | .reconcile epoch completion =>
    answer (session.withEpochs
      (session.epochs.reconcileAuthenticatedEpoch env session.overlap epoch now completion)) .epoch
  | .rotationStatus =>
    ({ session with epochs := session.epochs.purgeExpiredReceiveEpochs now },
      .status (rotationStatus (session.epochs.purgeExpiredReceiveEpochs now) now))
  | .receiveEpochValidUntil wireEpoch =>
    answer (session.withEpochs (session.epochs.receiveEpochValidUntil wireEpoch now)) .validUntil
  | .sealData packet key generation required =>
    answer (session.sealPrepared env (session.prepareData env packet key generation required now))
      .sealed
  | .sealForwardedData prior generation required =>
    answer (session.sealPrepared env
      (session.prepareForwardedData env prior generation required now)) .sealed
  | .sealReceipt epoch sequence code =>
    answer (session.sealPrepared env (session.prepareReceipt epoch sequence code now)) .sealed
  | .openAt datagram => answer (session.openAt env datagram now) .opened

/-- The frame that an operation lets through a replay window. -/
def admitted (now : ℕ) : Operation κ → Option Numbered
  | .openAt datagram =>
    match (session.receive env datagram now).2 with
    | .ok (header, _) => some (header.epoch, header.sequence)
    | .error _ => none
  | _ => none

/-- The nonce that a prepared request hands to AES-GCM. -/
def spentBy (prepared : Except IngressRedirectError SealRequest) : Option Spent :=
  match prepared, session.mode with
  | .ok request, .aes256Gcm =>
    match session.sealHeader request with
    | (next, .ok header) =>
      some (next.epochs.current.epoch,
        frameNonce next.epochs.current.sendNoncePrefix header.sequence)
    | (_, .error _) => none
  | _, _ => none

/-- The nonce that an operation hands to AES-GCM. -/
def spent (now : ℕ) (operation : Operation κ) : Option Spent :=
  (operation.sealRequest env session now).bind session.spentBy

end Steps

variable (env : Environment κ)

/-- Operations one after the other, each at its own reading of the clock. -/
def run : IngressRedirectPeerSession → List (ℕ × Operation κ) → IngressRedirectPeerSession
  | session, [] => session
  | session, (now, operation) :: rest => run (session.perform env now operation).1 rest

/-- The frames that a run lets through the windows. -/
def admissions : IngressRedirectPeerSession → List (ℕ × Operation κ) → List Numbered
  | _, [] => []
  | session, (now, operation) :: rest =>
    (session.admitted env now operation).toList ++
      admissions (session.perform env now operation).1 rest

/-- The nonces that a run hands to AES-GCM. -/
def expenses : IngressRedirectPeerSession → List (ℕ × Operation κ) → List Spent
  | _, [] => []
  | session, (now, operation) :: rest =>
    (session.spent env now operation).toList ++ expenses (session.perform env now operation).1 rest

end IngressRedirectPeerSession

/-- The epochs that the operations of a run offer. -/
def stagedEpochs (operations : List (ℕ × Operation κ)) : List (Word 8) :=
  operations.filterMap fun operation => operation.2.staged

open SessionEpochState

/-- What one operation does to the epochs of a session. -/
structure Effect (before after : SessionEpochState) (staged : Option DirectionalEpoch)
    (admitted : Option Numbered) (spent : Option Spent) : Prop where
  sound : after.Sound
  members : ∀ new ∈ after.members,
    staged = some new ∨ ∃ old ∈ before.members, Derives admitted spent old new
  admitted : ∀ item, admitted = some item → ∃ old ∈ before.members, old.epoch = item.1 ∧
    ∃ window, old.replay.accept item.2.val = .ok window
  spent : ∀ item, spent = some item → ∃ old ∈ before.members, old.epoch = item.1 ∧
    item.2 = frameNonce old.sendNoncePrefix old.nextSendSequence

variable {state : SessionEpochState} {now : ℕ}
  {prepared : Except IngressRedirectError SealRequest} {request : SealRequest}

section Effects

variable {before middle after : SessionEpochState} {staged : Option DirectionalEpoch}
  {admitted : Option Numbered} {spent : Option Spent}

theorem SessionEpochState.Shrinks.effect (hshrinks : Shrinks before after)
    (hsound : before.Sound) : Effect before after none none none where
  sound := hshrinks.sound hsound
  members := fun new hnew => .inr ⟨new, hshrinks.members _ hnew, .refl new⟩
  admitted := by simp
  spent := by simp

theorem Effect.shrinks (heffect : Effect before middle staged admitted spent)
    (hshrinks : Shrinks middle after) : Effect before after staged admitted spent :=
  { heffect with
    sound := hshrinks.sound heffect.sound
    members := fun _ hnew => heffect.members _ (hshrinks.members _ hnew) }

theorem Effect.after_shrinks (hshrinks : Shrinks before middle)
    (heffect : Effect middle after staged admitted spent) :
    Effect before after staged admitted spent where
  sound := heffect.sound
  members := by
    intro _ hnew
    apply (heffect.members _ hnew).imp_right
    exact .imp fun old => .imp_left (hshrinks.members old)
  admitted := by
    intro _ hitem
    exact (heffect.admitted _ hitem).imp fun old => .imp_left (hshrinks.members old)
  spent := by
    intro _ hitem
    exact (heffect.spent _ hitem).imp fun old => .imp_left (hshrinks.members old)

/-- One epoch is used in place, and the logs name no other. -/
theorem Effect.put {kind : ReceiveEpochKind} {epoch used : DirectionalEpoch}
    (hsound : state.Sound) (hheld : Held state epoch kind)
    (hderives : Derives admitted spent epoch used)
    (hadmitted : ∀ item, admitted = some item → item.1 = epoch.epoch)
    (hspent : ∀ item, spent = some item → item.1 = epoch.epoch ∧
      item.2 = frameNonce epoch.sendNoncePrefix epoch.nextSendSequence) :
    Effect state (state.put used kind) none admitted spent := by
  obtain ⟨hnext, hmembers⟩ := put_spec hsound hheld hderives.epoch_eq
  have hepoch := hheld.mem
  refine ⟨hnext, ?_, ?_, ?_⟩
  · intro new hnew
    rcases hmembers _ hnew with rfl | ⟨hold, hother⟩
    · exact .inr ⟨epoch, hepoch, hderives⟩
    · refine .inr ⟨new, hold, .untouched ?_ ?_⟩
      · exact fun item hitem heq => hother (heq ▸ hadmitted _ hitem)
      · exact fun item hitem heq => hother (heq ▸ (hspent _ hitem).1)
  · intro item hitem
    refine ⟨epoch, hepoch, (hadmitted _ hitem).symm, ?_⟩
    rcases hderives.replay with ⟨hnone, -⟩ | ⟨_, hsome, haccept⟩
    · exact absurd (hadmitted _ hitem) (hnone _ hitem)
    · rw [hsome] at hitem
      cases hitem
      exact ⟨_, haccept⟩
  · intro item hitem
    exact ⟨epoch, hepoch, (hspent _ hitem).1.symm, (hspent _ hitem).2⟩

end Effects

/-- What is sealed takes the next sequence number. -/
theorem reserveSeal_spec (mode : IngressRedirectSecurityMode) (epoch : DirectionalEpoch) :
    (∀ sequence, (epoch.reserveSeal mode).2 = .ok sequence →
        sequence = epoch.nextSendSequence ∧ ∀ spent : Option Spent,
          Derives none spent epoch (epoch.reserveSeal mode).1) ∧
      Derives none none epoch (epoch.reserveSeal mode).1 := by
  unfold DirectionalEpoch.reserveSeal
  cases hreserve : epoch.reserveNewAeadSeal mode with
  | error => exact ⟨nofun, .refl epoch⟩
  | ok reserved =>
    have hkeys := DirectionalEpoch.reserveNewAeadSeal_keys hreserve
    obtain ⟨hepoch, hnonce, hreplay, hcounter, -⟩ := hkeys
    unfold nextSequence
    by_cases hroom : reserved.nextSendSequence.val + 1 < 256 ^ 8
    · have hless : epoch.nextSendSequence < ⟨reserved.nextSendSequence.val + 1, hroom⟩ := by
        rw [← hcounter]
        exact Nat.lt_succ_self _
      have hderives (spent : Option Spent) : Derives none spent epoch
          { reserved with nextSendSequence := ⟨reserved.nextSendSequence.val + 1, hroom⟩ } :=
        ⟨hepoch, hnonce, .inl ⟨by simp, hreplay⟩, hless.le, fun _ _ _ => hless⟩
      simp only [dif_pos hroom]
      refine ⟨?_, hderives _⟩
      rintro sequence ⟨⟩
      exact ⟨hcounter, hderives⟩
    · simp only [dif_neg hroom]
      exact ⟨nofun, .of_counters hepoch hnonce hreplay hcounter⟩

theorem DirectionalEpoch.sendKey_reserveSeal (mode : IngressRedirectSecurityMode)
    (epoch : DirectionalEpoch) : (epoch.reserveSeal mode).1.sendKey = epoch.sendKey := by
  unfold DirectionalEpoch.reserveSeal DirectionalEpoch.reserveNewAeadSeal reserveAeadUsage
    nextSequence
  grind

/-- The header carries the sequence number it is given. -/
def SealRequest.Faithful (request : SealRequest) : Prop :=
  ∀ epoch sequence header, request.header epoch sequence = .ok header → header.sequence = sequence

namespace IngressRedirectPeerSession

variable {env : Environment κ} {session : IngressRedirectPeerSession} {operation : Operation κ}
  {encrypt : List.Vector Byte 32 → List.Vector Byte 12 → List Byte → List Byte →
    Option (List Byte)}

theorem prepareDataWithGeneration_faithful {packet key : List Byte}
    {generation : Word 8} {hopCount : Word 1} {required : ℕ}
    (hprepare : session.prepareDataWithGeneration packet key generation hopCount required now =
      .ok request) : request.Faithful := by
  iterate 4 obtain ⟨_, -, hprepare⟩ := bind_eq_ok hprepare
  cases hprepare
  intro _ _ _ hheader
  obtain ⟨_, -, hheader⟩ := bind_eq_ok hheader
  cases hheader
  rfl

theorem sealRequest_faithful
    (hrequest : operation.sealRequest env session now = some (.ok request)) : request.Faithful := by
  cases operation with
  | sealData | sealForwardedData =>
    have hprepare := Option.some.inj hrequest
    iterate 4 obtain ⟨_, -, hprepare⟩ := bind_eq_ok hprepare
    exact prepareDataWithGeneration_faithful hprepare
  | sealReceipt epoch sequence =>
    have hprepare := Option.some.inj hrequest
    obtain ⟨_, -, hprepare⟩ := bind_eq_ok hprepare
    cases hprepare
    intro epoch sequence _ hheader
    obtain ⟨_, -, hheader⟩ := bind_eq_ok hheader
    cases hheader
    rfl
  | _ => cases hrequest

theorem sealHeader_epochs (request : SealRequest) :
    (session.sealHeader request).1.epochs =
      session.epochs.put (session.epochs.current.reserveSeal session.mode).1 .current := by
  unfold sealHeader
  cases session.epochs.current.reserveSeal session.mode with
  | mk _ outcome => cases outcome <;> rfl

/-- A header is written for the number that was reserved. -/
theorem sealHeader_eq_ok {header : IngressRedirectFrameHeader}
    (hheader : (session.sealHeader request).2 = .ok header) :
    ∃ epoch sequence, (session.epochs.current.reserveSeal session.mode).2 = .ok sequence ∧
      request.header epoch sequence = .ok header := by
  unfold sealHeader at hheader
  cases hreserve : session.epochs.current.reserveSeal session.mode with
  | mk used outcome =>
    rw [hreserve] at hheader
    cases outcome with
    | error => cases hheader
    | ok sequence => exact ⟨used.epoch, sequence, rfl, mapError_eq_ok.mp hheader⟩

theorem sealCurrent_session (request : SealRequest) :
    (session.sealCurrent env request).1 = (session.sealHeader request).1 := by
  unfold sealCurrent
  cases session.sealHeader request with
  | mk _ outcome => cases outcome <;> rfl

theorem spentBy_eq_some {item : Spent} (hspent : session.spentBy prepared = some item) :
    ∃ request header, prepared = .ok request ∧ (session.sealHeader request).2 = .ok header ∧
      item = ((session.sealHeader request).1.epochs.current.epoch,
        frameNonce (session.sealHeader request).1.epochs.current.sendNoncePrefix
          header.sequence) := by
  unfold spentBy at hspent
  split at hspent
  next request _ =>
    cases hheader : session.sealHeader request with
    | mk _ outcome =>
      rw [hheader] at hspent
      cases outcome with
      | error => cases hspent
      | ok header =>
        cases hspent
        exact ⟨request, header, rfl, by rw [hheader], by rw [hheader]⟩
  · cases hspent

theorem sealPrepared_effect (hsound : session.epochs.Sound)
    (hfaithful : ∀ request, prepared = .ok request → request.Faithful) :
    Effect session.epochs (session.sealPrepared env prepared).1.epochs none none
      (session.spentBy prepared) := by
  cases prepared with
  | error => exact (Shrinks.refl _).effect hsound
  | ok request =>
    obtain ⟨hsequence, hunspent⟩ := reserveSeal_spec _ _
    have hepochs : (session.sealPrepared env (.ok request)).1.epochs =
        session.epochs.put (session.epochs.current.reserveSeal session.mode).1 .current := by
      change (session.sealCurrent env request).1.epochs = _
      rw [sealCurrent_session, sealHeader_epochs]
    rw [hepochs]
    cases hspent : session.spentBy (.ok request) with
    | none => exact .put hsound .current hunspent (by simp) (by simp)
    | some =>
      obtain ⟨_, _, ⟨⟩, hheader, rfl⟩ := spentBy_eq_some hspent
      obtain ⟨_, _, hreserve, hmake⟩ := sealHeader_eq_ok hheader
      obtain ⟨rfl, hderives⟩ := hsequence _ hreserve
      have hnumber := hfaithful _ rfl _ _ _ hmake
      refine .put hsound .current (hderives _) (by simp) ?_
      rintro _ ⟨⟩
      rw [sealHeader_epochs, hnumber]
      exact ⟨hunspent.epoch_eq, by rw [← hunspent.sendNoncePrefix_eq]; rfl⟩

theorem spentBy_of_sealHeader {next : IngressRedirectPeerSession}
    {header : IngressRedirectFrameHeader} (hmode : session.mode = .aes256Gcm)
    (hheader : session.sealHeader request = (next, .ok header)) :
    session.spentBy (.ok request) = some (next.epochs.current.epoch,
      frameNonce next.epochs.current.sendNoncePrefix header.sequence) := by
  simp only [spentBy, hmode, hheader]

/-- A frame sealed with AES-GCM is a ciphertext under the nonce that the request
spends. -/
theorem sealPrepared_encrypts {frame : SealedIngressRedirectFrame}
    (hmode : session.mode = .aes256Gcm)
    (hseal : (session.sealPrepared env prepared).2 = .ok frame) :
    ∃ nonce, session.spentBy prepared = some (frame.epoch, nonce) ∧
      ∃ authenticated packet ciphertext,
        env.encrypt session.epochs.current.sendKey nonce authenticated packet = some ciphertext ∧
        frame.bytes = authenticated ++ ciphertext := by
  cases prepared with
  | error => cases hseal
  | ok request =>
    change (session.sealCurrent env request).2 = .ok frame at hseal
    have hepochs := @sealHeader_epochs session request
    unfold sealCurrent at hseal
    cases hheader : session.sealHeader request with
    | mk next outcome =>
      rw [hheader] at hseal hepochs
      cases outcome with
      | error => cases hseal
      | ok header =>
        have hkey : next.epochs.current.sendKey = session.epochs.current.sendKey := by
          rw [hepochs]
          exact DirectionalEpoch.sendKey_reserveSeal _ _
        simp only [hmode, DirectionalEpoch.sealFrame, hkey] at hseal
        cases hencrypt : env.encrypt session.epochs.current.sendKey
            (frameNonce next.epochs.current.sendNoncePrefix header.sequence)
            (header.encode ++ request.ownershipKey) request.packet with
        | none =>
          rw [hencrypt] at hseal
          cases hseal
        | some ciphertext =>
          rw [hencrypt] at hseal
          cases hseal
          exact ⟨_, spentBy_of_sealHeader hmode hheader, _, _, _, hencrypt, rfl⟩

/-- Sealing consults the cipher under the spent nonce only. -/
theorem sealPrepared_congr
    (hagree : ∀ item, session.spentBy prepared = some item →
      ∀ key, encrypt key item.2 = env.encrypt key item.2) :
    session.sealPrepared { env with encrypt } prepared = session.sealPrepared env prepared := by
  cases prepared with
  | error => rfl
  | ok request =>
    change session.sealCurrent _ request = session.sealCurrent env request
    unfold sealCurrent
    cases hheader : session.sealHeader request with
    | mk next outcome =>
      cases outcome with
      | error => rfl
      | ok header =>
        cases hmode : session.mode with
        | hmacSha256 => rfl
        | aes256Gcm =>
          have hnonce := hagree _ (spentBy_of_sealHeader hmode hheader)
          simp only [DirectionalEpoch.sealFrame, hnonce]

/-- What is sealed was prepared for sealing. -/
theorem perform_sealed {frame : SealedIngressRedirectFrame}
    (hsealed : (session.perform env now operation).2 = .sealed frame) :
    ∃ prepared, operation.sealRequest env session now = some prepared ∧
      (session.sealPrepared env prepared).2 = .ok frame := by
  cases operation with
  | sealData | sealForwardedData | sealReceipt =>
    obtain ⟨_, hseal, hframe⟩ := answer_eq hsealed nofun
    cases hframe
    exact ⟨_, rfl, hseal⟩
  | rotationStatus => cases hsealed
  | stageRotation | activateRotation | abortRotation | retainPending | reconcile
  | receiveEpochValidUntil | openAt =>
    obtain ⟨_, _, hframe⟩ := answer_eq hsealed nofun
    cases hframe

/-- An operation consults the cipher under the spent nonce only. -/
theorem perform_congr
    (hagree : ∀ item, session.spent env now operation = some item →
      ∀ key, encrypt key item.2 = env.encrypt key item.2) :
    session.perform { env with encrypt } now operation = session.perform env now operation := by
  cases operation with
  | sealData | sealForwardedData | sealReceipt =>
    exact congrArg (answer · .sealed) (sealPrepared_congr hagree)
  | _ => rfl

/-- What a datagram does to the session before its frame can take effect. -/
inductive Receipt (session : IngressRedirectPeerSession) (datagram : List Byte) (now : ℕ) :
    SessionEpochState → Except IngressRedirectError
      (IngressRedirectFrameHeader × ReceiveEpochKind × List Byte × List Byte) → Prop
  | unread {fault} (hfault : fault ≠ .replayRejected) :
      Receipt session datagram now session.epochs (.error fault)
  | unknown {fault} (hfault : fault ≠ .replayRejected) :
      Receipt session datagram now (session.epochs.purgeExpiredReceiveEpochs now) (.error fault)
  | received {header : IngressRedirectFrameHeader} {kind : ReceiveEpochKind}
      {epoch used : DirectionalEpoch}
      {outcome : Except IngressRedirectError (List Byte × List Byte)}
      (hdecode : IngressRedirectFrameHeader.decode datagram = .ok header)
      (hfind : (session.epochs.purgeExpiredReceiveEpochs now).findEpoch header.epoch now =
        .ok (epoch, kind))
      (hreceived : epoch.Received header.sequence.val used outcome) :
      Receipt session datagram now ((session.epochs.purgeExpiredReceiveEpochs now).put used kind)
        (outcome.map fun opened => (header, kind, opened.1, opened.2))

theorem findEpoch_error {wireEpoch : Word 8} {fault : IngressRedirectError}
    (hfind : state.findEpoch wireEpoch now = .error fault) : fault ≠ .replayRejected := by
  unfold findEpoch at hfind
  repeat' split at hfind
  all_goals
    cases hfind
    try decide

theorem receive_receipt (env : Environment κ)
    (session : IngressRedirectPeerSession) (datagram : List Byte) (now : ℕ) :
    Receipt session datagram now (session.receive env datagram now).1.epochs
      (session.receive env datagram now).2 := by
  unfold receive
  cases hdecode : IngressRedirectFrameHeader.decode datagram with
  | error => exact .unread (by decide)
  | ok header =>
    dsimp only
    split
    · exact .unread (by decide)
    cases hfind : (session.epochs.purgeExpiredReceiveEpochs now).findEpoch header.epoch now with
    | error => exact .unknown (findEpoch_error hfind)
    | ok found =>
      have hreceived := found.1.receiveFrame_received env session.mode
        session.profile.1.hopLimit.1 session.peerSenderDigest header datagram
      dsimp only
      cases hframe : found.1.receiveFrame env session.mode session.profile.1.hopLimit.1
          session.peerSenderDigest header datagram with
      | mk used outcome =>
        rw [hframe] at hreceived
        have hreceipt : Receipt session datagram now _ _ := .received hdecode hfind hreceived
        cases outcome <;> exact hreceipt

theorem receive_effect (env : Environment κ) (session : IngressRedirectPeerSession)
    (hsound : session.epochs.Sound) (datagram : List Byte) (now : ℕ) :
    Effect session.epochs (session.receive env datagram now).1.epochs none
      (session.admitted env now (.openAt datagram)) none := by
  have hreceipt := receive_receipt env session datagram now
  have hpurge := purge_shrinks session.epochs now
  unfold admitted
  dsimp only
  generalize (session.receive env datagram now).1.epochs = after at hreceipt ⊢
  generalize (session.receive env datagram now).2 = outcome at hreceipt ⊢
  cases hreceipt with
  | unread => exact (Shrinks.refl _).effect hsound
  | unknown => exact hpurge.effect hsound
  | @received header kind epoch used outcome hdecode hfind hreceived =>
    obtain ⟨hheld, hepoch, -⟩ := findEpoch_eq_ok hfind
    have hstate := hpurge.sound hsound
    have hrefused (hkeys : epoch.SameKeys used) : Effect session.epochs
        ((session.epochs.purgeExpiredReceiveEpochs now).put used kind) none none none :=
      .after_shrinks hpurge (.put hstate hheld hkeys.derives (by simp) (by simp))
    cases hreceived with
    | refused hkeys | replayed hkeys => exact hrefused hkeys
    | @admitted used window opened hkeys hwindow =>
      obtain ⟨hsame, hnonce, -, hcounter, -⟩ := hkeys
      have hderives : Derives (some (header.epoch, header.sequence)) none epoch
          { used with replay := window } := by
        refine ⟨hsame, hnonce, .inr ⟨_, ?_, hwindow⟩, hcounter.ge, by simp⟩
        rw [← hepoch]
      refine .after_shrinks hpurge (.put hstate hheld hderives ?_ (by simp))
      rintro _ ⟨⟩
      exact hepoch.symm

theorem cutOver_shrinks (env : Environment κ) (session : IngressRedirectPeerSession)
    (kind : ReceiveEpochKind) (wireEpoch : Word 8) (now : ℕ) :
    Shrinks session.epochs (session.cutOver env kind wireEpoch now).1.epochs := by
  cases kind with
  | current | previous => exact .refl _
  | pending => exact activatePending_shrinks _ _ _ _ _

theorem openAt_shrinks (datagram : List Byte) (now : ℕ) :
    Shrinks (session.receive env datagram now).1.epochs
      (session.openAt env datagram now).1.epochs := by
  unfold openAt
  cases session.receive env datagram now with
  | mk received outcome =>
    cases outcome with
    | error => exact .refl _
    | ok frame =>
      have hshrinks := cutOver_shrinks env received frame.2.1 frame.1.epoch now
      dsimp only
      cases hcut : received.cutOver env frame.2.1 frame.1.epoch now with
      | mk _ done =>
        rw [hcut] at hshrinks
        cases done <;> exact hshrinks

/-- The epoch that an operation brings in, when it is accepted. -/
def replacement (session : IngressRedirectPeerSession) : Operation κ → Option DirectionalEpoch
  | .stageRotation bootstrap => some (epochFromBootstrap session.profile bootstrap)
  | _ => none

theorem stageRotationAt_effect (hsound : session.epochs.Sound)
    (bootstrap : IngressRedirectBootstrap) (now : ℕ) :
    Effect session.epochs (session.stageRotationAt env bootstrap now).1.epochs
      (some (epochFromBootstrap session.profile bootstrap)) none none := by
  have hunchanged : Effect session.epochs session.epochs
      (some (epochFromBootstrap session.profile bootstrap)) none none :=
    ⟨hsound, fun new hnew => .inr ⟨new, hnew, .refl new⟩, by simp, by simp⟩
  unfold stageRotationAt
  cases session.checkReplacement env bootstrap now with
  | error => exact hunchanged
  | ok =>
    obtain ⟨hnext, hmembers⟩ := stage_spec _ _ _ _
    refine ⟨hnext hsound, ?_, by simp, by simp⟩
    intro new hnew
    rcases hmembers _ hnew with rfl | hold
    · exact .inl rfl
    · exact .inr ⟨new, hold, .refl new⟩

theorem perform_effect (session : IngressRedirectPeerSession) (env : Environment κ)
    (hsound : session.epochs.Sound) (now : ℕ) (operation : Operation κ) :
    Effect session.epochs (session.perform env now operation).1.epochs
      (session.replacement operation) (session.admitted env now operation)
      (session.spent env now operation) := by
  have hseal : ∀ prepared, operation.sealRequest env session now = some prepared →
      Effect session.epochs (session.sealPrepared env prepared).1.epochs none none
        (session.spentBy prepared) := by
    intro prepared hprepared
    apply sealPrepared_effect hsound
    rintro _ rfl
    exact sealRequest_faithful hprepared
  cases operation with
  | stageRotation => exact stageRotationAt_effect hsound _ _
  | activateRotation token =>
    have hshrinks := activatePending_shrinks env session.epochs session.overlap token now
    refine Shrinks.effect ?_ hsound
    change Shrinks _ (session.activateRotationAt env token now).1.epochs
    unfold activateRotationAt
    cases hactivate : session.epochs.activatePending env session.overlap token now with
    | mk _ outcome =>
      rw [hactivate] at hshrinks
      cases outcome <;> exact hshrinks
  | abortRotation => exact (abortRotation_shrinks _ _ _).effect hsound
  | retainPending => exact ((purge_shrinks _ _).trans (extendPending_shrinks _ _ _ _)).effect hsound
  | reconcile => exact (reconcile_shrinks _ _ _ _ _).effect hsound
  | rotationStatus | receiveEpochValidUntil => exact (purge_shrinks _ _).effect hsound
  | sealData | sealForwardedData | sealReceipt => exact hseal _ rfl
  | openAt => exact (receive_effect _ _ hsound _ _).shrinks (openAt_shrinks _ _)

end IngressRedirectPeerSession

end PacketCore.Redirect
