import PacketCore.Redirect.Header

/-!
# Frame protection under one epoch

Every mTLS bootstrap gives the two directions of a peer their keys, their nonce
prefixes, a counter of sent frames and a replay window for received ones.  This
module has the window, the usage budgets of AES-GCM and the sealing and opening
of one frame.  The ciphers are parameters.
-/

namespace PacketCore.Redirect

inductive IngressRedirectError
  | malformedFrame
  | protectionModeMismatch
  | unknownEpoch
  | authenticationExpired
  | authenticationFailed
  | senderIdentityMismatch
  | replayRejected
  | sequenceExhausted
  | aeadUsageExhausted
  | hopLimitMismatch
  | hopLimitReached
  | routingDomainNotAuthorized
  | invalidOwnershipKey
  | invalidOriginalPacket
  | packetTooLarge
  | tlsBootstrapFailed
  | peerIdentityMismatch
  | invalidPeerManifest
  | stateUnavailable
  | rotationInProgress
  | rotationNotStaged
deriving DecidableEq

/-- What the session takes from its surroundings: the ciphers, the canonical
form of ownership keys, and the last instant that the clock can represent. -/
structure Environment (κ : Type) where
  encrypt : List.Vector Byte 32 → List.Vector Byte 12 → List Byte → List Byte → Option (List Byte)
  decrypt : List.Vector Byte 32 → List.Vector Byte 12 → List Byte → List Byte → Option (List Byte)
  hmacSha2256 : List.Vector Byte 32 → List Byte → List.Vector Byte 32
  toCanonicalBytes : κ → List Byte
  fromCanonicalBytes : List Byte → Option κ
  routingDomain : κ → Word 8
  lastInstant : ℕ

/-- An instant that the clock can represent. -/
def Environment.instantAdd {κ : Type} (env : Environment κ) (now duration : ℕ) : Option ℕ :=
  if now + duration ≤ env.lastInstant then some (now + duration) else none

structure ReplayWindow where
  width : ℕ
  highest : ℕ
  accepted : Finset ℕ

namespace ReplayWindow

def new (width : NonZero 2) : ReplayWindow :=
  { width := width.1.val, highest := 0, accepted := ∅ }

/-- Forget what has fallen out of the window below `highest`. -/
def advance (window : ReplayWindow) (sequence : ℕ) : ReplayWindow :=
  let highest := max window.highest sequence
  { width := window.width
    highest
    accepted := (insert sequence window.accepted).filter (highest - (window.width - 1) ≤ ·) }

def accept (window : ReplayWindow) (sequence : ℕ) : Except IngressRedirectError ReplayWindow := do
  refuseIf (sequence = 0) .replayRejected
  refuseIf (window.highest ≠ 0 ∧ sequence < window.highest ∧
    window.width ≤ window.highest - sequence) .replayRejected
  refuseIf (sequence ∈ window.accepted) .replayRejected
  return window.advance sequence

end ReplayWindow

structure DirectionalEpoch where
  epoch : Word 8
  sendKey : List.Vector Byte 32
  receiveKey : List.Vector Byte 32
  sendNoncePrefix : List.Vector Byte 4
  receiveNoncePrefix : List.Vector Byte 4
  nextSendSequence : Word 8
  replay : ReplayWindow
  newlySealedFrames : ℕ
  successfulOpenedFrames : ℕ
  failedAeadAuthentications : ℕ
  aeadReauthSignaled : Bool
  aeadFrameLimit : ℕ
  aeadFailedAuthLimit : ℕ
  aeadFailedAuthWarning : ℕ
  hardAuthenticatedDeadline : ℕ

def aesGcmMaxProtectedFramesPerDirectionalEpoch : ℕ := 2 ^ 23

def aesGcmMaxFailedAuthenticationsPerReceiveKey : ℕ := 2 ^ 36

/-- The counter before and after one more use. -/
def reserveAeadUsage (counter limit : ℕ) : Except ℕ (ℕ × ℕ) :=
  if limit ≤ counter then .error counter else .ok (counter, saturatingAdd counter 1)

/-- The counter's value, and the value it is left with. -/
def nextSequence (counter : Word 8) : Except IngressRedirectError (Word 8 × Word 8) :=
  if hnext : counter.val + 1 < 256 ^ 8 then .ok (counter, ⟨counter.val + 1, hnext⟩)
  else .error .sequenceExhausted

def frameNonce (noncePrefix : List.Vector Byte 4) (sequence : Word 8) : List.Vector Byte 12 :=
  ⟨noncePrefix.toList ++ sequence.bytes, by simp⟩

theorem frameNonce_injective {noncePrefix : List.Vector Byte 4} {left right : Word 8}
    (hnonce : frameNonce noncePrefix left = frameNonce noncePrefix right) : left = right := by
  have hbytes : noncePrefix.toList ++ left.bytes = noncePrefix.toList ++ right.bytes :=
    congrArg List.Vector.toList hnonce
  apply Fin.ext
  exact bigEndian_injective left.isLt right.isLt (List.append_cancel_left hbytes)

namespace DirectionalEpoch

open IngressRedirectSecurityMode

def reserveNewAeadSeal (mode : IngressRedirectSecurityMode)
    (epoch : DirectionalEpoch) : Except IngressRedirectError DirectionalEpoch :=
  match mode with
  | hmacSha256 => .ok epoch
  | aes256Gcm =>
    match reserveAeadUsage epoch.newlySealedFrames epoch.aeadFrameLimit with
    | .error _ => .error .aeadUsageExhausted
    | .ok (_, counter) => .ok { epoch with newlySealedFrames := counter }

def enforceAeadReceiveBudget (mode : IngressRedirectSecurityMode)
    (epoch : DirectionalEpoch) : Except IngressRedirectError Unit :=
  match mode with
  | hmacSha256 => .ok ()
  | aes256Gcm => do
    refuseIf (epoch.aeadFrameLimit ≤ epoch.successfulOpenedFrames) .aeadUsageExhausted
    refuseIf (epoch.aeadFailedAuthLimit ≤ epoch.failedAeadAuthentications) .aeadUsageExhausted

def reserveSuccessfulAeadOpen (mode : IngressRedirectSecurityMode)
    (epoch : DirectionalEpoch) : Except IngressRedirectError DirectionalEpoch :=
  match mode with
  | hmacSha256 => .ok epoch
  | aes256Gcm =>
    match reserveAeadUsage epoch.successfulOpenedFrames epoch.aeadFrameLimit with
    | .error _ => .error .aeadUsageExhausted
    | .ok (_, counter) => .ok { epoch with successfulOpenedFrames := counter }

def recordFailedAeadAuthentication (mode : IngressRedirectSecurityMode)
    (epoch : DirectionalEpoch) : DirectionalEpoch :=
  match mode with
  | hmacSha256 => epoch
  | aes256Gcm =>
    match reserveAeadUsage epoch.failedAeadAuthentications epoch.aeadFailedAuthLimit with
    | .error _ => epoch
    | .ok (prior, counter) =>
      { epoch with
        failedAeadAuthentications := counter
        aeadReauthSignaled :=
          epoch.aeadReauthSignaled || decide (epoch.aeadFailedAuthWarning ≤ saturatingAdd prior 1) }

variable {κ : Type} (env : Environment κ)

def sealFrame (epoch : DirectionalEpoch) (mode : IngressRedirectSecurityMode)
    (header : IngressRedirectFrameHeader) (ownershipKey packet : List Byte) :
    Except IngressRedirectError (List Byte) :=
  let authenticated := header.encode ++ ownershipKey
  match mode with
  | aes256Gcm =>
    match env.encrypt epoch.sendKey (frameNonce epoch.sendNoncePrefix header.sequence)
        authenticated packet with
    | none => .error .authenticationFailed
    | some ciphertext => .ok (authenticated ++ ciphertext)
  | hmacSha256 =>
    .ok (authenticated ++ packet ++
      (env.hmacSha2256 epoch.sendKey (authenticated ++ packet)).toList)

/-- The packet of a frame whose length has been checked. -/
def openBody (epoch : DirectionalEpoch) (mode : IngressRedirectSecurityMode)
    (header : IngressRedirectFrameHeader) (bodyStart : ℕ)
    (datagram : List Byte) : Except IngressRedirectError (List Byte) :=
  match mode with
  | aes256Gcm =>
    okOr (env.decrypt epoch.receiveKey (frameNonce epoch.receiveNoncePrefix header.sequence)
      (datagram.take bodyStart) (datagram.drop bodyStart)) .authenticationFailed
  | hmacSha256 =>
    let tagStart := datagram.length - tagLen hmacSha256
    let authenticated := datagram.take tagStart
    if (env.hmacSha2256 epoch.receiveKey authenticated).toList = datagram.drop tagStart then
      .ok (authenticated.drop bodyStart)
    else .error .authenticationFailed

/-- The ownership key and the packet of an authentic frame. -/
def openFrame (epoch : DirectionalEpoch) (mode : IngressRedirectSecurityMode)
    (header : IngressRedirectFrameHeader) (datagram : List Byte) :
    Except IngressRedirectError (List Byte × List Byte) := do
  let bodyStart := ingressRedirectHeaderLen + header.ownershipKeyLen.val
  refuseIf (datagram.length ≠ bodyStart + header.packetLen.val + mode.tagLen) .malformedFrame
  let packet ← epoch.openBody env mode header bodyStart datagram
  refuseIf (packet.length ≠ header.packetLen.val) .malformedFrame
  return ((datagram.take bodyStart).drop ingressRedirectHeaderLen, packet)

/-- Take the next sequence number under the sealing budget.  The budget stays
spent when the numbers have run out. -/
def reserveSeal (mode : IngressRedirectSecurityMode) (epoch : DirectionalEpoch) :
    DirectionalEpoch × Except IngressRedirectError (Word 8) :=
  match epoch.reserveNewAeadSeal mode with
  | .error fault => (epoch, .error fault)
  | .ok reserved =>
    match nextSequence reserved.nextSendSequence with
    | .error fault => (reserved, .error fault)
    | .ok (sequence, next) => ({ reserved with nextSendSequence := next }, .ok sequence)

/-- The checks between decryption and the replay window. -/
def checkSender (hopLimit : Word 1) (peerSenderDigest : List.Vector Byte 32)
    (header : IngressRedirectFrameHeader) : Except IngressRedirectError Unit := do
  refuseIf (header.senderDigest ≠ peerSenderDigest) .senderIdentityMismatch
  refuseIf (header.kind = .data ∧ header.hopLimit ≠ hopLimit) .hopLimitMismatch

/-- The part of opening a frame that works on its epoch alone: budget,
authentication, sender and replay window. -/
def receiveFrame (mode : IngressRedirectSecurityMode) (hopLimit : Word 1)
    (peerSenderDigest : List.Vector Byte 32) (epoch : DirectionalEpoch)
    (header : IngressRedirectFrameHeader) (datagram : List Byte) :
    DirectionalEpoch × Except IngressRedirectError (List Byte × List Byte) :=
  match epoch.enforceAeadReceiveBudget mode with
  | .error fault => (epoch, .error fault)
  | .ok () =>
    match epoch.openFrame env mode header datagram with
    | .error fault =>
      (if fault = .authenticationFailed then epoch.recordFailedAeadAuthentication mode else epoch,
        .error fault)
    | .ok opened =>
      match epoch.reserveSuccessfulAeadOpen mode with
      | .error fault => (epoch, .error fault)
      | .ok reserved =>
        match checkSender hopLimit peerSenderDigest header with
        | .error fault => (reserved, .error fault)
        | .ok () =>
          match reserved.replay.accept header.sequence.val with
          | .error _ => (reserved, .error .replayRejected)
          | .ok window => ({ reserved with replay := window }, .ok opened)

end DirectionalEpoch

end PacketCore.Redirect
