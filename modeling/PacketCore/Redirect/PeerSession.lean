import PacketCore.Redirect.Protection

/-!
# The session with one redirect peer

A session sends under its current epoch and receives under at most three: the
current one, a staged successor, and a predecessor that is still valid for the
rotation overlap.  Control operations stage, activate, abort, retain and
reconcile a rotation; an authenticated frame under the staged epoch activates
it as well.  Every operation reads the clock once and first drops what has
expired by then.
-/

namespace PacketCore.Redirect

inductive SocketAddr
  | v4 (address : Word 4) (port : Word 2)
  | v6 (address : Word 16) (port : Word 2) (flowinfo scopeId : Word 4)
deriving DecidableEq

inductive IngressRedirectConfigError
  | invalidPathMtu
  | invalidHopLimit
  | invalidReplayWindow
  | invalidRotationOverlap
  | invalidQueueLimits
  | invalidReceiptCache
  | invalidReceiptPolicy
  | invalidAuthenticationAge
deriving DecidableEq

/-- A profile before its bounds have been checked; durations in nanoseconds. -/
structure ProfileFields where
  securityMode : IngressRedirectSecurityMode
  steeringPathMtu : NonZero 2
  hopLimit : NonZero 1
  replayWindow : NonZero 2
  rotationOverlap : ℕ
  queuePackets : ℕ+
  queueBytes : ℕ+
  receiptCacheEntries : ℕ+
  receiptTimeout : ℕ
  maxRetries : Word 1
  maximumAuthenticationAge : ℕ
deriving DecidableEq

def seconds (count : ℕ) : ℕ := count * 1000000000

/-- A duration of whole milliseconds. -/
def WholeMillis (duration : ℕ) : Prop := duration % 1000000000 % 1000000 = 0

instance : DecidablePred WholeMillis := fun _ => Nat.decEq _ _

def rotationStagingTimeout : ℕ := seconds 45

def rotationReconciliationTimeout : ℕ := seconds (10 * 60)

def ProfileFields.validate (profile : ProfileFields) : Except IngressRedirectConfigError Unit := do
  refuseIf (profile.steeringPathMtu.1.val < 1280) .invalidPathMtu
  refuseIf (profile.hopLimit.1.val < 2) .invalidHopLimit
  refuseIf (4096 < profile.replayWindow.1.val) .invalidReplayWindow
  refuseIf (profile.rotationOverlap < seconds 5 ∨ seconds (10 * 60) < profile.rotationOverlap)
    .invalidRotationOverlap
  refuseIf (¬ WholeMillis profile.rotationOverlap) .invalidRotationOverlap
  refuseIf (65536 < (profile.queuePackets : ℕ) ∨ 256 * 1024 * 1024 < (profile.queueBytes : ℕ))
    .invalidQueueLimits
  refuseIf (profile.receiptCacheEntries < profile.queuePackets ∨
    1048576 < (profile.receiptCacheEntries : ℕ)) .invalidReceiptCache
  refuseIf (profile.receiptTimeout = 0 ∨ seconds 30 < profile.receiptTimeout ∨
    ¬ WholeMillis profile.receiptTimeout ∨ 8 < profile.maxRetries.val) .invalidReceiptPolicy
  refuseIf (profile.rotationOverlap < profile.receiptTimeout * (profile.maxRetries.val + 1))
    .invalidRotationOverlap
  refuseIf (profile.maximumAuthenticationAge = 0 ∨
    seconds (24 * 60 * 60) < profile.maximumAuthenticationAge ∨
    profile.maximumAuthenticationAge ≤ max profile.rotationOverlap rotationStagingTimeout ∨
    ¬ WholeMillis profile.maximumAuthenticationAge) .invalidAuthenticationAge

/-- A profile within its bounds. -/
abbrev IngressRedirectProfile := {profile : ProfileFields // profile.validate = .ok ()}

/-- Exact MTU accounting for one peer address, key width and protection mode. -/
structure IngressRedirectMtuBudget where
  pathMtu : ℕ
  outerHeaders : ℕ
  redirectOverhead : ℕ
  maximumOriginalPacket : ℕ

namespace IngressRedirectMtuBudget

def new (profile : IngressRedirectProfile) (peer : SocketAddr) (ownershipKeyLen : ℕ) :
    Except IngressRedirectError IngressRedirectMtuBudget := do
  refuseIf (ownershipKeyLen = 0 ∨ ingressRedirectOwnershipKeyMaxLen < ownershipKeyLen)
    .invalidOwnershipKey
  let outerHeaders := match peer with
    | .v4 .. => 20 + 8
    | .v6 .. => 40 + 8
  let redirectOverhead :=
    ingressRedirectHeaderLen + ownershipKeyLen + profile.1.securityMode.tagLen
  let pathMtu := profile.1.steeringPathMtu.1.val
  let inner ← okOr (checkedSub pathMtu outerHeaders) .packetTooLarge
  let maximumOriginalPacket ← okOr (checkedSub inner redirectOverhead) .packetTooLarge
  refuseIf (maximumOriginalPacket = 0) .packetTooLarge
  return { pathMtu, outerHeaders, redirectOverhead, maximumOriginalPacket }

def Admits (budget : IngressRedirectMtuBudget) (packetLen : ℕ) : Prop :=
  0 < packetLen ∧ packetLen ≤ budget.maximumOriginalPacket

instance (budget : IngressRedirectMtuBudget) : DecidablePred budget.Admits :=
  fun _ => inferInstanceAs (Decidable (_ ∧ _))

end IngressRedirectMtuBudget

/-- The material that one mTLS control bootstrap produces. -/
structure IngressRedirectBootstrap where
  profile : IngressRedirectProfile
  localOwner : String
  peerOwner : String
  localSenderDigest : List.Vector Byte 32
  peerSenderDigest : List.Vector Byte 32
  routingDomains : List (Word 8)
  localUdpEndpoint : SocketAddr
  peerUdpEndpoint : SocketAddr
  epoch : Word 8
  sendKey : List.Vector Byte 32
  receiveKey : List.Vector Byte 32
  sendNoncePrefix : List.Vector Byte 4
  receiveNoncePrefix : List.Vector Byte 4
  hardAuthenticatedDeadline : ℕ

def epochFromBootstrap (profile : IngressRedirectProfile) (bootstrap : IngressRedirectBootstrap) :
    DirectionalEpoch :=
  { epoch := bootstrap.epoch
    sendKey := bootstrap.sendKey
    receiveKey := bootstrap.receiveKey
    sendNoncePrefix := bootstrap.sendNoncePrefix
    receiveNoncePrefix := bootstrap.receiveNoncePrefix
    nextSendSequence := 1
    replay := ReplayWindow.new profile.1.replayWindow
    newlySealedFrames := 0
    successfulOpenedFrames := 0
    failedAeadAuthentications := 0
    aeadReauthSignaled := false
    aeadFrameLimit := aesGcmMaxProtectedFramesPerDirectionalEpoch
    aeadFailedAuthLimit := aesGcmMaxFailedAuthenticationsPerReceiveKey
    aeadFailedAuthWarning := aesGcmMaxFailedAuthenticationsPerReceiveKey * 3 / 4
    hardAuthenticatedDeadline := bootstrap.hardAuthenticatedDeadline }

/-- The manifest's domains in order and without repeats. -/
def canonicalRoutingDomains (domains : List (Word 8)) :
    Except IngressRedirectError (List (Word 8)) := do
  refuseIf (domains = [] ∨ 256 < domains.length) .invalidPeerManifest
  let canonical := domains.toFinset.sort (· ≤ ·)
  refuseIf (canonical = [] ∨ 256 < canonical.length) .invalidPeerManifest
  return canonical

/-- An epoch that may only receive, and until when. -/
structure ReceiveEpoch where
  epoch : DirectionalEpoch
  validUntil : ℕ

/-- The instant is before the epoch's own deadline and before the hard one. -/
def ReceiveEpoch.Live (receive : ReceiveEpoch) (now : ℕ) : Prop :=
  now < receive.validUntil ∧ now < receive.epoch.hardAuthenticatedDeadline

instance (receive : ReceiveEpoch) (now : ℕ) : Decidable (receive.Live now) :=
  inferInstanceAs (Decidable (_ ∧ _))

inductive ReceiveEpochKind
  | current
  | pending
  | previous

structure SessionEpochState where
  current : DirectionalEpoch
  previous : Option ReceiveEpoch
  pending : Option ReceiveEpoch

namespace SessionEpochState

def purgeExpiredReceiveEpochs (state : SessionEpochState) (now : ℕ) : SessionEpochState :=
  { state with
    pending := state.pending.filter fun pending => pending.Live now
    previous := state.previous.filter fun previous => previous.Live now }

/-- The epoch a frame names, among those that are valid. -/
def findEpoch (state : SessionEpochState) (wireEpoch : Word 8) (now : ℕ) :
    Except IngressRedirectError (DirectionalEpoch × ReceiveEpochKind) :=
  if state.current.epoch = wireEpoch then
    if state.current.hardAuthenticatedDeadline ≤ now then .error .authenticationExpired
    else .ok (state.current, .current)
  else
    match state.pending.filter fun pending => pending.epoch.epoch = wireEpoch with
    | some pending => .ok (pending.epoch, .pending)
    | none =>
      match state.previous.filter fun previous => previous.epoch.epoch = wireEpoch with
      | some previous => .ok (previous.epoch, .previous)
      | none => .error .unknownEpoch

/-- The shared counters and window of an epoch after they have been used. -/
def put (state : SessionEpochState) (epoch : DirectionalEpoch) :
    ReceiveEpochKind → SessionEpochState
  | .current => { state with current := epoch }
  | .pending => { state with pending := state.pending.map ({ · with epoch }) }
  | .previous => { state with previous := state.previous.map ({ · with epoch }) }

variable {κ : Type} (env : Environment κ)

/-- The staged epoch becomes current and the current one previous.  When the end
of the overlap is not an instant, the predecessor is already out of the state. -/
def promote (state : SessionEpochState) (overlap : ℕ) (pending : ReceiveEpoch)
    (now : ℕ) : SessionEpochState × Except IngressRedirectError Unit :=
  match env.instantAdd now overlap with
  | none => ({ state with current := pending.epoch, pending := none }, .error .stateUnavailable)
  | some overlapEnd =>
    ({ current := pending.epoch
       previous := some ⟨state.current, min overlapEnd state.current.hardAuthenticatedDeadline⟩
       pending := none }, .ok ())

/-- Activation of the staged epoch, by a control operation or by a frame. -/
def activatePending (state : SessionEpochState) (overlap : ℕ) (wireEpoch : Word 8)
    (now : ℕ) : SessionEpochState × Except IngressRedirectError Unit :=
  let state := state.purgeExpiredReceiveEpochs now
  if state.current.epoch = wireEpoch then (state, .ok ())
  else if state.previous.isSome then (state, .error .rotationInProgress)
  else
    match state.pending with
    | none => (state, .error .rotationNotStaged)
    | some pending =>
      if pending.epoch.epoch ≠ wireEpoch then (state, .error .rotationNotStaged)
      else if ¬ pending.Live now then
        ({ state with pending := none }, .error .authenticationExpired)
      else state.promote env overlap pending now

/-- The replacement waits for its activation. -/
def stage (state : SessionEpochState) (replacement : DirectionalEpoch)
    (validUntil now : ℕ) : SessionEpochState × Except IngressRedirectError (Word 8) :=
  let state := state.purgeExpiredReceiveEpochs now
  if state.pending.isSome ∨ state.previous.isSome then (state, .error .rotationInProgress)
  else if replacement.epoch = state.current.epoch ∨
      state.previous.any (·.epoch.epoch = replacement.epoch) then
    (state, .error .tlsBootstrapFailed)
  else ({ state with pending := some ⟨replacement, validUntil⟩ }, .ok replacement.epoch)

def abortRotation (state : SessionEpochState) (token : Word 8) (now : ℕ) :
    SessionEpochState × Except IngressRedirectError Unit :=
  let state := state.purgeExpiredReceiveEpochs now
  if state.pending.all (·.epoch.epoch ≠ token) then (state, .error .rotationNotStaged)
  else ({ state with pending := none }, .ok ())

/-- The staged epoch, valid for as long as the reconciliation may take. -/
def extendPending (state : SessionEpochState) (token : Word 8) (now : ℕ)
    (timeout : Option ℕ) : SessionEpochState × Except IngressRedirectError Unit :=
  match state.pending.filter fun pending => pending.epoch.epoch = token, timeout with
  | none, _ => (state, .error .rotationNotStaged)
  | some _, none => (state, .error .stateUnavailable)
  | some pending, some timeout =>
    let deadline := min timeout pending.epoch.hardAuthenticatedDeadline
    if deadline ≤ now then (state, .error .authenticationExpired)
    else ({ state with pending := some { pending with validUntil := deadline } }, .ok ())

def retainPendingForReconciliation (state : SessionEpochState) (token : Word 8)
    (now : ℕ) : SessionEpochState × Except IngressRedirectError Unit :=
  (state.purgeExpiredReceiveEpochs now).extendPending token now
    (env.instantAdd now rotationReconciliationTimeout)

def ensureCurrentEpochAuthenticationValidAt (state : SessionEpochState)
    (epoch : Word 8) (now : ℕ) : Except IngressRedirectError Unit := do
  refuseIf (state.current.epoch ≠ epoch) .unknownEpoch
  refuseIf (state.current.hardAuthenticatedDeadline ≤ now) .authenticationExpired

/-- The peer has proved that it uses the epoch.  The clock is read again when
the work is done. -/
def reconcileAuthenticatedEpoch (state : SessionEpochState) (overlap : ℕ) (epoch : Word 8)
    (now completion : ℕ) : SessionEpochState × Except IngressRedirectError (Word 8) :=
  let state := state.purgeExpiredReceiveEpochs now
  if state.current.epoch = epoch then
    if state.current.hardAuthenticatedDeadline ≤ now then (state, .error .authenticationExpired)
    else
      let state := { state with pending := none }
      (state, (state.ensureCurrentEpochAuthenticationValidAt epoch completion).map fun _ => epoch)
  else
    match state.activatePending env overlap epoch now with
    | (state, .error fault) => (state, .error fault)
    | (state, .ok ()) =>
      (state, (state.ensureCurrentEpochAuthenticationValidAt epoch completion).map fun _ => epoch)

/-- Until when frames of an epoch can be accepted. -/
def receiveEpochValidUntil (state : SessionEpochState) (wireEpoch : Word 8)
    (now : ℕ) : SessionEpochState × Except IngressRedirectError ℕ :=
  let state := state.purgeExpiredReceiveEpochs now
  let validUntil : Option ℕ :=
    if state.current.epoch = wireEpoch then some state.current.hardAuthenticatedDeadline
    else
      match state.pending.filter fun pending => pending.epoch.epoch = wireEpoch with
      | some pending => some (min pending.validUntil pending.epoch.hardAuthenticatedDeadline)
      | none =>
        (state.previous.filter fun previous => previous.epoch.epoch = wireEpoch).map
          fun previous => min previous.validUntil previous.epoch.hardAuthenticatedDeadline
  (state, do
    let validUntil ← okOr validUntil .unknownEpoch
    refuseIf (validUntil ≤ now) .authenticationExpired
    return validUntil)

end SessionEpochState

structure IngressRedirectPeerSession where
  profile : IngressRedirectProfile
  localOwner : String
  peerOwner : String
  localSenderDigest : List.Vector Byte 32
  peerSenderDigest : List.Vector Byte 32
  routingDomains : List (Word 8)
  localUdpEndpoint : SocketAddr
  peerUdpEndpoint : SocketAddr
  epochs : SessionEpochState

/-- A newly protected frame and the epoch that authorised it. -/
structure SealedIngressRedirectFrame where
  bytes : List Byte
  epoch : Word 8
  sequence : Word 8
  validUntil : ℕ

structure AuthenticatedIngressRedirectData (κ : Type) where
  epoch : Word 8
  hopCount : Word 1
  hopLimit : Word 1
  ownershipGeneration : Word 8
  ownershipKey : κ
  packet : List Byte

structure AuthenticatedIngressRedirectReceipt where
  acknowledgedEpoch : Word 8
  acknowledgedSequence : Word 8
  code : IngressRedirectReceiptCode

inductive AuthenticatedIngressRedirectFrame (κ : Type)
  | data (data : AuthenticatedIngressRedirectData κ)
  | receipt (receipt : AuthenticatedIngressRedirectReceipt)

/-- What is to be sealed once the epoch has given a sequence number. -/
structure SealRequest where
  header : Word 8 → Word 8 → Except IngressRedirectHeaderError IngressRedirectFrameHeader
  ownershipKey : List Byte
  packet : List Byte

namespace IngressRedirectPeerSession

variable {κ : Type} (env : Environment κ) (session : IngressRedirectPeerSession)

def fromBootstrap (bootstrap : IngressRedirectBootstrap) :
    Except IngressRedirectError IngressRedirectPeerSession := do
  let routingDomains ← canonicalRoutingDomains bootstrap.routingDomains
  return {
    profile := bootstrap.profile
    localOwner := bootstrap.localOwner
    peerOwner := bootstrap.peerOwner
    localSenderDigest := bootstrap.localSenderDigest
    peerSenderDigest := bootstrap.peerSenderDigest
    routingDomains
    localUdpEndpoint := bootstrap.localUdpEndpoint
    peerUdpEndpoint := bootstrap.peerUdpEndpoint
    epochs :=
      { current := epochFromBootstrap bootstrap.profile bootstrap
        previous := none, pending := none } }

def overlap : ℕ := session.profile.1.rotationOverlap

def mode : IngressRedirectSecurityMode := session.profile.1.securityMode

/-- Put the epochs that an operation left back into the session. -/
def withEpochs {α : Type} (result : SessionEpochState × α) : IngressRedirectPeerSession × α :=
  ({ session with epochs := result.1 }, result.2)

/-- The checks of a replacement before the session's epochs are looked at; the
result is until when it may stay staged. -/
def checkReplacement (bootstrap : IngressRedirectBootstrap) (now : ℕ) :
    Except IngressRedirectError ℕ := do
  let routingDomains ← canonicalRoutingDomains bootstrap.routingDomains
  refuseIf (bootstrap.profile ≠ session.profile ∨
    bootstrap.localOwner ≠ session.localOwner ∨ bootstrap.peerOwner ≠ session.peerOwner ∨
    bootstrap.localSenderDigest ≠ session.localSenderDigest ∨
    bootstrap.peerSenderDigest ≠ session.peerSenderDigest ∨
    routingDomains ≠ session.routingDomains ∨
    bootstrap.localUdpEndpoint ≠ session.localUdpEndpoint ∨
    bootstrap.peerUdpEndpoint ≠ session.peerUdpEndpoint) .peerIdentityMismatch
  refuseIf (bootstrap.hardAuthenticatedDeadline ≤ now) .authenticationExpired
  let minimumStageDeadline ← okOr (env.instantAdd now rotationStagingTimeout) .stateUnavailable
  refuseIf (bootstrap.hardAuthenticatedDeadline < minimumStageDeadline) .authenticationExpired
  return min minimumStageDeadline bootstrap.hardAuthenticatedDeadline

def stageRotationAt (bootstrap : IngressRedirectBootstrap) (now : ℕ) :
    IngressRedirectPeerSession × Except IngressRedirectError (Word 8) :=
  match session.checkReplacement env bootstrap now with
  | .error fault => (session, .error fault)
  | .ok validUntil =>
    session.withEpochs
      (session.epochs.stage (epochFromBootstrap session.profile bootstrap) validUntil now)

def activateRotationAt (token : Word 8) (now : ℕ) :
    IngressRedirectPeerSession × Except IngressRedirectError (Word 8) :=
  session.withEpochs <|
    match session.epochs.activatePending env session.overlap token now with
    | (state, .error fault) => (state, .error fault)
    | (state, .ok ()) => (state, .ok state.current.epoch)

def currentEpochAt (now : ℕ) : Except IngressRedirectError DirectionalEpoch := do
  refuseIf (session.epochs.current.hardAuthenticatedDeadline ≤ now) .authenticationExpired
  return session.epochs.current

/-- Take a sequence number of the current epoch and write the frame's header. -/
def sealHeader (request : SealRequest) :
    IngressRedirectPeerSession × Except IngressRedirectError IngressRedirectFrameHeader :=
  match session.epochs.current.reserveSeal session.mode with
  | (current, .error fault) =>
    (session.withEpochs (session.epochs.put current .current, .error fault))
  | (current, .ok sequence) =>
    session.withEpochs (session.epochs.put current .current,
      (request.header current.epoch sequence).mapError fun _ => .malformedFrame)

/-- Seal under the current epoch. -/
def sealCurrent (request : SealRequest) :
    IngressRedirectPeerSession × Except IngressRedirectError SealedIngressRedirectFrame :=
  match session.sealHeader request with
  | (next, .error fault) => (next, .error fault)
  | (next, .ok header) =>
    let epoch := next.epochs.current
    (next, (epoch.sealFrame env session.mode header request.ownershipKey request.packet).map
      fun bytes =>
        { bytes, epoch := epoch.epoch, sequence := header.sequence
          validUntil := epoch.hardAuthenticatedDeadline })

/-- The checks before a packet is sealed for the peer. -/
def prepareDataWithGeneration (packet key : List Byte) (ownershipGeneration : Word 8)
    (hopCount : Word 1) (requiredValidUntil now : ℕ) : Except IngressRedirectError SealRequest := do
  let budget ← IngressRedirectMtuBudget.new session.profile session.peerUdpEndpoint key.length
  refuseIf (¬ budget.Admits packet.length) .packetTooLarge
  let epoch ← session.currentEpochAt now
  refuseIf (epoch.hardAuthenticatedDeadline ≤ requiredValidUntil) .authenticationExpired
  return {
    header := fun epoch sequence =>
      IngressRedirectFrameHeader.data session.mode hopCount session.profile.1.hopLimit.1 epoch
        sequence ownershipGeneration session.localSenderDigest
        (Fin.ofNat (256 ^ 2) key.length) (Fin.ofNat (256 ^ 2) packet.length)
    ownershipKey := key, packet }

def prepareData (packet : List Byte) (ownershipKey : κ) (ownershipGeneration : NonZero 8)
    (requiredValidUntil now : ℕ) : Except IngressRedirectError SealRequest := do
  refuseIf (packet = []) .invalidOriginalPacket
  refuseIf (65535 < packet.length) .packetTooLarge
  let key := env.toCanonicalBytes ownershipKey
  refuseIf (env.routingDomain ownershipKey ∉ session.routingDomains) .routingDomainNotAuthorized
  refuseIf (key = [] ∨ ingressRedirectOwnershipKeyMaxLen < key.length) .invalidOwnershipKey
  session.prepareDataWithGeneration packet key ownershipGeneration.1 1 requiredValidUntil now

/-- Forward a frame that another session authenticated, one hop further. -/
def prepareForwardedData (prior : AuthenticatedIngressRedirectData κ)
    (ownershipGeneration : NonZero 8) (requiredValidUntil now : ℕ) :
    Except IngressRedirectError SealRequest := do
  refuseIf (prior.hopLimit ≠ session.profile.1.hopLimit.1) .hopLimitMismatch
  refuseIf (env.routingDomain prior.ownershipKey ∉ session.routingDomains)
    .routingDomainNotAuthorized
  refuseIf (prior.hopLimit ≤ prior.hopCount) .hopLimitReached
  refuseIf (255 < prior.hopCount.val + 1) .hopLimitReached
  session.prepareDataWithGeneration prior.packet (env.toCanonicalBytes prior.ownershipKey)
    ownershipGeneration.1 (Fin.ofNat (256 ^ 1) (prior.hopCount.val + 1)) requiredValidUntil now

def prepareReceipt (acknowledgedEpoch acknowledgedSequence : Word 8)
    (code : IngressRedirectReceiptCode) (now : ℕ) : Except IngressRedirectError SealRequest := do
  let _ ← session.currentEpochAt now
  return {
    header := fun epoch sequence =>
      IngressRedirectFrameHeader.receipt session.mode epoch sequence session.localSenderDigest
        acknowledgedEpoch acknowledgedSequence code
    ownershipKey := [], packet := [] }

/-- Everything up to the replay window: the header, the epoch it names, and the
frame under that epoch. -/
def receive (datagram : List Byte) (now : ℕ) :
    IngressRedirectPeerSession ×
      Except IngressRedirectError
        (IngressRedirectFrameHeader × ReceiveEpochKind × List Byte × List Byte) :=
  match IngressRedirectFrameHeader.decode datagram with
  | .error _ => (session, .error .malformedFrame)
  | .ok header =>
    if header.securityMode ≠ session.mode then (session, .error .protectionModeMismatch)
    else
      let state := session.epochs.purgeExpiredReceiveEpochs now
      match state.findEpoch header.epoch now with
      | .error fault => session.withEpochs (state, .error fault)
      | .ok (epoch, kind) =>
        match epoch.receiveFrame env session.mode session.profile.1.hopLimit.1
            session.peerSenderDigest header datagram with
        | (used, .error fault) => session.withEpochs (state.put used kind, .error fault)
        | (used, .ok opened) =>
          session.withEpochs (state.put used kind, .ok (header, kind, opened.1, opened.2))

/-- The frame that a header and its authenticated parts make up. -/
def frame (header : IngressRedirectFrameHeader) (ownershipKey packet : List Byte) :
    Except IngressRedirectError (AuthenticatedIngressRedirectFrame κ) :=
  match header.kind with
  | .data =>
    match env.fromCanonicalBytes ownershipKey with
    | none => .error .invalidOwnershipKey
    | some key => .ok (.data
      { epoch := header.epoch, hopCount := header.hopCount, hopLimit := header.hopLimit
        ownershipGeneration := header.ownershipGeneration, ownershipKey := key, packet })
  | .receipt =>
    match header.receiptCode with
    | none => .error .malformedFrame
    | some code => .ok (.receipt
      { acknowledgedEpoch := header.acknowledgedEpoch
        acknowledgedSequence := header.acknowledgedSequence, code })

/-- A frame under the staged epoch proves that the peer has switched. -/
def cutOver (kind : ReceiveEpochKind) (wireEpoch : Word 8) (now : ℕ) :
    IngressRedirectPeerSession × Except IngressRedirectError Unit :=
  match kind with
  | .pending => session.withEpochs
    (session.epochs.activatePending env session.overlap wireEpoch now)
  | .current | .previous => (session, .ok ())

def openAt (datagram : List Byte) (now : ℕ) :
    IngressRedirectPeerSession ×
      Except IngressRedirectError (AuthenticatedIngressRedirectFrame κ) :=
  match session.receive env datagram now with
  | (received, .error fault) => (received, .error fault)
  | (received, .ok (header, kind, ownershipKey, packet)) =>
    match received.cutOver env kind header.epoch now with
    | (cut, .error fault) => (cut, .error fault)
    | (cut, .ok ()) => (cut, frame env header ownershipKey packet)

end IngressRedirectPeerSession

end PacketCore.Redirect
