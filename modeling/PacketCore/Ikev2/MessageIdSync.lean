import PacketCore.Library.Loop
import PacketCore.Library.Word

/-!
# Message-ID synchronization

The notification of RFC 6311, its framing, and the pure counter rules.  Every
rule takes maxima: a proposal exceeds all that its sender knows, an answer joins
it to what the responder knows, and the response is joined to what the proposer
still holds.  Both ends therefore adopt the same two counters, in a plain
exchange as in a crossed one.
-/

namespace PacketCore.Ikev2

open List

/-! ## Message IDs -/

abbrev MessageId := Fin (2 ^ 32)

def messageIdMax : MessageId := ⟨2 ^ 32 - 1, by norm_num⟩

variable {id : MessageId}

namespace MessageId

/-- The next Message ID, refused on overflow. -/
def checkedSucc (id : MessageId) : Option MessageId :=
  if hfits : id.val + 1 < 2 ^ 32 then some ⟨id.val + 1, hfits⟩ else none

theorem lt_of_checkedSucc {next : MessageId} (hnext : id.checkedSucc = some next) : id < next := by
  unfold checkedSucc at hnext
  split at hnext
  · cases hnext
    exact Nat.lt_succ_self _
  · cases hnext

def bytes (id : MessageId) : List Byte := bigEndian 4 id.val

def ofBytes (bytes : List Byte) : MessageId := Fin.ofNat (2 ^ 32) (fromBigEndian bytes)

@[simp]
theorem ofBytes_bytes (id : MessageId) : ofBytes id.bytes = id := by
  apply Fin.ext
  have hvalue : fromBigEndian id.bytes = id.val :=
    fromBigEndian_bigEndian (lt_of_lt_of_eq id.isLt (by norm_num))
  rw [ofBytes, hvalue, Fin.val_ofNat, Nat.mod_eq_of_lt id.isLt]

@[simp]
theorem length_bytes (id : MessageId) : id.bytes.length = 4 := length_bigEndian 4 id.val

end MessageId

/-! ## Headers and payloads -/

inductive PayloadType where
  | noNext
  | securityAssociation
  | keyExchange
  | identificationInitiator
  | identificationResponder
  | certificate
  | certificateRequest
  | authentication
  | nonce
  | notify
  | delete
  | vendorId
  | trafficSelectorInitiator
  | trafficSelectorResponder
  | encrypted
  | configuration
  | extensibleAuthentication
  | encryptedFragment
  | unknown (value : ℕ)
deriving DecidableEq

namespace PayloadType

def fromU8 : ℕ → PayloadType
  | 0 => noNext
  | 33 => securityAssociation
  | 34 => keyExchange
  | 35 => identificationInitiator
  | 36 => identificationResponder
  | 37 => certificate
  | 38 => certificateRequest
  | 39 => authentication
  | 40 => nonce
  | 41 => notify
  | 42 => delete
  | 43 => vendorId
  | 44 => trafficSelectorInitiator
  | 45 => trafficSelectorResponder
  | 46 => encrypted
  | 47 => configuration
  | 48 => extensibleAuthentication
  | 53 => encryptedFragment
  | other => unknown other

end PayloadType

/-- The named bits of the flags octet. -/
structure HeaderFlags where
  initiator : Bool
  response : Bool
  version : Bool

/-- The fixed header; the length octets are checked by the framing. -/
structure Header where
  initiatorSpi : Fin (2 ^ 64)
  responderSpi : Fin (2 ^ 64)
  nextPayload : ℕ
  majorVersion : ℕ
  minorVersion : ℕ
  exchangeType : ℕ
  flags : HeaderFlags
  messageId : MessageId

def exchangeTypeInformational : ℕ := 37

structure RawPayload where
  payloadType : PayloadType
  body : List Byte

/-- What the iterator over an opened chain yields; a malformed payload is `none`. -/
abbrev PayloadChain := List (Option RawPayload)

structure NotifyPayload where
  protocolId : Byte
  spiSize : Byte
  notifyMessageType : ℕ
  spi : List Byte
  notificationData : List Byte

inductive NotifyPayloadError where
  | bodyTooShort
  | spiLengthExceedsBody

def NotifyPayload.decodeBody : List Byte → Except NotifyPayloadError NotifyPayload
  | protocolId :: spiSize :: high :: low :: rest =>
    if rest.length < spiSize.val then .error .spiLengthExceedsBody
    else .ok ⟨protocolId, spiSize, high.val * 256 + low.val,
      rest.take spiSize.val, rest.drop spiSize.val⟩
  | _ => .error .bodyTooShort

/-! ## The notification -/

/-- Sync data; the counters are relative to the sender of the notification. -/
structure MessageIdSync where
  nonce : List.Vector Byte 4
  expectedSendReqMessageId : MessageId
  expectedRecvReqMessageId : MessageId

inductive MessageIdSyncError where
  | spiSizeNonzero
  | spiNonempty
  | invalidDataLength

def notifyMessageIdSync : ℕ := 16422

def validateEmptySpi (notify : NotifyPayload) : Except MessageIdSyncError Unit := do
  refuseIf (notify.spiSize ≠ 0) .spiSizeNonzero
  refuseIf (notify.spi ≠ []) .spiNonempty

/-- Twelve octets: the nonce and two counters in network order. -/
def MessageIdSync.ofData (data : List Byte) : Except MessageIdSyncError MessageIdSync :=
  if hlength : data.length = 12 then
    .ok ⟨⟨data.take 4, by simp [hlength]⟩, .ofBytes ((data.drop 4).take 4), .ofBytes (data.drop 8)⟩
  else .error .invalidDataLength

def decodeMessageIdSyncNotify (notify : NotifyPayload) :
    Except MessageIdSyncError (Option MessageIdSync) :=
  if notify.notifyMessageType ≠ notifyMessageIdSync then .ok none
  else do
    validateEmptySpi notify
    let value ← MessageIdSync.ofData notify.notificationData
    pure (some value)

namespace MessageIdSync

variable (value : MessageIdSync)

def data : List Byte :=
  value.nonce.toList ++ (value.expectedSendReqMessageId.bytes ++
    value.expectedRecvReqMessageId.bytes)

/-- The body of the canonical sync Notify. -/
def notifyBody : List Byte :=
  [0, 0] ++ bigEndian 2 notifyMessageIdSync ++ value.data

theorem ofData_data : ofData value.data = .ok value := by
  have hnonce : value.nonce.toList.length = 4 := value.nonce.toList_length
  have hlength : value.data.length = 12 := by simp [data]
  have htail : value.data.drop 4 =
      value.expectedSendReqMessageId.bytes ++ value.expectedRecvReqMessageId.bytes :=
    drop_left' hnonce
  have hsend : (value.data.drop 4).take 4 = value.expectedSendReqMessageId.bytes := by
    rw [htail]
    exact take_left' (MessageId.length_bytes _)
  have hrecv : value.data.drop 8 = value.expectedRecvReqMessageId.bytes := by
    rw [show 8 = 4 + 4 by norm_num, ← drop_drop, htail]
    exact drop_left' (MessageId.length_bytes _)
  have hhead : value.data.take 4 = value.nonce.toList := take_left' hnonce
  unfold ofData
  rw [dif_pos hlength]
  simp only [hsend, hrecv, hhead, MessageId.ofBytes_bytes]
  rfl

/-- The Notify that a sync message carries. -/
def notify : NotifyPayload :=
  ⟨0, 0, notifyMessageIdSync, [], value.data⟩

theorem decodeBody_notifyBody : NotifyPayload.decodeBody value.notifyBody = .ok value.notify := rfl

/-- What is written is read back. -/
theorem decode_notify : decodeMessageIdSyncNotify value.notify = .ok (some value) := by
  simp [decodeMessageIdSyncNotify, notify, validateEmptySpi, refuseIf, ofData_data]

theorem data_of_ofData {data : List Byte} {value : MessageIdSync}
    (hdata : ofData data = .ok value) :
    data = value.data := by
  have hbytes (bytes : List Byte) (hfour : bytes.length = 4) :
      (MessageId.ofBytes bytes).bytes = bytes := by
    have hbound : fromBigEndian bytes < 2 ^ 32 := (hfour ▸ fromBigEndian_lt bytes).trans_eq rfl
    rw [MessageId.bytes, MessageId.ofBytes, Fin.val_ofNat,
      Nat.mod_eq_of_lt hbound, ← hfour, bigEndian_fromBigEndian]
  unfold ofData at hdata
  split at hdata <;> cases hdata
  rw [MessageIdSync.data, hbytes _ (by simp [*]), hbytes _ (by simp [*]),
    ← drop_drop (i := 4) (j := 4), take_append_drop]
  exact (take_append_drop 4 data).symm

/-- A Notify is read as a sync value when it is the one written for the value, up to
the protocol identifier, which the reader ignores. -/
theorem reads_sync_iff {payload : NotifyPayload} {value : MessageIdSync} :
    decodeMessageIdSyncNotify payload = .ok (some value) ↔
      payload = { value.notify with protocolId := payload.protocolId } := by
  refine ⟨fun hdecode => ?_, fun hpayload => hpayload ▸ value.decode_notify⟩
  unfold decodeMessageIdSyncNotify at hdecode
  split at hdecode
  · cases hdecode
  obtain ⟨_, hspi, hdecode⟩ := bind_eq_ok hdecode
  obtain ⟨hsize, hspi⟩ := refuseIf_bind hspi
  obtain ⟨_, hdata, hdecode⟩ := bind_eq_ok hdecode
  cases hdecode
  cases payload
  simp_all [notify, ← data_of_ofData hdata]

end MessageIdSync

/-! ## Agreements -/

/-- Local role in the exchange that created the SA. -/
inductive MessageIdSyncRole where
  | initiator
  | responder
deriving DecidableEq

/-- The SPI pair and the local role. -/
structure MessageIdSyncSa where
  initiatorSpi : Fin (2 ^ 64)
  responderSpi : Fin (2 ^ 64)
  role : MessageIdSyncRole
  initiatorSpi_ne_zero : initiatorSpi ≠ 0
  responderSpi_ne_zero : responderSpi ≠ 0
deriving DecidableEq

inductive MessageIdSyncRuleError where
  | drop
  | rekeyRequired
  | closeIkeSa

inductive MessageIdSyncMode where
  | baseFallback
  | negotiated
deriving DecidableEq

structure MessageIdSyncAgreement where
  sa : MessageIdSyncSa
  mode : MessageIdSyncMode

namespace MessageIdSyncSa

def validatePeer (sa : MessageIdSyncSa) (header : Header) (exchange : ℕ)
    (response : Bool) : Except MessageIdSyncRuleError Unit :=
  refuseIf (header.initiatorSpi ≠ sa.initiatorSpi
    ∨ header.responderSpi ≠ sa.responderSpi
    ∨ header.flags.initiator ≠ decide (sa.role = .responder)
    ∨ header.flags.response ≠ response
    ∨ header.exchangeType ≠ exchange
    ∨ header.majorVersion ≠ 2
    ∨ (PayloadType.fromU8 header.nextPayload ≠ .encrypted
      ∧ PayloadType.fromU8 header.nextPayload ≠ .encryptedFragment)) .drop

/-- The header under which this end sends a sync message. -/
def syncHeader (sa : MessageIdSyncSa) (response : Bool) : Header :=
  { initiatorSpi := sa.initiatorSpi
    responderSpi := sa.responderSpi
    nextPayload := 46
    majorVersion := 2
    minorVersion := 0
    exchangeType := exchangeTypeInformational
    flags := ⟨decide (sa.role = .initiator), response, false⟩
    messageId := 0 }

end MessageIdSyncSa

/-- The sole payload of a sync message. -/
def MessageIdSync.payloads (value : MessageIdSync) : PayloadChain :=
  [some ⟨.notify, value.notifyBody⟩]

/-! ## Counters -/

/-- Counter knowledge of one end; `none` is no prior request or proposal. -/
structure MessageIdSyncCounters where
  nextSend : MessageId
  nextReceive : MessageId
  highestLocalRequest : Option MessageId
  highestPeerRequest : Option MessageId
  highestLocalProposal : Option MessageId
  highestPeerProposal : Option MessageId

structure MessageIdSyncPending where
  sa : MessageIdSyncSa
  notification : MessageIdSync

namespace MessageIdSyncPending

def fromPersisted (sa : MessageIdSyncSa) (notification : MessageIdSync) :
    Except MessageIdSyncRuleError MessageIdSyncPending := do
  refuseIf (notification.expectedSendReqMessageId = messageIdMax
    ∨ notification.expectedRecvReqMessageId = messageIdMax) .drop
  pure ⟨sa, notification⟩

/-- The proposed next outbound request. -/
abbrev send (pending : MessageIdSyncPending) : MessageId :=
  pending.notification.expectedSendReqMessageId

/-- The proposed next inbound request. -/
abbrev recv (pending : MessageIdSyncPending) : MessageId :=
  pending.notification.expectedRecvReqMessageId

end MessageIdSyncPending

namespace MessageIdSyncCounters

variable (counters : MessageIdSyncCounters)

def exhausted : MessageIdSyncRuleError :=
  if counters.highestLocalRequest = some messageIdMax then .closeIkeSa else .rekeyRequired

def after (highest : Option MessageId) : Except MessageIdSyncRuleError MessageId :=
  match highest with
  | none => .ok 0
  | some value => okOr value.checkedSucc counters.exhausted

def usable : Except MessageIdSyncRuleError MessageIdSyncCounters := do
  let usedSend ← counters.after counters.highestLocalRequest
  let sending : MessageIdSyncCounters :=
    { counters with
      nextSend := max (max counters.nextSend usedSend) (counters.highestLocalProposal.getD 0) }
  let usedReceive ← sending.after sending.highestPeerRequest
  let next : MessageIdSyncCounters :=
    { sending with
      nextReceive := max (max sending.nextReceive usedReceive)
        (sending.highestPeerProposal.getD 0) }
  -- the last representable ID is kept for a rekey attempt
  refuseIf (next.nextSend = messageIdMax ∨ next.nextReceive = messageIdMax) next.exhausted
  pure next

def withPending (sa : MessageIdSyncSa) :
    Option MessageIdSyncPending → Except MessageIdSyncRuleError MessageIdSyncCounters
  | none => .ok counters
  | some pending => do
    refuseIf (pending.sa ≠ sa
      ∨ counters.highestLocalProposal.any (fun highest => decide (pending.send < highest)) = true)
      .drop
    pure { counters with
      nextSend := max counters.nextSend pending.send
      nextReceive := max counters.nextReceive pending.recv
      highestLocalProposal := some (max (counters.highestLocalProposal.getD 0) pending.send) }

end MessageIdSyncCounters

namespace MessageIdSyncAgreement

variable (agreement : MessageIdSyncAgreement)

def propose (counters : MessageIdSyncCounters) (nonce : List.Vector Byte 4) :
    Except MessageIdSyncRuleError MessageIdSyncPending := do
  refuseIf (agreement.mode ≠ .negotiated) .drop
  let known ← counters.usable
  let beyond ← known.after known.highestLocalProposal
  let next ← { known with nextSend := max known.nextSend beyond }.usable
  pure ⟨agreement.sa, ⟨nonce, next.nextSend, next.nextReceive⟩⟩

/-- Exactly one sync Notify in an INFORMATIONAL message of Message ID zero. -/
def openedSync (header : Header) (payloads : PayloadChain) (response : Bool) :
    Except MessageIdSyncRuleError MessageIdSync := do
  refuseIf (agreement.mode ≠ .negotiated ∨ header.messageId ≠ 0) .drop
  agreement.sa.validatePeer header exchangeTypeInformational response
  match payloads with
  | [some payload] =>
    refuseIf (payload.payloadType ≠ .notify) .drop
    let notify ← (NotifyPayload.decodeBody payload.body).mapError fun _ => .drop
    let value ← (decodeMessageIdSyncNotify notify).mapError fun _ => .drop
    okOr value .drop
  | _ => .error .drop

def evaluateRequest (header : Header) (payloads : PayloadChain)
    (counters : MessageIdSyncCounters) (pending : Option MessageIdSyncPending) :
    Except MessageIdSyncRuleError (MessageIdSyncCounters × MessageIdSync) := do
  let request ← agreement.openedSync header payloads false
  let m1 := request.expectedSendReqMessageId
  refuseIf (counters.highestPeerRequest.any (fun seen => decide (m1 ≤ seen)) = true
    ∨ counters.highestPeerProposal.any (fun seen => decide (m1 ≤ seen)) = true) .drop
  let held ← counters.withPending agreement.sa pending
  let known ← held.usable
  let next ← { known with
    nextSend := max known.nextSend request.expectedRecvReqMessageId
    nextReceive := max known.nextReceive m1
    highestPeerProposal := some m1 }.usable
  pure (next, ⟨request.nonce, next.nextSend, next.nextReceive⟩)

def evaluateResponse (header : Header) (payloads : PayloadChain)
    (counters : MessageIdSyncCounters) (pending : MessageIdSyncPending) :
    Except MessageIdSyncRuleError MessageIdSyncCounters := do
  let response ← agreement.openedSync header payloads true
  refuseIf (pending.sa ≠ agreement.sa
    ∨ response.nonce ≠ pending.notification.nonce
    ∨ response.expectedSendReqMessageId < pending.recv
    ∨ response.expectedRecvReqMessageId < pending.send) .drop
  let held ← counters.withPending agreement.sa (some pending)
  let known ← held.usable
  { known with
    nextSend := max known.nextSend response.expectedRecvReqMessageId
    nextReceive := max known.nextReceive response.expectedSendReqMessageId }.usable

end MessageIdSyncAgreement

/-! ## What the rules compute -/

/-- The successor of the highest known ID, or zero. -/
def following (highest : Option MessageId) : MessageId :=
  (highest.bind MessageId.checkedSucc).getD 0

variable {pending : Option MessageIdSyncPending} {sa : MessageIdSyncSa}

namespace MessageIdSyncCounters

variable {counters next : MessageIdSyncCounters}

/-- All that is known of the send direction. -/
def sendFloor (counters : MessageIdSyncCounters) : MessageId :=
  max (max counters.nextSend (following counters.highestLocalRequest))
    (counters.highestLocalProposal.getD 0)

/-- All that is known of the receive direction. -/
def receiveFloor (counters : MessageIdSyncCounters) : MessageId :=
  max (max counters.nextReceive (following counters.highestPeerRequest))
    (counters.highestPeerProposal.getD 0)

/-- Successors exist, and neither floor is the last ID. -/
structure Usable (counters : MessageIdSyncCounters) : Prop where
  local_lt : ∀ id, counters.highestLocalRequest = some id →
    id < following counters.highestLocalRequest
  peer_lt : ∀ id, counters.highestPeerRequest = some id → id < following counters.highestPeerRequest
  send_ne_max : counters.sendFloor ≠ messageIdMax
  receive_ne_max : counters.receiveFloor ≠ messageIdMax

theorem after_eq_ok {highest : Option MessageId} (hafter : counters.after highest = .ok id) :
    id = following highest ∧ ∀ known, highest = some known → known < following highest := by
  cases highest with
  | none =>
    cases hafter
    exact ⟨rfl, by simp⟩
  | some value =>
    have hsucc : value.checkedSucc = some id := okOr_eq_ok.mp hafter
    have hfollowing : following (some value) = id := by simp [following, hsucc]
    refine ⟨hfollowing.symm, ?_⟩
    rintro known ⟨⟩
    rw [hfollowing]
    exact MessageId.lt_of_checkedSucc hsucc

/-- The floors become the counters; nothing else changes. -/
theorem usable_eq_ok (hok : counters.usable = .ok next) :
    next = { counters with
        nextSend := counters.sendFloor, nextReceive := counters.receiveFloor } ∧
      counters.Usable := by
  obtain ⟨_, hsend, hok⟩ := bind_eq_ok hok
  obtain ⟨_, hreceive, hok⟩ := bind_eq_ok hok
  obtain ⟨hmax, hok⟩ := refuseIf_bind hok
  obtain ⟨rfl, hlocal⟩ := after_eq_ok hsend
  obtain ⟨rfl, hpeer⟩ := after_eq_ok hreceive
  rw [not_or] at hmax
  cases hok
  exact ⟨rfl, hlocal, hpeer, hmax.1, hmax.2⟩

/-- A pending proposal is joined to both floors. -/
theorem withPending_floors {pending : MessageIdSyncPending}
    (hpending : counters.withPending sa (some pending) = .ok next) :
    next.sendFloor = max counters.sendFloor pending.send ∧
      next.receiveFloor = max counters.receiveFloor pending.recv := by
  obtain ⟨_, _, hpending⟩ := bind_eq_ok hpending
  cases hpending
  constructor
  · apply eq_of_forall_ge_iff
    simp only [sendFloor, Option.getD_some, max_le_iff]
    tauto
  · apply eq_of_forall_ge_iff
    simp only [receiveFloor, max_le_iff]
    tauto

theorem withPending_fields (hpending : counters.withPending sa pending = .ok next) :
    next.highestLocalRequest = counters.highestLocalRequest ∧
      next.highestPeerRequest = counters.highestPeerRequest ∧
      next.highestPeerProposal = counters.highestPeerProposal := by
  cases pending with
  | none =>
    cases hpending
    exact ⟨rfl, rfl, rfl⟩
  | some =>
    obtain ⟨_, _, hpending⟩ := bind_eq_ok hpending
    cases hpending
    exact ⟨rfl, rfl, rfl⟩

/-- The counters are the floors. -/
structure Level (counters : MessageIdSyncCounters) : Prop where
  send_eq : counters.sendFloor = counters.nextSend
  receive_eq : counters.receiveFloor = counters.nextReceive
  send_ne_max : counters.nextSend ≠ messageIdMax
  receive_ne_max : counters.nextReceive ≠ messageIdMax

theorem level_of_usable (husable : counters.usable = .ok next) : next.Level := by
  obtain ⟨rfl, hbounds⟩ := usable_eq_ok husable
  constructor
  · apply eq_of_forall_ge_iff
    simp only [sendFloor, max_le_iff]
    tauto
  · apply eq_of_forall_ge_iff
    simp only [receiveFloor, max_le_iff]
    tauto
  · exact hbounds.send_ne_max
  · exact hbounds.receive_ne_max

/-- Whatever is known of a highest ID stays known. -/
def Kept (old new : Option MessageId) : Prop :=
  ∀ id, old = some id → ∃ later, new = some later ∧ id ≤ later

theorem Kept.refl (highest : Option MessageId) : Kept highest highest :=
  fun id hid => ⟨id, hid, le_refl id⟩

/-- No counter is lowered. -/
structure Below (counters next : MessageIdSyncCounters) : Prop where
  send : counters.nextSend ≤ next.nextSend
  receive : counters.nextReceive ≤ next.nextReceive
  localRequest : Kept counters.highestLocalRequest next.highestLocalRequest
  peerRequest : Kept counters.highestPeerRequest next.highestPeerRequest
  localProposal : Kept counters.highestLocalProposal next.highestLocalProposal
  peerProposal : Kept counters.highestPeerProposal next.highestPeerProposal

theorem withPending_below (hpending : counters.withPending sa pending = .ok next) :
    counters.Below next := by
  cases pending with
  | none =>
    cases hpending
    exact ⟨le_refl _, le_refl _, .refl _, .refl _, .refl _, .refl _⟩
  | some =>
    obtain ⟨_, _, hpending⟩ := bind_eq_ok hpending
    cases hpending
    refine ⟨le_max_left _ _, le_max_left _ _, .refl _, .refl _, ?_, .refl _⟩
    intro _ hid
    simp [hid]

theorem nextSend_le_sendFloor : counters.nextSend ≤ counters.sendFloor :=
  le_max_of_le_left (le_max_left _ _)

theorem nextReceive_le_receiveFloor : counters.nextReceive ≤ counters.receiveFloor :=
  le_max_of_le_left (le_max_left _ _)

/-- The floor of a direction covers its counter, its requests and its proposals. -/
structure Covers (value : MessageId) (next : MessageId)
    (used proposed : Option MessageId) : Prop where
  next_le : next ≤ value
  used_lt : ∀ id, used = some id → id < value
  proposed_le : ∀ id, proposed = some id → id ≤ value

theorem Covers.mono {value larger next : MessageId} {used proposed : Option MessageId}
    (hcovers : Covers value next used proposed) (hle : value ≤ larger) :
    Covers larger next used proposed where
  next_le := hcovers.next_le.trans hle
  used_lt id hid := (hcovers.used_lt id hid).trans_le hle
  proposed_le id hid := (hcovers.proposed_le id hid).trans hle

theorem Usable.covers_send (husable : counters.Usable) :
    Covers counters.sendFloor counters.nextSend counters.highestLocalRequest
      counters.highestLocalProposal where
  next_le := nextSend_le_sendFloor
  used_lt id hid := (husable.local_lt id hid).trans_le (le_max_of_le_left (le_max_right _ _))
  proposed_le id hid := le_max_of_le_right (by simp [hid])

theorem Usable.covers_receive (husable : counters.Usable) :
    Covers counters.receiveFloor counters.nextReceive counters.highestPeerRequest
      counters.highestPeerProposal where
  next_le := nextReceive_le_receiveFloor
  used_lt id hid := (husable.peer_lt id hid).trans_le (le_max_of_le_left (le_max_right _ _))
  proposed_le id hid := le_max_of_le_right (by simp [hid])

end MessageIdSyncCounters

end PacketCore.Ikev2
