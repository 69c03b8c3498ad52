import PacketCore.Ikev2.MessageIdSync

/-!
# Agreement of a synchronization exchange

Two ends of one SA run a complete exchange: one proposes and the other answers,
or both propose and each answers the other's request before it reads its own
response.  Each direction has one value in the end, at least as large as all
that either end knew of it.
-/

namespace PacketCore.Ikev2

open MessageIdSyncCounters MessageIdSyncAgreement

/-! ## The rules as joins -/

namespace MessageIdSyncAgreement

variable {agreement : MessageIdSyncAgreement} {counters next : MessageIdSyncCounters}
  {header : Header} {payloads : PayloadChain} {nonce : List.Vector Byte 4}
  {proposal : MessageIdSyncPending} {pending : Option MessageIdSyncPending}
  {request response : MessageIdSync}

/-- A proposal covers everything its sender knows. -/
theorem propose_eq_ok (hok : agreement.propose counters nonce = .ok proposal) :
    counters.Usable ∧ counters.sendFloor ≤ proposal.send ∧
      (∀ id, counters.highestLocalProposal = some id → id < proposal.send) ∧
      proposal.recv = counters.receiveFloor := by
  obtain ⟨_, _, hok⟩ := bind_eq_ok hok
  obtain ⟨_, hknown, hok⟩ := bind_eq_ok hok
  obtain ⟨_, hbeyond, hok⟩ := bind_eq_ok hok
  obtain ⟨_, hnext, hok⟩ := bind_eq_ok hok
  obtain ⟨rfl, husable⟩ := usable_eq_ok hknown
  obtain ⟨rfl, hlast⟩ := after_eq_ok hbeyond
  obtain ⟨rfl, _⟩ := usable_eq_ok hnext
  cases hok
  refine ⟨husable, ?_, ?_, ?_⟩
  · exact le_max_of_le_left (le_max_of_le_left (le_max_left _ _))
  · intro id hid
    exact (hlast id hid).trans_le (le_max_of_le_left (le_max_of_le_left (le_max_right _ _)))
  · exact (level_of_usable hknown).receive_eq

/-- A message carries the notification it was built for. -/
theorem openedSync_payloads {value opened : MessageIdSync} {isResponse : Bool}
    (hopened : agreement.openedSync header value.payloads isResponse = .ok opened) :
    opened = value := by
  iterate 2 obtain ⟨_, _, hopened⟩ := bind_eq_ok hopened
  simp [MessageIdSync.payloads, refuseIf, MessageIdSync.decodeBody_notifyBody,
    MessageIdSync.decode_notify, Except.mapError, okOr] at hopened
  exact hopened.symm

/-- An answer joins the request to what the responder knows. -/
theorem evaluateRequest_eq_ok
    (hok : agreement.evaluateRequest header payloads counters pending = .ok (next, response)) :
    ∃ request held, agreement.openedSync header payloads false = .ok request ∧
      counters.withPending agreement.sa pending = .ok held ∧ held.Usable ∧ next.Level ∧
      next.nextSend = max held.sendFloor request.expectedRecvReqMessageId ∧
      next.nextReceive = max held.receiveFloor request.expectedSendReqMessageId ∧
      response = ⟨request.nonce, next.nextSend, next.nextReceive⟩ ∧
      counters.Below next := by
  obtain ⟨request, hrequest, hok⟩ := bind_eq_ok hok
  obtain ⟨hfresh, hok⟩ := refuseIf_bind hok
  obtain ⟨held, hheld, hok⟩ := bind_eq_ok hok
  obtain ⟨_, hknown, hok⟩ := bind_eq_ok hok
  obtain ⟨_, hjoined, hok⟩ := bind_eq_ok hok
  have hlevel := level_of_usable hjoined
  have hbelow := withPending_below hheld
  obtain ⟨rfl, husable⟩ := usable_eq_ok hknown
  obtain ⟨rfl, _⟩ := usable_eq_ok hjoined
  cases hok
  refine ⟨request, held, hrequest, hheld, husable, hlevel, ?_, ?_, rfl, ?_⟩
  · apply eq_of_forall_ge_iff
    simp only [sendFloor, max_le_iff]
    tauto
  · apply eq_of_forall_ge_iff
    intro _
    simp only [receiveFloor, max_le_iff]
    tauto
  · refine ⟨?_, ?_, hbelow.localRequest, hbelow.peerRequest, hbelow.localProposal, ?_⟩
    · exact (hbelow.send.trans nextSend_le_sendFloor).trans
        (le_max_of_le_left (le_max_of_le_left (le_max_left _ _)))
    · exact (hbelow.receive.trans nextReceive_le_receiveFloor).trans
        (le_max_of_le_left (le_max_of_le_left (le_max_left _ _)))
    · intro _ hid
      rw [not_or] at hfresh
      refine ⟨_, rfl, le_of_lt ?_⟩
      simpa [hid] using hfresh.2

/-- An adopted response is joined to the proposal and to what its sender knows. -/
theorem evaluateResponse_eq_ok
    (hok : agreement.evaluateResponse header payloads counters proposal = .ok next) :
    ∃ response, agreement.openedSync header payloads true = .ok response ∧ next.Level ∧
      next.nextSend = max (max counters.sendFloor proposal.send) response.expectedRecvReqMessageId ∧
      next.nextReceive = max (max counters.receiveFloor proposal.recv)
        response.expectedSendReqMessageId ∧
      counters.Below next := by
  obtain ⟨response, hresponse, hok⟩ := bind_eq_ok hok
  obtain ⟨_, _, hok⟩ := bind_eq_ok hok
  obtain ⟨_, hheld, hok⟩ := bind_eq_ok hok
  obtain ⟨_, hknown, hok⟩ := bind_eq_ok hok
  have hlevel := level_of_usable hok
  have hbelow := withPending_below hheld
  obtain ⟨hsend, hreceive⟩ := withPending_floors hheld
  obtain ⟨rfl, _⟩ := usable_eq_ok hknown
  obtain ⟨rfl, _⟩ := usable_eq_ok hok
  refine ⟨response, hresponse, hlevel, ?_, ?_, ?_⟩
  · rw [← hsend]
    apply eq_of_forall_ge_iff
    simp only [sendFloor, max_le_iff]
    tauto
  · rw [← hreceive]
    apply eq_of_forall_ge_iff
    simp only [receiveFloor, max_le_iff]
    tauto
  · refine ⟨?_, ?_, hbelow.localRequest, hbelow.peerRequest,
      hbelow.localProposal, hbelow.peerProposal⟩
    · exact (hbelow.send.trans nextSend_le_sendFloor).trans
        (le_max_of_le_left (le_max_of_le_left (le_max_left _ _)))
    · exact (hbelow.receive.trans nextReceive_le_receiveFloor).trans
        (le_max_of_le_left (le_max_of_le_left (le_max_left _ _)))

end MessageIdSyncAgreement

/-! ## Complete exchanges -/

/-- The counters of an end whose proposal is recorded. -/
def MessageIdSyncCounters.proposed (counters : MessageIdSyncCounters)
    (proposal : MessageIdSyncPending) : MessageIdSyncCounters :=
  { counters with
    nextSend := proposal.send
    nextReceive := proposal.recv
    highestLocalProposal := some proposal.send }

/-- The counters an end evaluates with while its proposal is pending: those it
proposed from, or those recorded with the proposal. -/
inductive Holds (counters : MessageIdSyncCounters) (proposal : MessageIdSyncPending) :
    MessageIdSyncCounters → Prop
  | unrecorded : Holds counters proposal counters
  | recorded : Holds counters proposal (counters.proposed proposal)

/-- One complete exchange between the ends `a` and `b`, from their counters to
those they adopt.  The index of type `Option` is an older proposal that `b` has
pending when it answers. -/
inductive Exchange (a b : MessageIdSyncAgreement) (ofA ofB : MessageIdSyncCounters) :
    Option MessageIdSyncPending → MessageIdSyncCounters → MessageIdSyncCounters → Prop
  /-- `a` proposes, `b` answers, `a` reads the response. -/
  | answered {nonce : List.Vector Byte 4} {proposal : MessageIdSyncPending}
      {pending : Option MessageIdSyncPending}
      {heldA left right : MessageIdSyncCounters} {response : MessageIdSync}
      (hpropose : a.propose ofA nonce = .ok proposal)
      (hholds : Holds ofA proposal heldA)
      (hanswer : b.evaluateRequest (a.sa.syncHeader false) proposal.notification.payloads ofB
        pending = .ok (right, response))
      (hadopt : a.evaluateResponse (b.sa.syncHeader true) response.payloads heldA proposal =
        .ok left) :
      Exchange a b ofA ofB pending left right
  /-- Both propose, each answers the other's request, then each reads its response. -/
  | crossed {nonceA nonceB : List.Vector Byte 4} {proposalA proposalB : MessageIdSyncPending}
      {heldA heldB answeredA answeredB left right : MessageIdSyncCounters}
      {responseA responseB : MessageIdSync}
      (hproposeA : a.propose ofA nonceA = .ok proposalA)
      (hproposeB : b.propose ofB nonceB = .ok proposalB)
      (hholdsA : Holds ofA proposalA heldA)
      (hholdsB : Holds ofB proposalB heldB)
      (hanswerA : a.evaluateRequest (b.sa.syncHeader false) proposalB.notification.payloads heldA
        (some proposalA) = .ok (answeredA, responseA))
      (hanswerB : b.evaluateRequest (a.sa.syncHeader false) proposalA.notification.payloads heldB
        (some proposalB) = .ok (answeredB, responseB))
      (hadoptA : a.evaluateResponse (b.sa.syncHeader true) responseB.payloads answeredA
        proposalA = .ok left)
      (hadoptB : b.evaluateResponse (a.sa.syncHeader true) responseA.payloads answeredB
        proposalB = .ok right) :
      Exchange a b ofA ofB none left right

/-- The outcome of an exchange: one value for each direction, covering all that
either end knew of it. -/
structure Synchronized (ofA ofB : MessageIdSyncCounters) (pending : Option MessageIdSyncPending)
    (left right : MessageIdSyncCounters) : Prop where
  send_eq : left.nextSend = right.nextReceive
  receive_eq : left.nextReceive = right.nextSend
  send_covers : Covers left.nextSend ofA.nextSend ofA.highestLocalRequest ofA.highestLocalProposal
  send_covers_peer :
    Covers left.nextSend ofB.nextReceive ofB.highestPeerRequest ofB.highestPeerProposal
  receive_covers :
    Covers left.nextReceive ofA.nextReceive ofA.highestPeerRequest ofA.highestPeerProposal
  receive_covers_peer :
    Covers left.nextReceive ofB.nextSend ofB.highestLocalRequest ofB.highestLocalProposal
  pending_le : ∀ older, pending = some older →
    older.send ≤ right.nextSend ∧ older.recv ≤ right.nextReceive
  send_ne_max : left.nextSend ≠ messageIdMax
  receive_ne_max : left.nextReceive ≠ messageIdMax

variable {a b : MessageIdSyncAgreement}
  {ofA ofB held left right : MessageIdSyncCounters} {nonce : List.Vector Byte 4}
  {proposal : MessageIdSyncPending} {pending : Option MessageIdSyncPending}

/-- A pending proposal is the most that its sender knows. -/
theorem Holds.floors (hpropose : a.propose ofA nonce = .ok proposal)
    (hholds : Holds ofA proposal held) :
    max held.sendFloor proposal.send = proposal.send ∧
      max held.receiveFloor proposal.recv = proposal.recv := by
  obtain ⟨_, hsend, _, hrecv⟩ := propose_eq_ok hpropose
  simp only [max_eq_right_iff]
  cases hholds with
  | unrecorded => exact ⟨hsend, hrecv.ge⟩
  | recorded =>
    have hused : following ofA.highestLocalRequest ≤ proposal.send :=
      (le_max_of_le_left (le_max_right _ _)).trans hsend
    have hseen : following ofA.highestPeerRequest ≤ proposal.recv :=
      (le_max_of_le_left (le_max_right _ _)).trans hrecv.ge
    have haccepted : ofA.highestPeerProposal.getD 0 ≤ proposal.recv :=
      (le_max_right _ _).trans hrecv.ge
    exact ⟨max_le (max_le le_rfl hused) le_rfl, max_le (max_le le_rfl hseen) haccepted⟩

/-- What an end answers with covers what it knew before. -/
theorem covers_of_withPending {sa : MessageIdSyncSa}
    (hpending : ofB.withPending sa pending = .ok held) (husable : held.Usable) :
    Covers held.sendFloor ofB.nextSend ofB.highestLocalRequest ofB.highestLocalProposal ∧
      Covers held.receiveFloor ofB.nextReceive ofB.highestPeerRequest ofB.highestPeerProposal := by
  obtain ⟨hlocal, hpeer, hproposal⟩ := withPending_fields hpending
  have hbelow := withPending_below hpending
  have hsend := husable.covers_send
  have hreceive := husable.covers_receive
  rw [hlocal] at hsend
  rw [hpeer, hproposal] at hreceive
  refine ⟨⟨hbelow.send.trans hsend.next_le, hsend.used_lt, ?_⟩,
    ⟨hbelow.receive.trans hreceive.next_le, hreceive.used_lt, hreceive.proposed_le⟩⟩
  intro id hid
  obtain ⟨_, hlater, hle⟩ := hbelow.localProposal id hid
  exact hle.trans (hsend.proposed_le _ hlater)

variable {response : MessageIdSync} {answered : MessageIdSyncCounters}
  {other : MessageIdSyncPending}

/-- A plain exchange agrees. -/
theorem synchronized_of_answered (hpropose : a.propose ofA nonce = .ok proposal)
    (hholds : Holds ofA proposal held)
    (hanswer : b.evaluateRequest (a.sa.syncHeader false) proposal.notification.payloads ofB
      pending = .ok (right, response))
    (hadopt : a.evaluateResponse (b.sa.syncHeader true) response.payloads held proposal =
      .ok left) : Synchronized ofA ofB pending left right := by
  obtain ⟨hsend, hrecv⟩ := hholds.floors hpropose
  obtain ⟨husable, hproposed, _, hexpected⟩ := propose_eq_ok hpropose
  obtain ⟨_, _, hrequest, hheldB, husableB, hlevel, hsendB, hreceiveB, rfl, _⟩ :=
    evaluateRequest_eq_ok hanswer
  obtain ⟨_, hopened, _, hsendA, hreceiveA, _⟩ :=
    evaluateResponse_eq_ok hadopt
  obtain rfl := openedSync_payloads hrequest
  obtain rfl := openedSync_payloads hopened
  obtain ⟨hcoversSend, hcoversReceive⟩ := covers_of_withPending hheldB husableB
  have hforward : proposal.send ≤ right.nextReceive := by
    rw [hreceiveB]
    exact le_max_right _ _
  have hbackward : proposal.recv ≤ right.nextSend := by
    rw [hsendB]
    exact le_max_right _ _
  have hsendEq : left.nextSend = right.nextReceive := by
    rw [hsendA, hsend]
    exact max_eq_right hforward
  have hreceiveEq : left.nextReceive = right.nextSend := by
    rw [hreceiveA, hrecv]
    exact max_eq_right hbackward
  constructor
  · exact hsendEq
  · exact hreceiveEq
  · rw [hsendEq]
    exact husable.covers_send.mono (hproposed.trans hforward)
  · rw [hsendEq, hreceiveB]
    exact hcoversReceive.mono (le_max_left _ _)
  · rw [hreceiveEq]
    exact husable.covers_receive.mono (hexpected.ge.trans hbackward)
  · rw [hreceiveEq, hsendB]
    exact hcoversSend.mono (le_max_left _ _)
  · rintro _ rfl
    obtain ⟨holderSend, holderRecv⟩ := withPending_floors hheldB
    rw [hsendB, hreceiveB, holderSend, holderRecv]
    exact ⟨le_max_of_le_left (le_max_right _ _), le_max_of_le_left (le_max_right _ _)⟩
  · rw [hsendEq]
    exact hlevel.receive_ne_max
  · rw [hreceiveEq]
    exact hlevel.send_ne_max

/-- An end with a proposal of its own answers with the join of the two. -/
theorem answered_of_crossed (hpropose : a.propose ofA nonce = .ok proposal)
    (hholds : Holds ofA proposal held)
    (hanswer : a.evaluateRequest (b.sa.syncHeader false) other.notification.payloads held
      (some proposal) = .ok (answered, response)) :
    answered.Level ∧ answered.nextSend = max proposal.send other.recv ∧
      answered.nextReceive = max proposal.recv other.send ∧
      response = ⟨other.notification.nonce, answered.nextSend, answered.nextReceive⟩ := by
  obtain ⟨hsend, hrecv⟩ := hholds.floors hpropose
  obtain ⟨_, _, hrequest, hjoined, _, hlevel, hsendEq, hreceiveEq, rfl, _⟩ :=
    evaluateRequest_eq_ok hanswer
  obtain rfl := openedSync_payloads hrequest
  obtain ⟨hsendJoined, hreceiveJoined⟩ := withPending_floors hjoined
  rw [hsendJoined, hsend] at hsendEq
  rw [hreceiveJoined, hrecv] at hreceiveEq
  exact ⟨hlevel, hsendEq, hreceiveEq, rfl⟩

/-- The response to its own proposal adds nothing to it. -/
theorem adopted_of_crossed (hlevel : answered.Level)
    (hsend : answered.nextSend = max proposal.send other.recv)
    (hreceive : answered.nextReceive = max proposal.recv other.send)
    (hresponseSend : response.expectedSendReqMessageId = max other.send proposal.recv)
    (hresponseRecv : response.expectedRecvReqMessageId = max other.recv proposal.send)
    (hadopt : a.evaluateResponse (b.sa.syncHeader true) response.payloads answered proposal =
      .ok left) :
    left.Level ∧ left.nextSend = max proposal.send other.recv ∧
      left.nextReceive = max proposal.recv other.send := by
  obtain ⟨_, hopened, hleft, hsendEq, hreceiveEq, _⟩ :=
    evaluateResponse_eq_ok hadopt
  obtain rfl := openedSync_payloads hopened
  refine ⟨hleft, ?_, ?_⟩
  · rw [hsendEq, hlevel.send_eq, hsend, hresponseRecv]
    apply eq_of_forall_ge_iff
    simp only [max_le_iff]
    tauto
  · rw [hreceiveEq, hlevel.receive_eq, hreceive, hresponseSend]
    apply eq_of_forall_ge_iff
    simp only [max_le_iff]
    tauto

/-- A complete exchange agrees, in either order. -/
theorem Exchange.synchronized (hexchange : Exchange a b ofA ofB pending left right) :
    Synchronized ofA ofB pending left right := by
  cases hexchange with
  | answered hpropose hholds hanswer hadopt =>
    exact synchronized_of_answered hpropose hholds hanswer hadopt
  | @crossed _ _ proposalA proposalB _ _ answeredA answeredB _ _ _ _ hproposeA hproposeB hholdsA
      hholdsB hanswerA hanswerB hadoptA hadoptB =>
      obtain ⟨husableA, hsendA, _, hrecvA⟩ := propose_eq_ok hproposeA
      obtain ⟨husableB, hsendB, _, hrecvB⟩ := propose_eq_ok hproposeB
      obtain ⟨hlevelA, hsentA, hreceivedA, rfl⟩ := answered_of_crossed hproposeA hholdsA hanswerA
      obtain ⟨hlevelB, hsentB, hreceivedB, rfl⟩ := answered_of_crossed hproposeB hholdsB hanswerB
      obtain ⟨hleft, hleftSend, hleftReceive⟩ :=
        adopted_of_crossed hlevelA hsentA hreceivedA hsentB hreceivedB hadoptA
      obtain ⟨_, hrightSend, hrightReceive⟩ :=
        adopted_of_crossed hlevelB hsentB hreceivedB hsentA hreceivedA hadoptB
      constructor
      · rw [hleftSend, hrightReceive, max_comm]
      · rw [hleftReceive, hrightSend, max_comm]
      · rw [hleftSend]
        exact husableA.covers_send.mono (le_max_of_le_left hsendA)
      · rw [hleftSend]
        exact husableB.covers_receive.mono (le_max_of_le_right hrecvB.ge)
      · rw [hleftReceive]
        exact husableA.covers_receive.mono (le_max_of_le_left hrecvA.ge)
      · rw [hleftReceive]
        exact husableB.covers_send.mono (le_max_of_le_right hsendB)
      · simp
      · exact hleft.send_ne_max
      · exact hleft.receive_ne_max

/-- Every complete exchange synchronizes the two ends, whether one proposes or both
do, and no sync message, from whatever exchange, lowers a counter. -/
theorem sync_agrees :
    (∀ (a b : MessageIdSyncAgreement) (ofA ofB left right : MessageIdSyncCounters)
      (pending : Option MessageIdSyncPending), Exchange a b ofA ofB pending left right →
        Synchronized ofA ofB pending left right) ∧
    (∀ (agreement : MessageIdSyncAgreement) (header : Header)
      (payloads : PayloadChain) (counters next : MessageIdSyncCounters)
      (pending : Option MessageIdSyncPending) (response : MessageIdSync),
      agreement.evaluateRequest header payloads counters pending = .ok (next, response) →
        counters.Below next) ∧
    (∀ (agreement : MessageIdSyncAgreement) (header : Header) (payloads : PayloadChain)
      (counters next : MessageIdSyncCounters) (proposal : MessageIdSyncPending),
      agreement.evaluateResponse header payloads counters proposal = .ok next →
        counters.Below next) := by
  refine ⟨fun _ _ _ _ _ _ _ hexchange => hexchange.synchronized, ?_, ?_⟩
  · intro _ _ _ _ _ _ _ heval
    obtain ⟨_, _, _, _, _, _, _, _, _, hbelow⟩ :=
      evaluateRequest_eq_ok heval
    exact hbelow
  · intro _ _ _ _ _ _ heval
    obtain ⟨_, _, _, _, _, hbelow⟩ := evaluateResponse_eq_ok heval
    exact hbelow

namespace Sample

/-- The ends of one SA. -/
def initiatorEnd : MessageIdSyncAgreement :=
  ⟨⟨1, 2, .initiator, by decide, by decide⟩, .negotiated⟩

def responderEnd : MessageIdSyncAgreement :=
  ⟨⟨1, 2, .responder, by decide, by decide⟩, .negotiated⟩

/-- The initiator has request 8 outstanding. -/
def initiatorCounters : MessageIdSyncCounters := ⟨7, 3, some 8, some 2, none, none⟩

def responderCounters : MessageIdSyncCounters := ⟨5, 6, some 4, some 6, some 5, none⟩

def initiatorProposal : MessageIdSyncPending :=
  ⟨initiatorEnd.sa, ⟨⟨[1, 2, 3, 4], rfl⟩, 9, 3⟩⟩

def responderProposal : MessageIdSyncPending :=
  ⟨responderEnd.sa, ⟨⟨[5, 6, 7, 8], rfl⟩, 6, 7⟩⟩

def initiatorAdopts : MessageIdSyncCounters := ⟨9, 6, some 8, some 2, some 9, some 6⟩

def responderAdopts : MessageIdSyncCounters := ⟨6, 9, some 4, some 6, some 6, some 9⟩

end Sample

open Sample in
/-- Both ends propose, and the two requests cross. -/
theorem sync_agrees_sample :
    Exchange initiatorEnd responderEnd initiatorCounters responderCounters none initiatorAdopts
        responderAdopts ∧
      Synchronized initiatorCounters responderCounters none initiatorAdopts responderAdopts := by
  have hexchange : Exchange initiatorEnd responderEnd initiatorCounters responderCounters none
      initiatorAdopts responderAdopts :=
    .crossed (show initiatorEnd.propose initiatorCounters ⟨[1, 2, 3, 4], rfl⟩ =
        .ok initiatorProposal from rfl)
      (show responderEnd.propose responderCounters ⟨[5, 6, 7, 8], rfl⟩ =
        .ok responderProposal from rfl)
      .unrecorded .recorded
      (show _ = Except.ok (initiatorAdopts, ⟨⟨[5, 6, 7, 8], rfl⟩, 9, 6⟩) from rfl)
      (show _ = Except.ok (responderAdopts, ⟨⟨[1, 2, 3, 4], rfl⟩, 6, 9⟩) from rfl) rfl rfl
  exact ⟨hexchange, sync_agrees.1 _ _ _ _ _ _ _ hexchange⟩

end PacketCore.Ikev2
