import PacketCore.Library.Loop
import PacketCore.Library.Tally

/-!
# The linearizable read barrier

Concurrent `admit` calls share one worker, one lease proof and the retirement
switch.  A step of a call is one access to shared data (the clock, the metrics
watch, the proof, the switch, the semaphore or the request channel), so calls
interleave between any two of them.
-/

namespace PacketCore.Consensus

inductive ServerState
  | learner
  | follower
  | candidate
  | leader
  | shutdown
  deriving DecidableEq

structure LogId (ν : Type) where
  leaderId : ℕ × ν
  index : ℕ

structure RaftMetrics (ν : Type) where
  running : Bool
  state : ServerState
  currentLeader : Option ν
  currentTerm : ℕ
  lastApplied : Option (LogId ν)
  millisSinceQuorumAck : Option ℕ

inductive EnsureLinearizableOutcome (ν : Type)
  | ready (readLogId : Option (LogId ν))
  | retry (leaderHint : Option ν)
  | unavailable

inductive ReadBarrierError (ν : Type)
  | notLeader (leader : Option ν)
  | unavailable

inductive ReadLease
  | disabled
  | enabled
  deriving DecidableEq

/-- The smaller of the heartbeat interval and the read-barrier deadline. -/
def leaderLeaseMillis : ℕ := min 2000 10000

/-- In nanoseconds, as the clock. -/
def leaderLease : ℕ := leaderLeaseMillis * 1000000

/-- The last three fields are history: when the round was requested, which check answered it, and
the metrics that its requester saw. -/
structure LeaderLeaseProof (ν : Type) where
  term : ℕ
  readLogId : Option (LogId ν)
  expiresAt : ℕ
  requestedAt : ℕ
  check : ℕ
  observed : RaftMetrics ν

/-- What a successful call rests on. -/
inductive Route (ν : Type)
  | round (check : ℕ)
  | lease (proof : LeaderLeaseProof ν) (decidedAt : ℕ)

/-- A successful call, with the last metrics it read. -/
structure Admission (ν : Type) where
  readLogId : Option (LogId ν)
  term : ℕ
  final : RaftMetrics ν
  route : Route ν

/-- A look at a lease.  The second look has the read log index that was waited for. -/
structure LeaseLook (ν : Type) where
  proof : LeaderLeaseProof ν
  metrics : RaftMetrics ν
  waited : Option (Option (LogId ν))

/-- The ready outcome of a check, as it reaches a caller. -/
structure Reply (ν : Type) where
  requestedAt : ℕ
  check : ℕ
  readLogId : Option (LogId ν)

/-- Where a call stands. -/
inductive Phase (ν : Type)
  | started
  | loadLease
  | leaseMetrics (proof : LeaderLeaseProof ν) (waited : Option (Option (LogId ν)))
  | leaseFlag (look : LeaseLook ν)
  | leaseClock (look : LeaseLook ν)
  | leaseSignals (look : LeaseLook ν) (decidedAt : ℕ)
  | leaseWait (proof : LeaderLeaseProof ν) (readLogId : Option (LogId ν))
  | stamping
  | acquiring (requestedAt : ℕ)
  | sending (requestedAt : ℕ)
  | awaiting (requestedAt channel : ℕ)
  | readyMetrics (reply : Reply ν)
  | readySignals (reply : Reply ν) (metrics : RaftMetrics ν)
  | remembering (reply : Reply ν) (metrics : RaftMetrics ν) (term : ℕ)
  | roundWait (reply : Reply ν) (term : ℕ)
  | roundMetrics (reply : Reply ν) (term : ℕ)
  | roundSignals (reply : Reply ν) (term : ℕ) (metrics : RaftMetrics ν)
  | deciding (admission : Admission ν)
  | forgetting (error : ReadBarrierError ν)
  | failed (error : ReadBarrierError ν)
  | admitted (admission : Admission ν)

/-- What there was when a call began: the number of checks started, the metrics shown last, the
clock and the retirement switch.  All four are history. -/
structure Entry where
  begun : ℕ
  since : ℕ
  beganAt : ℕ
  retired : Bool

structure Call (ν : Type) where
  deadline : ℕ
  phase : Phase ν
  entry : Entry

/-- A cohort is a list of reply channels. -/
inductive Worker (ν : Type)
  | idle
  | checking (check : ℕ) (cohort : List ℕ)
  | answering (check : ℕ) (outcome : EnsureLinearizableOutcome ν) (cohort : List ℕ)

def Worker.cohort {ν : Type} : Worker ν → List ℕ
  | .idle => []
  | .checking _ cohort => cohort
  | .answering _ _ cohort => cohort

/-- What every call can observe.  The last five fields are history: the clock at the start of each
check, the outcomes of the finished ones with the metrics shown last at that time, what each
request asked for, all metrics shown with the clock at that time, and whether these ever took an
applied index back. -/
structure Shared (ν : Type) where
  localNodeId : ν
  now : ℕ
  metrics : RaftMetrics ν
  leaseReuseDisabled : Bool
  started : List ℕ
  finished : List (EnsureLinearizableOutcome ν × ℕ)
  asked : List (ℕ × ℕ)
  shown : List (ℕ × RaftMetrics ν)
  regressed : Bool

structure Barrier (ν : Type) extends Shared ν where
  lease : ReadLease
  capacity : ℕ
  closed : Bool
  leaseProof : Option (LeaderLeaseProof ν)
  permits : ℕ
  queue : List ℕ
  worker : Worker ν
  replies : Table ℕ (ℕ × EnsureLinearizableOutcome ν)
  calls : Table ℕ (Call ν)

variable {ν : Type}

def Barrier.setCall (barrier : Barrier ν) (id : ℕ) (call : Call ν) : Barrier ν :=
  { barrier with calls := barrier.calls.insert id call }

def laterLogId : Option (LogId ν) → Option (LogId ν) → Option (LogId ν)
  | some left, some right => if left.index < right.index then some right else some left
  | some left, none => some left
  | none, right => right

/-- The local state machine has applied through the read log index. -/
def RaftMetrics.reached (metrics : RaftMetrics ν) : Option (LogId ν) → Bool
  | none => true
  | some logId => metrics.lastApplied.any fun applied => logId.index ≤ applied.index

/-- The permits that a call holds itself; a request that was sent carries its own. -/
def Call.holding (call : Call ν) : ℕ :=
  match call.phase with
  | .sending _ => 1
  | _ => 0

def Barrier.new (localNodeId : ν) (lease : ReadLease) (capacity : ℕ)
    (metrics : RaftMetrics ν) : Barrier ν :=
  { localNodeId := localNodeId, lease := lease, capacity := capacity, now := 0
    metrics := metrics, closed := false, leaseReuseDisabled := false
    leaseProof := none, permits := capacity, queue := [], worker := .idle, replies := .empty
    calls := .empty, started := [], finished := [], asked := [], shown := [(0, metrics)]
    regressed := false }

section Steps

variable [DecidableEq ν] (barrier : Barrier ν) (call : Call ν)

def localLeaderTerm (metrics : RaftMetrics ν) : Except (ReadBarrierError ν) ℕ :=
  if barrier.closed ∨ metrics.running = false then .error .unavailable
  else if metrics.state ≠ .leader ∨ metrics.currentLeader ≠ some barrier.localNodeId then
    .error (.notLeader metrics.currentLeader)
  else .ok metrics.currentTerm

def requireSameLocalLeader (metrics : RaftMetrics ν) (term : ℕ) :
    Except (ReadBarrierError ν) Unit := do
  let currentTerm ← localLeaderTerm barrier metrics
  if currentTerm ≠ term then .error .unavailable else .ok ()

/-- One turn of the loop that waits for the local state machine. -/
def waitForAppliedIndex (readLogId : Option (LogId ν)) (next : Phase ν) : Phase ν :=
  if barrier.metrics.reached readLogId then next
  else if call.deadline ≤ barrier.now ∨ barrier.closed then .failed .unavailable
  else call.phase

/-- The next phase of an `admit` call. -/
def admitStep : Phase ν :=
  match call.phase with
  | .started =>
    if call.deadline ≤ barrier.now then .failed .unavailable
    else if barrier.lease = .enabled then .loadLease else .stamping
  | .loadLease =>
    match barrier.leaseProof with
    | none => .stamping
    | some proof => .leaseMetrics proof none
  | .leaseMetrics proof waited => .leaseFlag ⟨proof, barrier.metrics, waited⟩
  | .leaseFlag look => if barrier.leaseReuseDisabled then .stamping else .leaseClock look
  | .leaseClock look =>
    if look.proof.expiresAt ≤ barrier.now then .stamping else .leaseSignals look barrier.now
  | .leaseSignals look decidedAt =>
    match requireSameLocalLeader barrier look.metrics look.proof.term with
    | .error _ => .stamping
    | .ok () =>
      if look.metrics.millisSinceQuorumAck.any (· ≤ leaderLeaseMillis) then
        match look.waited with
        | none =>
          .leaseWait look.proof (laterLogId look.proof.readLogId look.metrics.lastApplied)
        | some readLogId =>
          .deciding ⟨readLogId, look.proof.term, look.metrics, .lease look.proof decidedAt⟩
      else .stamping
  | .leaseWait proof readLogId =>
    waitForAppliedIndex barrier call readLogId (.leaseMetrics proof (some readLogId))
  -- The deadline that `request_check` reads next also ends the wait for a permit.
  | .stamping =>
    if call.deadline ≤ barrier.now then .forgetting .unavailable else .acquiring barrier.now
  | .acquiring requestedAt => if barrier.permits = 0 then call.phase else .sending requestedAt
  | .sending requestedAt =>
    if barrier.queue.length < barrier.capacity then .awaiting requestedAt barrier.asked.length
    else call.phase
  | .awaiting requestedAt channel =>
    match barrier.replies.find channel with
    | none => call.phase
    | some (check, .ready readLogId) => .readyMetrics ⟨requestedAt, check, readLogId⟩
    | some (_, .retry leaderHint) => .forgetting (.notLeader leaderHint)
    | some (_, .unavailable) => .forgetting .unavailable
  | .readyMetrics reply => .readySignals reply barrier.metrics
  | .readySignals reply metrics =>
    match localLeaderTerm barrier metrics with
    | .error error => .failed error
    | .ok term => .remembering reply metrics term
  | .remembering reply _ term => .roundWait reply term
  | .roundWait reply term =>
    waitForAppliedIndex barrier call reply.readLogId (.roundMetrics reply term)
  | .roundMetrics reply term => .roundSignals reply term barrier.metrics
  | .roundSignals reply term metrics =>
    match requireSameLocalLeader barrier metrics term with
    | .error error => .failed error
    | .ok () => .deciding ⟨reply.readLogId, term, metrics, .round reply.check⟩
  | .deciding admission =>
    if call.deadline ≤ barrier.now then .failed .unavailable else .admitted admission
  | .forgetting error => .failed error
  | .failed error => .failed error
  | .admitted admission => .admitted admission

/-- What a step of a call does to the shared data. -/
def effect : Barrier ν :=
  match call.phase with
  | .acquiring _ => { barrier with permits := barrier.permits - 1 }
  | .sending requestedAt =>
    if barrier.queue.length < barrier.capacity then
      { barrier with
        queue := barrier.queue ++ [barrier.asked.length]
        asked := barrier.asked ++ [(call.entry.begun, requestedAt)] }
    else barrier
  | .remembering reply metrics term =>
    -- The switch is read under the lock of the proof.
    if barrier.lease = .enabled ∧ barrier.leaseReuseDisabled = false then
      { barrier with
        leaseProof := some ⟨term, reply.readLogId, reply.requestedAt + leaderLease,
          reply.requestedAt, reply.check, metrics⟩ }
    else barrier
  | .forgetting _ => { barrier with leaseProof := none }
  | _ => barrier

end Steps

inductive Action (ν : Type)
  | begin (id deadline : ℕ)
  | advance (id : ℕ)
  | lapse (id : ℕ)
  | cancel (id : ℕ)
  | tick (elapsed : ℕ)
  | publish (metrics : RaftMetrics ν)
  | close
  | disableLeaseReuse
  | forgetLease
  | receive
  | finish (outcome : EnsureLinearizableOutcome ν)
  | answer

/-- The phase after a wait on the supervisor that the deadline ended. -/
def Phase.lapsed : Phase ν → Option (Phase ν)
  | .acquiring _ | .sending _ | .awaiting _ _ => some (.forgetting .unavailable)
  | _ => none

/-- An applied index that was shown is not shown any more. -/
def RaftMetrics.regresses (before after : RaftMetrics ν) : Bool :=
  !after.reached before.lastApplied

def step [DecidableEq ν] (barrier : Barrier ν) : Action ν → Barrier ν
  | .begin id deadline =>
    if barrier.calls.find id = none then
      barrier.setCall id ⟨deadline, .started,
        ⟨barrier.started.length, barrier.shown.length - 1, barrier.now,
          barrier.leaseReuseDisabled⟩⟩
    else barrier
  | .advance id =>
    match barrier.calls.find id with
    | none => barrier
    | some call =>
      (effect barrier call).setCall id { call with phase := admitStep barrier call }
  | .lapse id =>
    match barrier.calls.find id with
    | none => barrier
    | some call =>
      match call.phase.lapsed with
      | none => barrier
      | some phase =>
        if call.deadline ≤ barrier.now then
          { barrier with permits := barrier.permits + call.holding }.setCall id
            { call with phase := phase }
        else barrier
  | .cancel id =>
    match barrier.calls.find id with
    | none => barrier
    | some call =>
      { barrier with
        permits := barrier.permits + call.holding
        calls := barrier.calls.erase id }
  | .tick elapsed => { barrier with now := barrier.now + elapsed }
  | .publish metrics =>
    { barrier with
      metrics := metrics
      shown := barrier.shown ++ [(barrier.now, metrics)]
      regressed := barrier.regressed || barrier.metrics.regresses metrics }
  | .close => { barrier with closed := true }
  | .disableLeaseReuse => { barrier with leaseReuseDisabled := true }
  | .forgetLease => { barrier with leaseProof := none }
  -- The check starts with no await after its cohort was taken.
  | .receive =>
    match barrier.worker, barrier.queue with
    | .idle, _ :: _ =>
      { barrier with
        queue := barrier.queue.drop barrier.capacity
        worker := .checking barrier.started.length (barrier.queue.take barrier.capacity)
        started := barrier.started ++ [barrier.now] }
    | _, _ => barrier
  | .finish outcome =>
    match barrier.worker with
    | .checking check cohort =>
      { barrier with
        worker := .answering check outcome cohort
        finished := barrier.finished ++ [(outcome, barrier.shown.length - 1)] }
    | _ => barrier
  | .answer =>
    match barrier.worker with
    | .answering _ _ [] => { barrier with worker := .idle }
    | .answering check outcome (channel :: cohort) =>
      { barrier with
        worker := .answering check outcome cohort
        permits := barrier.permits + 1
        replies := barrier.replies.insert channel (check, outcome) }
    | _ => barrier

/-- Actions one after the other. -/
def run [DecidableEq ν] (barrier : Barrier ν) (actions : List (Action ν)) : Barrier ν :=
  actions.foldl step barrier

end PacketCore.Consensus
