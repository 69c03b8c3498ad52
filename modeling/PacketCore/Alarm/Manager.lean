import PacketCore.Library.Loop
import PacketCore.Library.Table

/-!
# The alarm manager over the in-memory store

A repeated raise of a fault updates the active alarm in place and keeps an
acknowledgement or a suppression.  The two administrative actions go through an
authorizer and an audit sink.  Terminal alarms leave both indexes.
-/

namespace PacketCore.AlarmManager

inductive Severity
  | cleared
  | indeterminate
  | warning
  | minor
  | major
  | critical
deriving DecidableEq

inductive ProbableCause
  | configApplyFailed
  | configDriftDetected
  | certificateExpiring
  | certificateExpired
  | identityUnavailable
  | authorizationPolicyInvalid
  | sessionStoreUnavailable
  | leaseLost
  | backendTimeout
  | nrfUnreachable
  | sbiOverload
  | peerUnreachable
  | packetDropThreshold
  | dataplanePreflightFailed
  | storageCorruption
  | auditChainInvalid
  | keyUnavailable
  | liDeliveryFailed
  | chargingExportFailed
  | privacyPolicyViolation
  | securityBreakGlass
  | other (name : String)
deriving DecidableEq

inductive AlarmState
  | raised
  | updated
  | acknowledged
  | suppressed
  | cleared
  | expired
deriving DecidableEq

def AlarmState.isActive : AlarmState → Bool
  | .raised | .updated | .acknowledged | .suppressed => true
  | .cleared | .expired => false

/-- What the deduplication key is computed from. -/
structure Fault (ω : Type) where
  alarmType : String
  probableCause : ProbableCause
  affectedObject : ω
  tenant : Option String
  slice : Option String
  region : Option String
deriving DecidableEq

structure Alarm (ι ω : Type) where
  alarmId : ι
  fault : Fault ω
  severity : Severity
  state : AlarmState
  raisedAt : ℤ
  updatedAt : ℤ
  clearedAt : Option ℤ

inductive AlarmAction
  | acknowledge
  | suppress
deriving DecidableEq

/-- The state that an authorized action sets. -/
def AlarmAction.state : AlarmAction → AlarmState
  | .acknowledge => .acknowledged
  | .suppress => .suppressed

inductive AlarmAuditOutcome
  | authorized
  | denied

structure AlarmAuditEvent (ι γ : Type) where
  action : AlarmAction
  outcome : AlarmAuditOutcome
  alarmId : ι
  alarmType : String
  probableCause : ProbableCause
  context : γ
  occurredAt : ℤ

/-- One policy call: its clock reading, its context, and the answers of the
authorizer and the audit sink. -/
structure PolicyCall (ι ω γ : Type) where
  now : ℤ
  context : γ
  authorizeAlarmAction : AlarmAction → Alarm ι ω → γ → Except String Unit
  allowSecurityCriticalSuppression : Alarm ι ω → γ → Bool
  recordAlarmAction : AlarmAuditEvent ι γ → Except String Unit

inductive AlarmOpResult (ι κ ω : Type)
  | raised (alarm : Alarm ι ω)
  | updated (alarm : Alarm ι ω)
  | cleared (alarmId : ι)
  | clearWithoutActive (dedupKey : κ) (cause : ProbableCause)
  | activeLimitExceeded (maxActiveAlarms : ℕ) (dedupKey : κ)
  | suppressed (alarm : Alarm ι ω)
  | acknowledged (alarm : Alarm ι ω)
  | unauthorized (message : String)
  | auditFailed (message : String)
  | notFound (alarmId : ι)

def alarmRequiresExplicitSuppressionPolicy {ι ω : Type} (alarm : Alarm ι ω) : Bool :=
  alarm.severity = .critical || match alarm.fault.probableCause with
    | .authorizationPolicyInvalid | .identityUnavailable | .certificateExpired | .keyUnavailable
    | .storageCorruption | .auditChainInvalid | .liDeliveryFailed | .privacyPolicyViolation
    | .securityBreakGlass => true
    | _ => false

variable {ι κ ω γ : Type} [LinearOrder ι] [DecidableEq κ]

structure InMemoryStore (ι κ ω : Type) [LinearOrder ι] [DecidableEq κ] where
  byId : Table ι (Alarm ι ω)
  byDedupKey : Table κ ι
  activeLimit : ℕ

namespace InMemoryStore

def new (activeLimit : ℕ) : InMemoryStore ι κ ω := ⟨.empty, .empty, activeLimit⟩

variable (dedupKey : Fault ω → κ) (store : InMemoryStore ι κ ω)

def insert (alarm : Alarm ι ω) : InMemoryStore ι κ ω :=
  if alarm.state.isActive then
    { store with
      byId := store.byId.insert alarm.alarmId alarm
      byDedupKey := store.byDedupKey.insert (dedupKey alarm.fault) alarm.alarmId }
  else store

/-- A terminal alarm leaves both indexes. -/
def update (alarm : Alarm ι ω) : InMemoryStore ι κ ω :=
  if alarm.state.isActive then
    { store with
      byId := store.byId.insert alarm.alarmId alarm
      byDedupKey := store.byDedupKey.insert (dedupKey alarm.fault) alarm.alarmId }
  else
    { store with
      byId := store.byId.erase alarm.alarmId
      byDedupKey := store.byDedupKey.erase (dedupKey alarm.fault) }

def getByDedupKey (key : κ) : Option (Alarm ι ω) :=
  (store.byDedupKey.find key).bind store.byId.find

def activeCount : ℕ := store.byId.keys.card

def expire (cutoff : ℤ) (alarm : Alarm ι ω) : Alarm ι ω :=
  { alarm with state := .expired, updatedAt := cutoff, clearedAt := some cutoff }

def expireBefore (cutoff : ℤ) : InMemoryStore ι κ ω :=
  let active := (ascending store.byId.keys).filterMap store.byId.find
  (active.filter (·.updatedAt < cutoff)).foldl
    (fun current alarm => current.update dedupKey (expire cutoff alarm)) store

end InMemoryStore

/-- The alarm of a first raise. -/
def newAlarm (alarmId : ι) (now : ℤ) (fault : Fault ω) (severity : Severity) : Alarm ι ω :=
  { alarmId, fault, severity, state := .raised, raisedAt := now, updatedAt := now
    clearedAt := none }

/-- The state of an active alarm after a repeated raise. -/
def AlarmState.raisedAgain : AlarmState → AlarmState
  | .acknowledged => .acknowledged
  | .suppressed => .suppressed
  | _ => .updated

section Manager

variable (dedupKey : Fault ω → κ) (store : InMemoryStore ι κ ω)

/-- A new alarm, unless the store is full. -/
def raiseNew (alarmId : ι) (now : ℤ) (fault : Fault ω) (severity : Severity) :
    AlarmOpResult ι κ ω × InMemoryStore ι κ ω :=
  if store.activeLimit ≤ store.activeCount then
    (.activeLimitExceeded store.activeLimit (dedupKey fault), store)
  else
    let alarm := newAlarm alarmId now fault severity
    (.raised alarm, store.insert dedupKey alarm)

def raiseAgain (now : ℤ) (severity : Severity) (existing : Alarm ι ω) : Alarm ι ω :=
  { existing with
    severity, updatedAt := max now existing.raisedAt, state := existing.state.raisedAgain }

def raise (alarmId : ι) (now : ℤ) (fault : Fault ω) (severity : Severity) :
    AlarmOpResult ι κ ω × InMemoryStore ι κ ω :=
  match store.getByDedupKey (dedupKey fault) with
  | some existing =>
    if existing.state.isActive then
      let updated := raiseAgain now severity existing
      (.updated updated, store.update dedupKey updated)
    else raiseNew dedupKey store alarmId now fault severity
  | none => raiseNew dedupKey store alarmId now fault severity

/-- The terminal form of an alarm that its fault's end closes. -/
def cleared (now : ℤ) (alarm : Alarm ι ω) : Alarm ι ω :=
  { alarm with state := .cleared, clearedAt := some now, updatedAt := now, severity := .cleared }

def clear (now : ℤ) (fault : Fault ω) : AlarmOpResult ι κ ω × InMemoryStore ι κ ω :=
  match store.getByDedupKey (dedupKey fault) with
  | some alarm =>
    if alarm.state.isActive then
      (.cleared alarm.alarmId, store.update dedupKey (cleared (max now alarm.raisedAt) alarm))
    else (.clearWithoutActive (dedupKey fault) fault.probableCause, store)
  | none => (.clearWithoutActive (dedupKey fault) fault.probableCause, store)

def auditEvent (action : AlarmAction) (outcome : AlarmAuditOutcome)
    (alarm : Alarm ι ω) (call : PolicyCall ι ω γ) : AlarmAuditEvent ι γ :=
  ⟨action, outcome, alarm.alarmId, alarm.fault.alarmType,
    alarm.fault.probableCause, call.context, max call.now alarm.raisedAt⟩

/-- The result of an action that took effect. -/
def AlarmAction.result (action : AlarmAction) (alarm : Alarm ι ω) : AlarmOpResult ι κ ω :=
  match action with
  | .acknowledge => .acknowledged alarm
  | .suppress => .suppressed alarm

/-- The alarm after an action that took effect. -/
def administer (action : AlarmAction) (call : PolicyCall ι ω γ) (alarm : Alarm ι ω) : Alarm ι ω :=
  { alarm with state := action.state, updatedAt := max call.now alarm.raisedAt }

/-- The events offered to the sink come second.  A denial is audited too; whether that record is
kept does not matter. -/
def applyAdminAction (alarmId : ι) (action : AlarmAction) (call : PolicyCall ι ω γ) :
    AlarmOpResult ι κ ω × List (AlarmAuditEvent ι γ) × InMemoryStore ι κ ω :=
  match store.byId.find alarmId with
  | none => (.notFound alarmId, [], store)
  | some alarm =>
    if !alarm.state.isActive then (.notFound alarmId, [], store)
    else if action = .suppress && alarmRequiresExplicitSuppressionPolicy alarm &&
        !call.allowSecurityCriticalSuppression alarm call.context then
      (.unauthorized "security-critical alarm suppression requires explicit policy override",
        [auditEvent action .denied alarm call], store)
    else
      match call.authorizeAlarmAction action alarm call.context with
      | .error message => (.unauthorized message, [auditEvent action .denied alarm call], store)
      | .ok () =>
        let event := auditEvent action .authorized alarm call
        match call.recordAlarmAction event with
        | .error message => (.auditFailed message, [event], store)
        | .ok () =>
          let alarm := administer action call alarm
          (action.result alarm, [event], store.update dedupKey alarm)

def acknowledgeWithPolicy (alarmId : ι) (call : PolicyCall ι ω γ) :
    AlarmOpResult ι κ ω × List (AlarmAuditEvent ι γ) × InMemoryStore ι κ ω :=
  applyAdminAction dedupKey store alarmId .acknowledge call

def suppressWithPolicy (alarmId : ι) (call : PolicyCall ι ω γ) :
    AlarmOpResult ι κ ω × List (AlarmAuditEvent ι γ) × InMemoryStore ι κ ω :=
  applyAdminAction dedupKey store alarmId .suppress call

end Manager

/-- The calls of the manager; the fresh identifier of a raise is part of it. -/
inductive Command (ι ω γ : Type)
  | raise (alarmId : ι) (now : ℤ) (fault : Fault ω) (severity : Severity)
  | clear (now : ℤ) (fault : Fault ω)
  | acknowledgeWithPolicy (alarmId : ι) (call : PolicyCall ι ω γ)
  | suppressWithPolicy (alarmId : ι) (call : PolicyCall ι ω γ)
  | expireBefore (cutoff : ℤ)

def step (dedupKey : Fault ω → κ) (store : InMemoryStore ι κ ω) :
    Command ι ω γ → InMemoryStore ι κ ω
  | .raise alarmId now fault severity => (raise dedupKey store alarmId now fault severity).2
  | .clear now fault => (clear dedupKey store now fault).2
  | .acknowledgeWithPolicy alarmId call => (acknowledgeWithPolicy dedupKey store alarmId call).2.2
  | .suppressWithPolicy alarmId call => (suppressWithPolicy dedupKey store alarmId call).2.2
  | .expireBefore cutoff => store.expireBefore dedupKey cutoff

/-- Calls one after the other on a new store. -/
def run (dedupKey : Fault ω → κ) (activeLimit : ℕ)
    (commands : List (Command ι ω γ)) : InMemoryStore ι κ ω :=
  commands.foldl (step dedupKey) (.new activeLimit)

end PacketCore.AlarmManager
