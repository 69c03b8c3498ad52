import PacketCore.Library.Loop
import PacketCore.Library.Word

/-!
# Scope authority

One stable scope has one durable authority record.  An admitted execution keeps
its authority until an exact committed transition closes or supersedes it; no
timer is involved.  Every accepted transition advances the revision by one, so
a stamp that was superseded or closed names a revision that is gone for good.
-/

namespace PacketCore.Scope

/-- Largest value of a durable signed counter. -/
def counterMax : ℕ := 2 ^ 63 - 1

def zeros (width : ℕ) : List Byte := List.replicate width 0

/-- The successor of a durable counter. -/
def nextCounter (value : ℕ) : Option ℕ :=
  (checkedAdd value 1).filter (· ≤ counterMax)

theorem nextCounter_eq_some {value result : ℕ} (hnext : nextCounter value = some result) :
    result = value + 1 ∧ result ≤ counterMax := by
  obtain ⟨hadd, hle⟩ := Option.filter_eq_some_iff.mp hnext
  obtain rfl := checkedAdd_eq_some hadd
  exact ⟨rfl, by simpa using hle⟩

inductive ScopeAuthorityError where
  | invalidRequest
  | unauthorized
  | conflict
  | idempotencyConflict
  | staleAuthority
  | retired
  | superseded
  | closureRequired
  | formatMismatch
deriving DecidableEq

/-! ## Names -/

/-- Stable cluster, tenant, network function and opaque slot. -/
structure ScopeId where
  store : ℕ
  tenant : String
  nfKind : String
  slot : List Byte
deriving DecidableEq

/-- Ordered worker cohort; positive and within the signed counter range. -/
structure ScopeIncarnation where
  value : ℕ
  positive : 1 ≤ value
  bounded : value ≤ counterMax
deriving DecidableEq

/-- The first cohort of a scope. -/
def ScopeIncarnation.one : ScopeIncarnation := ⟨1, le_rfl, by decide⟩

structure ScopeNamespace where
  scope : ScopeId
  incarnation : ScopeIncarnation
deriving DecidableEq

def ScopeNamespace.new (scope : ScopeId) (incarnation : ScopeIncarnation) :
    Except ScopeAuthorityError ScopeNamespace := do
  refuseIf (scope.slot = zeros 32) .invalidRequest
  return ⟨scope, incarnation⟩

/-- Complete admitted boot binding. -/
structure ScopeExecution where
  identity : String
  admissionGeneration : ℕ
  workload : List Byte
  process : List Byte
  bootKey : List Byte
deriving DecidableEq

def ScopeExecution.validate (execution : ScopeExecution) : Except ScopeAuthorityError Unit :=
  refuseIf (¬ (1 ≤ execution.admissionGeneration ∧ execution.admissionGeneration ≤ counterMax) ∨
    execution.workload = zeros 16 ∨ execution.process = zeros 16 ∨
    execution.bootKey = zeros 32) .invalidRequest

/-- Claims naming exact authority. -/
structure ScopeAuthorityStamp where
  ns : ScopeNamespace
  revision : ℕ
  execution : ScopeExecution
deriving DecidableEq

namespace ScopeAuthorityStamp

def scope (stamp : ScopeAuthorityStamp) : ScopeId := stamp.ns.scope

def incarnation (stamp : ScopeAuthorityStamp) : ScopeIncarnation := stamp.ns.incarnation

def validate (stamp : ScopeAuthorityStamp) : Except ScopeAuthorityError Unit := do
  stamp.execution.validate
  refuseIf (stamp.scope.slot = zeros 32 ∨ ¬ (1 ≤ stamp.revision ∧ stamp.revision ≤ counterMax))
    .invalidRequest

end ScopeAuthorityStamp

/-! ## Requests -/

inductive ScopeClosureKind where
  | localQuiescence
  | finalTermination
  | committedClose
deriving DecidableEq

structure ScopeClosureEvidence where
  kind : ScopeClosureKind
  digest : List Byte

inductive ScopeAuthorityOperation where
  | admitInitial (execution : ScopeExecution)
  | succeedClosed (predecessor : ScopeAuthorityStamp)
      (execution : ScopeExecution) (evidence : ScopeClosureEvidence)
  | close (current : ScopeAuthorityStamp) (evidence : ScopeClosureEvidence)

namespace ScopeAuthorityOperation

/-- The boot being admitted or closed. -/
def execution : ScopeAuthorityOperation → ScopeExecution
  | admitInitial execution => execution
  | succeedClosed _ execution _ => execution
  | close current _ => current.execution

def closure : ScopeAuthorityOperation → Option (ScopeAuthorityStamp × ScopeClosureEvidence)
  | admitInitial _ => none
  | succeedClosed predecessor _ evidence => some (predecessor, evidence)
  | close current evidence => some (current, evidence)

end ScopeAuthorityOperation

structure ScopeAuthorityRequest where
  scope : ScopeId
  requestId : List Byte
  expectedRevision : ℕ
  operation : ScopeAuthorityOperation

/-- Current authority claims. -/
structure ScopeAuthorityView where
  scope : ScopeId
  revision : ℕ
  retiredThrough : ℕ
  admissionGenerationFloor : ℕ
  stamp : Option ScopeAuthorityStamp
  active : Bool
  closedDigest : Option (List Byte)

namespace ScopeAuthorityView

def closedEvidence (view : ScopeAuthorityView) : Option ScopeClosureEvidence :=
  view.closedDigest.map fun digest => ⟨.committedClose, digest⟩

end ScopeAuthorityView

structure ScopeState where
  view : ScopeAuthorityView
  lastRequestId : List Byte
  lastDigest : List Byte

/-- Maximum plaintext size of the authority checkpoint. -/
def maxScopeAuthorityRecordBytes : ℕ := 4096

/-- Encoded sizes and digests of authority values. -/
structure AuthorityCodec where
  requestLen : ScopeAuthorityRequest → ℕ
  requestDigest : ScopeAuthorityRequest → List Byte
  stateLen : ScopeState → ℕ

namespace ScopeAuthorityRequest

def validate (request : ScopeAuthorityRequest) : Except ScopeAuthorityError Unit := do
  refuseIf (request.requestId = zeros 16 ∨ request.scope.slot = zeros 32 ∨
    counterMax < request.expectedRevision) .invalidRequest
  request.operation.execution.validate
  match request.operation.closure with
  | some (predecessor, evidence) => do
    predecessor.validate
    refuseIf (predecessor.scope ≠ request.scope ∨ evidence.digest = zeros 32) .invalidRequest
  | none => return ()

def digest (codec : AuthorityCodec) (request : ScopeAuthorityRequest) :
    Except ScopeAuthorityError (List Byte) := do
  request.validate
  refuseIf (maxScopeAuthorityRecordBytes < codec.requestLen request) .invalidRequest
  return codec.requestDigest request

end ScopeAuthorityRequest

/-! ## The state machine -/

namespace ScopeState

variable (codec : AuthorityCodec)

def empty (scope : ScopeId) : ScopeState where
  view := ⟨scope, 0, 0, 0, none, false, none⟩
  lastRequestId := zeros 16
  lastDigest := zeros 32

/-- Whether the request is the last one again. -/
def replay (state : ScopeState) (request : ScopeAuthorityRequest) :
    Except ScopeAuthorityError Bool := do
  refuseIf (request.scope ≠ state.view.scope) .unauthorized
  let digest ← request.digest codec
  if request.requestId = state.lastRequestId then
    if digest = state.lastDigest then return true else .error .idempotencyConflict
  else do
    refuseIf (request.expectedRevision ≠ state.view.revision) .conflict
    return false

def currentStamp (state : ScopeState) (stamp : ScopeAuthorityStamp) :
    Except ScopeAuthorityError Unit := do
  stamp.validate
  refuseIf (stamp.scope ≠ state.view.scope) .unauthorized
  refuseIf (stamp.incarnation.value ≤ state.view.retiredThrough) .retired
  refuseIf (state.view.stamp ≠ some stamp ∨
    stamp.execution.admissionGeneration ≠ state.view.admissionGenerationFloor) .staleAuthority

def checkStamp (state : ScopeState) (stamp : ScopeAuthorityStamp) :
    Except ScopeAuthorityError Unit := do
  state.currentStamp stamp
  refuseIf (state.view.active = false) .staleAuthority

/-- What an accepted operation installs. -/
structure Installed where
  ns : ScopeNamespace
  execution : ScopeExecution
  active : Bool

/-- The comparisons of one operation with the durable predecessor. -/
def install (state : ScopeState) : ScopeAuthorityOperation → Except ScopeAuthorityError Installed
  | .admitInitial execution => do
    refuseIf (state.view.revision ≠ 0 ∨ state.view.stamp.isSome = true ∨
      state.view.admissionGenerationFloor ≠ 0 ∨ state.view.retiredThrough ≠ 0) .conflict
    let ns ← ScopeNamespace.new state.view.scope .one
    return ⟨ns, execution, true⟩
  | .succeedClosed predecessor execution evidence => do
    state.currentStamp predecessor
    refuseIf (¬ (evidence.kind = .finalTermination ∨
      evidence.kind = .committedClose ∧ state.view.active = false ∧
      state.view.closedDigest = some evidence.digest)) .closureRequired
    refuseIf (execution.admissionGeneration ≤ state.view.admissionGenerationFloor ∨
      execution.process = predecessor.execution.process ∨
      execution.bootKey = predecessor.execution.bootKey) .superseded
    return ⟨predecessor.ns, execution, true⟩
  | .close current evidence => do
    state.checkStamp current
    refuseIf (evidence.kind ≠ .localQuiescence) .closureRequired
    return ⟨current.ns, current.execution, false⟩

/-- The stored state is well formed. -/
def validate (state : ScopeState) : Except ScopeAuthorityError Unit := do
  let view := state.view
  let stamp ← okOr view.stamp .formatMismatch
  stamp.validate.mapError fun _ => .formatMismatch
  refuseIf (view.scope.slot = zeros 32 ∨ ¬ (1 ≤ view.revision ∧ view.revision ≤ counterMax) ∨
    stamp.incarnation.value ≤ view.retiredThrough ∨
    view.admissionGenerationFloor ≠ stamp.execution.admissionGeneration ∨
    stamp.scope ≠ view.scope ∨ stamp.revision ≠ view.revision ∨
    state.lastRequestId = zeros 16 ∨ state.lastDigest = zeros 32 ∨
    (view.active = true ∧ view.closedDigest.isSome = true) ∨
    (view.active = false ∧ view.closedDigest ≠ some state.lastDigest)) .formatMismatch

/-- The state after an accepted operation. -/
def installed (state : ScopeState) (revision : ℕ) (request : ScopeAuthorityRequest)
    (digest : List Byte) (change : Installed) : ScopeState where
  view := {
    scope := state.view.scope
    revision := revision
    retiredThrough := state.view.retiredThrough
    admissionGenerationFloor := change.execution.admissionGeneration
    stamp := some ⟨change.ns, revision, change.execution⟩
    active := change.active
    closedDigest := if change.active then none else some digest }
  lastRequestId := request.requestId
  lastDigest := digest

def transition (state : ScopeState) (request : ScopeAuthorityRequest) :
    Except ScopeAuthorityError ScopeState := do
  let replayed ← state.replay codec request
  if replayed then return state
  else do
    let revision ← okOr (nextCounter state.view.revision) .invalidRequest
    let change ← state.install request.operation
    let digest ← request.digest codec
    let next := state.installed revision request digest change
    next.validate
    return next

/-! ## Accepted transitions -/

variable {codec} {state next later : ScopeState} {stamp : ScopeAuthorityStamp}
  {request : ScopeAuthorityRequest} {operation : ScopeAuthorityOperation} {change : Installed}

theorem currentStamp_eq_ok (hok : state.currentStamp stamp = .ok ()) :
    stamp.validate = .ok () ∧ stamp.scope = state.view.scope ∧ state.view.stamp = some stamp ∧
      stamp.execution.admissionGeneration = state.view.admissionGenerationFloor := by
  obtain ⟨_, hvalid, hok⟩ := bind_eq_ok hok
  obtain ⟨hscope, hok⟩ := refuseIf_bind hok
  obtain ⟨_, -, hok⟩ := bind_eq_ok hok
  have hcurrent := not_or.mp (refuseIf_eq_ok.mp hok)
  exact ⟨hvalid, not_not.mp hscope, not_not.mp hcurrent.1, not_not.mp hcurrent.2⟩

theorem checkStamp_eq_ok (hok : state.checkStamp stamp = .ok ()) :
    state.currentStamp stamp = .ok () ∧ state.view.active = true := by
  obtain ⟨_, hcurrent, hok⟩ := bind_eq_ok hok
  exact ⟨hcurrent, by simpa using refuseIf_eq_ok.mp hok⟩

theorem stamp_of_checkStamp (hok : state.checkStamp stamp = .ok ()) :
    state.view.stamp = some stamp :=
  (currentStamp_eq_ok (checkStamp_eq_ok hok).1).2.2.1

/-- The facts a stored state carries. -/
structure Valid (state : ScopeState) (stamp : ScopeAuthorityStamp) : Prop where
  stamp_eq : state.view.stamp = some stamp
  stampValid : stamp.validate = .ok ()
  slot : state.view.scope.slot ≠ zeros 32
  revisionPos : 1 ≤ state.view.revision
  revisionLe : state.view.revision ≤ counterMax
  notRetired : state.view.retiredThrough < stamp.incarnation.value
  floor : state.view.admissionGenerationFloor = stamp.execution.admissionGeneration
  scope : stamp.scope = state.view.scope
  revision : stamp.revision = state.view.revision
  lastDigest : state.lastDigest ≠ zeros 32
  open_ : state.view.active = true → state.view.closedDigest = none
  closed : state.view.active = false → state.view.closedDigest = some state.lastDigest

theorem valid_of_validate (hok : state.validate = .ok ()) : ∃ stamp, state.Valid stamp := by
  obtain ⟨stamp, hstamp, hok⟩ := okOr_bind hok
  obtain ⟨_, hvalid, hok⟩ := bind_eq_ok hok
  have hfields := refuseIf_eq_ok.mp hok
  push Not at hfields
  obtain ⟨hslot, ⟨hpos, hle⟩, hretired, hfloor, hscope, hrevision, -, hdigest, hopen, hclosed⟩ :=
    hfields
  refine ⟨stamp, hstamp, mapError_eq_ok.mp hvalid, hslot, hpos, hle,
    hretired, hfloor, hscope, hrevision, hdigest, fun hactive => ?_, hclosed⟩
  simpa using hopen hactive

/-- An operation admits the first execution, or closes the current stamp for a
newer execution or for good. -/
theorem install_eq_ok (hok : state.install operation = .ok change) :
    (∃ execution, operation = .admitInitial execution ∧ state.view.revision = 0 ∧
        state.view.stamp = none ∧ state.view.admissionGenerationFloor = 0 ∧
        change = ⟨⟨state.view.scope, .one⟩, execution, true⟩) ∨
      ∃ closed evidence, operation.closure = some (closed, evidence) ∧
        state.currentStamp closed = .ok () ∧ change.ns = closed.ns ∧
        (state.view.admissionGenerationFloor < change.execution.admissionGeneration ∨
          operation = .close closed evidence ∧ change.execution = closed.execution) := by
  cases operation with
  | admitInitial execution =>
    obtain ⟨hempty, hok⟩ := refuseIf_bind hok
    obtain ⟨ns, hns, hok⟩ := bind_eq_ok hok
    obtain ⟨_, -, hns⟩ := bind_eq_ok hns
    cases hns
    push Not at hempty
    refine .inl ⟨execution, rfl, hempty.1, ?_, hempty.2.2.1, (Except.ok.inj hok).symm⟩
    simpa using hempty.2.1
  | succeedClosed predecessor _ evidence =>
    obtain ⟨_, hcurrent, hok⟩ := bind_eq_ok hok
    obtain ⟨_, -, hok⟩ := bind_eq_ok hok
    obtain ⟨hnewer, hok⟩ := refuseIf_bind hok
    cases hok
    exact .inr ⟨predecessor, evidence, rfl, hcurrent, rfl, .inl (not_le.mp (not_or.mp hnewer).1)⟩
  | close current evidence =>
    obtain ⟨_, hcheck, hok⟩ := bind_eq_ok hok
    obtain ⟨_, -, hok⟩ := bind_eq_ok hok
    cases hok
    exact .inr ⟨current, evidence, rfl, (checkStamp_eq_ok hcheck).1, rfl, .inr ⟨rfl, rfl⟩⟩

/-- An accepted request is a replay or installs the next revision. -/
theorem transition_eq_ok (hok : state.transition codec request = .ok next) :
    state.replay codec request = .ok true ∧ next = state ∨
      ∃ change digest, state.install request.operation = .ok change ∧
      next = state.installed (state.view.revision + 1) request digest change ∧
      next.validate = .ok () := by
  obtain ⟨replayed, hreplayed, hok⟩ := bind_eq_ok hok
  cases replayed with
  | true => exact .inl ⟨hreplayed, (Except.ok.inj hok).symm⟩
  | false =>
    obtain ⟨revision, hrevision, hok⟩ := okOr_bind hok
    obtain ⟨change, hchange, hok⟩ := bind_eq_ok hok
    obtain ⟨digest, -, hok⟩ := bind_eq_ok hok
    obtain ⟨_, hvalid, hok⟩ := bind_eq_ok hok
    cases hok
    obtain ⟨rfl, -⟩ := nextCounter_eq_some hrevision
    exact .inr ⟨change, digest, hchange, rfl, hvalid⟩

/-- Authority only moves forward: a later state has the same scope and cohort,
no lower generation, and is the same state unless its revision is higher. -/
structure Follows (before after : ScopeState) : Prop where
  scope : after.view.scope = before.view.scope
  retired : after.view.retiredThrough = before.view.retiredThrough
  revision : before.view.revision ≤ after.view.revision
  still : after.view.revision = before.view.revision → after = before
  floor : before.view.admissionGenerationFloor ≤ after.view.admissionGenerationFloor
  cohort : ∀ stamp, before.view.stamp = some stamp →
    ∃ current, after.view.stamp = some current ∧ current.ns = stamp.ns

theorem Follows.refl (state : ScopeState) : state.Follows state :=
  ⟨rfl, rfl, le_rfl, fun _ => rfl, le_rfl, fun stamp hstamp => ⟨stamp, hstamp, rfl⟩⟩

theorem Follows.trans (hleft : state.Follows next)
    (hright : next.Follows later) : state.Follows later := by
  refine ⟨hright.scope.trans hleft.scope, hright.retired.trans hleft.retired,
    hleft.revision.trans hright.revision, fun heq => ?_,
    hleft.floor.trans hright.floor, fun stamp hstamp => ?_⟩
  · have hmiddle : next.view.revision = state.view.revision :=
      le_antisymm (heq ▸ hright.revision) hleft.revision
    rw [hright.still (heq.trans hmiddle.symm), hleft.still hmiddle]
  · obtain ⟨_, hmiddle, hns⟩ := hleft.cohort _ hstamp
    obtain ⟨current, hcurrent, hns'⟩ := hright.cohort _ hmiddle
    exact ⟨current, hcurrent, hns'.trans hns⟩

theorem install_follows (hok : state.install operation = .ok change) (digest : List Byte) :
    state.Follows (state.installed (state.view.revision + 1) request digest change) := by
  refine ⟨rfl, rfl, Nat.le_succ _, fun heq => absurd heq (Nat.succ_ne_self _), ?_, ?_⟩
  · rcases install_eq_ok hok with ⟨_, -, -, -, hzero, -⟩ |
      ⟨_, _, -, hcurrent, -, hnewer | ⟨-, hsame⟩⟩
    · rw [hzero]
      exact Nat.zero_le _
    · exact hnewer.le
    · rw [installed, hsame, (currentStamp_eq_ok hcurrent).2.2.2]
  · intro _ hstamp
    refine ⟨_, rfl, ?_⟩
    rcases install_eq_ok hok with ⟨_, -, -, hnone, -, -⟩ | ⟨_, _, -, hcurrent, hns, -⟩
    · cases hnone.symm.trans hstamp
    · cases hstamp.symm.trans (currentStamp_eq_ok hcurrent).2.2.1
      exact hns

theorem transition_follows (hok : state.transition codec request = .ok next) :
    state.Follows next := by
  rcases transition_eq_ok hok with ⟨-, rfl⟩ | ⟨_, _, hchange, rfl, -⟩
  · exact .refl _
  · exact install_follows hchange _

/-- A stamp at or below the current revision that does not pass now never
passes again. -/
theorem Follows.fenced (hfollows : state.Follows next)
    (hrevision : ∀ current, next.view.stamp = some current → current.revision = next.view.revision)
    (hold : stamp.revision ≤ state.view.revision)
    (hfails : state.checkStamp stamp ≠ .ok ()) : next.checkStamp stamp ≠ .ok () := by
  intro hpasses
  have hcurrent := stamp_of_checkStamp hpasses
  have hequal : next.view.revision = state.view.revision :=
    le_antisymm (hrevision _ hcurrent ▸ hold) hfollows.revision
  rw [hfollows.still hequal] at hpasses
  exact hfails hpasses

/-- The stamp that an operation closes or succeeds names the old revision. -/
theorem install_fences {evidence : ScopeClosureEvidence} {digest : List Byte}
    (hrevision : ∀ current, state.view.stamp = some current →
      current.revision = state.view.revision)
    (hok : state.install operation = .ok change)
    (hclosed : operation.closure = some (stamp, evidence)) :
    (state.installed (state.view.revision + 1) request digest change).checkStamp stamp ≠
      .ok () := by
  intro hpasses
  rcases install_eq_ok hok with ⟨_, rfl, -⟩ | ⟨_, _, hold, hcurrent, -⟩
  · cases hclosed
  · cases hold.symm.trans hclosed
    cases stamp_of_checkStamp hpasses
    exact Nat.succ_ne_self _ (hrevision _ (currentStamp_eq_ok hcurrent).2.2.1)

end ScopeState

/-- The replicated command: the transition and the size of its record. -/
def ScopeAuthorityRequest.apply (codec : AuthorityCodec) (request : ScopeAuthorityRequest)
    (current : Option ScopeState) : Except ScopeAuthorityError ScopeState := do
  request.validate
  let next ← (current.getD (.empty request.scope)).transition codec request
  next.validate
  refuseIf (maxScopeAuthorityRecordBytes - 2 < codec.stateLen next) .formatMismatch
  return next

theorem ScopeAuthorityRequest.apply_eq_ok {codec : AuthorityCodec}
    {current : Option ScopeState} {request : ScopeAuthorityRequest}
    {state : ScopeState} (hok : request.apply codec current = .ok state) :
    (current.getD (.empty request.scope)).transition codec request = .ok state ∧
      state.validate = .ok () := by
  obtain ⟨_, -, hok⟩ := bind_eq_ok hok
  obtain ⟨_, htransition, hok⟩ := bind_eq_ok hok
  obtain ⟨_, hvalidates, hok⟩ := bind_eq_ok hok
  obtain ⟨_, -, hok⟩ := bind_eq_ok hok
  cases hok
  exact ⟨htransition, hvalidates⟩

end PacketCore.Scope
