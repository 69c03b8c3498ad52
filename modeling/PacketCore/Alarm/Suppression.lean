import PacketCore.Alarm.Manager

/-!
# Where a suppression comes from

`Origin` lists what one call can do to the alarms it leaves behind.  Over whole
runs it traces every suppressed alarm back to a policy decision.  The decision
is about the alarm as it was then: a later raise of the same fault may make a
suppressed alarm critical.
-/

namespace PacketCore.AlarmManager

variable {ι κ ω γ : Type} [LinearOrder ι] [DecidableEq κ]

/-- The policy let the action on this alarm through and its record was accepted. -/
structure PolicyCall.Allows (call : PolicyCall ι ω γ) (action : AlarmAction)
    (alarm : Alarm ι ω) : Prop where
  authorized : call.authorizeAlarmAction action alarm call.context = .ok ()
  recorded : call.recordAlarmAction (auditEvent action .authorized alarm call) = .ok ()
  override : action = .suppress → alarmRequiresExplicitSuppressionPolicy alarm →
    call.allowSecurityCriticalSuppression alarm call.context

/-- The call that asks for an action. -/
def AlarmAction.command (action : AlarmAction) (alarmId : ι)
    (call : PolicyCall ι ω γ) : Command ι ω γ :=
  match action with
  | .acknowledge => .acknowledgeWithPolicy alarmId call
  | .suppress => .suppressWithPolicy alarmId call

/-- Every alarm is stored under its own identifier. -/
def InMemoryStore.Keyed (store : InMemoryStore ι κ ω) : Prop :=
  ∀ alarmId alarm, store.byId.find alarmId = some alarm → alarm.alarmId = alarmId

/-- What a call did to an alarm that is active after it. -/
inductive Origin (dedupKey : Fault ω → κ) (store : InMemoryStore ι κ ω) :
    Command ι ω γ → Alarm ι ω → Prop
  | kept {command alarm} (hfind : store.byId.find alarm.alarmId = some alarm) :
      Origin dedupKey store command alarm
  | raised (alarmId : ι) (now : ℤ) (fault : Fault ω) (severity : Severity) :
      Origin dedupKey store (.raise alarmId now fault severity)
        (newAlarm alarmId now fault severity)
  | raisedAgain (alarmId : ι) (now : ℤ) (fault : Fault ω) (severity : Severity) {existing}
      (hindex : store.byDedupKey.find (dedupKey fault) = some existing.alarmId)
      (hfind : store.byId.find existing.alarmId = some existing) :
      Origin dedupKey store (.raise alarmId now fault severity) (raiseAgain now severity existing)
  | administered (action : AlarmAction) (call : PolicyCall ι ω γ) {existing}
      (hfind : store.byId.find existing.alarmId = some existing)
      (hallows : call.Allows action existing) :
      Origin dedupKey store (action.command existing.alarmId call) (administer action call existing)

variable {fault : Fault ω} {fresh : ι} {now : ℤ} {severity : Severity} {alarm : Alarm ι ω}

section Steps

variable (dedupKey : Fault ω → κ) {store : InMemoryStore ι κ ω} {alarmId : ι} {alarm : Alarm ι ω}

theorem find_update {written : Alarm ι ω}
    (hfind : (store.update dedupKey written).byId.find alarmId = some alarm) :
    (written.alarmId = alarmId ∧ written = alarm ∧ written.state.isActive = true) ∨
      store.byId.find alarmId = some alarm := by
  unfold InMemoryStore.update at hfind
  split at hfind
  case isTrue hactive =>
    by_cases hid : alarmId = written.alarmId
    · left
      simpa [hid, hactive] using hfind
    · right
      simpa [hid] using hfind
  case isFalse =>
    right
    by_cases hid : alarmId = written.alarmId
    · simp [hid] at hfind
    · simpa [hid] using hfind

/-- Expiry only removes alarms. -/
theorem find_expireBefore {cutoff : ℤ}
    (hfind : (store.expireBefore dedupKey cutoff).byId.find alarmId = some alarm) :
    store.byId.find alarmId = some alarm := by
  unfold InMemoryStore.expireBefore at hfind
  dsimp only at hfind
  generalize List.filter _ _ = due at hfind
  induction due generalizing store with
  | nil => exact hfind
  | cons _ _ ih =>
    have hrest := ih hfind
    apply (find_update _ hrest).resolve_left
    rintro ⟨-, -, ⟨⟩⟩

theorem find_clear (hfind : (clear dedupKey store now fault).2.byId.find alarmId = some alarm) :
    store.byId.find alarmId = some alarm := by
  unfold clear at hfind
  split at hfind
  · split at hfind
    case isFalse => exact hfind
    case isTrue =>
      apply (find_update _ hfind).resolve_left
      rintro ⟨-, -, ⟨⟩⟩
  · exact hfind

variable (hkeyed : store.Keyed)
include hkeyed

theorem origin_kept {command : Command ι ω γ} (hfind : store.byId.find alarmId = some alarm) :
    alarm.alarmId = alarmId ∧ Origin dedupKey store command alarm := by
  have hid := hkeyed _ _ hfind
  exact ⟨hid, .kept (hid ▸ hfind)⟩

theorem origin_raiseNew
    (hfind : (raiseNew dedupKey store fresh now fault severity).2.byId.find alarmId = some alarm) :
    alarm.alarmId = alarmId ∧
      Origin (γ := γ) dedupKey store (.raise fresh now fault severity) alarm := by
  unfold raiseNew at hfind
  split at hfind
  case isTrue => exact origin_kept _ hkeyed hfind
  case isFalse =>
    by_cases hid : alarmId = fresh
    · subst hid
      have halarm : newAlarm alarmId now fault severity = alarm := by
        simpa [InMemoryStore.insert, newAlarm, AlarmState.isActive] using hfind
      subst halarm
      exact ⟨rfl, .raised _ _ _ _⟩
    · have hbefore : store.byId.find alarmId = some alarm := by
        simpa [InMemoryStore.insert, newAlarm, AlarmState.isActive, hid] using hfind
      exact origin_kept _ hkeyed hbefore

theorem origin_raise
    (hfind : (raise dedupKey store fresh now fault severity).2.byId.find alarmId = some alarm) :
    alarm.alarmId = alarmId ∧
      Origin (γ := γ) dedupKey store (.raise fresh now fault severity) alarm := by
  unfold raise at hfind
  split at hfind
  · next existing hexisting =>
    dsimp only at hfind
    split at hfind
    case isFalse => exact origin_raiseNew _ hkeyed hfind
    case isTrue =>
      obtain ⟨_, hindex, hbefore⟩ := Option.bind_eq_some_iff.mp hexisting
      obtain rfl := hkeyed _ _ hbefore
      rcases find_update _ hfind with ⟨hwritten, rfl, -⟩ | hkept
      · exact ⟨hwritten, .raisedAgain _ _ _ _ hindex hbefore⟩
      · exact origin_kept _ hkeyed hkept
  · exact origin_raiseNew _ hkeyed hfind

theorem origin_applyAdminAction {target : ι} {action : AlarmAction} {call : PolicyCall ι ω γ}
    (hfind : (applyAdminAction dedupKey store target action call).2.2.byId.find alarmId =
      some alarm) :
    alarm.alarmId = alarmId ∧ Origin dedupKey store (action.command target call) alarm := by
  -- every refusal leaves the store as it was
  unfold applyAdminAction at hfind
  split at hfind
  · exact origin_kept _ hkeyed hfind
  · next existing hexisting =>
    split_ifs at hfind with hinactive hcritical
    · exact origin_kept _ hkeyed hfind
    · exact origin_kept _ hkeyed hfind
    · split at hfind
      · exact origin_kept _ hkeyed hfind
      · next hauthorize =>
        dsimp only at hfind
        split at hfind
        · exact origin_kept _ hkeyed hfind
        · next hrecord =>
          rcases find_update _ hfind with ⟨hwritten, rfl, -⟩ | hbefore
          · obtain rfl := hkeyed _ _ hexisting
            refine ⟨hwritten, .administered action call hexisting ⟨hauthorize, hrecord, ?_⟩⟩
            intro haction hrequires
            simpa [haction, hrequires] using hcritical
          · exact origin_kept _ hkeyed hbefore

/-- One call: the identifiers still match and every alarm has an origin. -/
theorem step_origin {command : Command ι ω γ}
    (hfind : (step dedupKey store command).byId.find alarmId = some alarm) :
    alarm.alarmId = alarmId ∧ Origin dedupKey store command alarm := by
  cases command with
  | raise => exact origin_raise _ hkeyed hfind
  | clear => exact origin_kept _ hkeyed (find_clear _ hfind)
  | acknowledgeWithPolicy | suppressWithPolicy => exact origin_applyAdminAction _ hkeyed hfind
  | expireBefore => exact origin_kept _ hkeyed (find_expireBefore _ hfind)

end Steps

section Runs

variable (dedupKey : Fault ω → κ) (activeLimit : ℕ)

@[simp]
theorem run_concat (commands : List (Command ι ω γ)) (command : Command ι ω γ) :
    run dedupKey activeLimit (commands ++ [command]) =
      step dedupKey (run dedupKey activeLimit commands) command := by
  simp [run]

theorem run_keyed (commands : List (Command ι ω γ)) :
    (run dedupKey activeLimit commands).Keyed := by
  induction commands using List.reverseRecOn with
  | nil => rintro _ _ ⟨⟩
  | append_singleton _ _ ih =>
    intro alarmId alarm hfind
    rw [run_concat] at hfind
    exact (step_origin _ ih hfind).1

/-- A raise that finds the suppressed alarm by its deduplication key and makes it critical. -/
def Escalated (alarm : Alarm ι ω) (before after : List (Command ι ω γ)) : Prop :=
  ∃ middle rest fresh now fault, after = middle ++ .raise fresh now fault .critical :: rest ∧
    (run dedupKey activeLimit (before ++ middle)).byDedupKey.find (dedupKey fault) =
      some alarm.alarmId

/-- `alarm` goes back to the decision `call` about `old`, the same alarm at the time. -/
structure Decided (commands : List (Command ι ω γ)) (alarm : Alarm ι ω)
    (before : List (Command ι ω γ)) (call : PolicyCall ι ω γ)
    (after : List (Command ι ω γ)) (old : Alarm ι ω) : Prop where
  split : commands = before ++ .suppressWithPolicy alarm.alarmId call :: after
  found : (run dedupKey activeLimit before).byId.find alarm.alarmId = some old
  fault : old.fault = alarm.fault
  allows : call.Allows .suppress old
  critical : alarmRequiresExplicitSuppressionPolicy alarm →
    alarmRequiresExplicitSuppressionPolicy old ∨
      Escalated dedupKey activeLimit alarm
        (before ++ [.suppressWithPolicy alarm.alarmId call]) after

variable {dedupKey activeLimit}

theorem Escalated.concat {before after : List (Command ι ω γ)}
    (hescalated : Escalated dedupKey activeLimit alarm before after) (command : Command ι ω γ) :
    Escalated dedupKey activeLimit alarm before (after ++ [command]) := by
  obtain ⟨middle, rest, fresh, now, fault, hafter, hindex⟩ := hescalated
  exact ⟨middle, rest ++ [command], fresh, now, fault, by simp [hafter], hindex⟩

section Decisions

variable {commands before after : List (Command ι ω γ)} {alarm old : Alarm ι ω}
  {call : PolicyCall ι ω γ}

/-- A decision outlives a call that leaves the alarm alone. -/
theorem Decided.concat
    (hdecided : Decided dedupKey activeLimit commands alarm before call after old)
    (command : Command ι ω γ) :
    Decided dedupKey activeLimit (commands ++ [command]) alarm before call (after ++ [command])
      old :=
  { hdecided with
    split := by simp [hdecided.split]
    critical := fun hrequires => (hdecided.critical hrequires).imp_right (·.concat command) }

omit [LinearOrder ι] in
/-- Below critical severity only the cause counts, and it is part of the fault. -/
theorem requires_of_fault_eq (hfault : old.fault = alarm.fault)
    (hseverity : alarm.severity ≠ .critical)
    (hrequires : alarmRequiresExplicitSuppressionPolicy alarm) :
    alarmRequiresExplicitSuppressionPolicy old := by
  unfold alarmRequiresExplicitSuppressionPolicy at hrequires ⊢
  rw [hfault]
  rw [decide_eq_false hseverity, Bool.false_or] at hrequires
  rw [hrequires, Bool.or_true]

/-- A repeated raise keeps the decision; a critical one is an escalation. -/
theorem Decided.raisedAgain
    (hdecided : Decided dedupKey activeLimit commands alarm before call after old)
    (fresh : ι) (now : ℤ) (fault : Fault ω) (severity : Severity)
    (hindex : (run dedupKey activeLimit commands).byDedupKey.find (dedupKey fault) =
      some alarm.alarmId) :
    Decided dedupKey activeLimit (commands ++ [.raise fresh now fault severity])
      (raiseAgain now severity alarm) before call (after ++ [.raise fresh now fault severity])
      old where
  split := by simp [hdecided.split, raiseAgain]
  found := hdecided.found
  fault := hdecided.fault
  allows := hdecided.allows
  critical hrequires := by
    by_cases hseverity : severity = .critical
    · subst hseverity
      right
      refine ⟨after, [], fresh, now, fault, rfl, ?_⟩
      rw [hdecided.split] at hindex
      simpa [raiseAgain] using hindex
    · left
      have hfault : old.fault = (raiseAgain now severity alarm).fault := hdecided.fault
      exact requires_of_fault_eq hfault hseverity hrequires

end Decisions

/-- Every suppressed alarm of a run goes back to a decision. -/
theorem decided_of_suppressed (commands : List (Command ι ω γ)) {alarmId : ι}
    (hfind : (run dedupKey activeLimit commands).byId.find alarmId = some alarm)
    (hsuppressed : alarm.state = .suppressed) :
    ∃ before call after old, Decided dedupKey activeLimit commands alarm before call after old := by
  induction commands using List.reverseRecOn generalizing alarmId alarm with
  | nil => cases hfind
  | append_singleton earlier _ ih =>
    rw [run_concat] at hfind
    obtain ⟨_, horigin⟩ := step_origin _ (run_keyed _ _ _) hfind
    cases horigin with
    | kept hbefore =>
      obtain ⟨before, call, after, old, hdecided⟩ := ih hbefore hsuppressed
      exact ⟨before, call, _, old, hdecided.concat _⟩
    | raised => cases hsuppressed
    | @raisedAgain fresh now fault severity existing hindex hbefore =>
      have hexisting : existing.state = .suppressed := by
        change existing.state.raisedAgain = .suppressed at hsuppressed
        cases hstate : existing.state <;> rw [hstate] at hsuppressed <;> cases hsuppressed
      obtain ⟨before, call, after, old, hdecided⟩ := ih hbefore hexisting
      exact ⟨before, call, _, old, hdecided.raisedAgain _ _ _ _ hindex⟩
    | @administered action call existing hbefore hallows =>
      cases action with
      | acknowledge => cases hsuppressed
      | suppress =>
        exact ⟨earlier, call, [], existing, rfl, hbefore, rfl, hallows, .inl⟩

/-- Suppressions and acknowledgements come from audited policy decisions only.  A suppressed
alarm that is security-critical was so at the decision, with the override granted, or a later
raise of its fault made it critical. -/
theorem suppressions_decided (commands : List (Command ι ω γ)) :
    (∀ alarmId alarm, (run dedupKey activeLimit commands).byId.find alarmId = some alarm →
      alarm.state = .suppressed →
      ∃ before call after old,
        Decided dedupKey activeLimit commands alarm before call after old) ∧
    ∀ (command : Command ι ω γ) (action : AlarmAction) (alarm : Alarm ι ω),
      (run dedupKey activeLimit (commands ++ [command])).byId.find alarm.alarmId = some alarm →
      alarm.state = action.state →
      (∀ old, (run dedupKey activeLimit commands).byId.find alarm.alarmId = some old →
        old.state ≠ action.state) →
      ∃ (call : PolicyCall ι ω γ) (old : Alarm ι ω), command = action.command alarm.alarmId call ∧
        (run dedupKey activeLimit commands).byId.find alarm.alarmId = some old ∧
        call.Allows action old := by
  constructor
  · intro alarmId alarm hfind hsuppressed
    exact decided_of_suppressed _ hfind hsuppressed
  · intro command action alarm hfind hstate hchanged
    rw [run_concat] at hfind
    obtain ⟨-, horigin⟩ := step_origin _ (run_keyed _ _ _) hfind
    cases horigin with
    | kept hbefore => exact absurd hstate (hchanged _ hbefore)
    | raised => cases action <;> cases hstate
    | @raisedAgain fresh now fault severity existing hindex hbefore =>
      -- a repeated raise keeps the two states but never enters them
      have hexisting : existing.state ≠ action.state := hchanged _ hbefore
      change existing.state.raisedAgain = action.state at hstate
      cases hcase : existing.state <;> rw [hcase] at hstate hexisting <;>
        first
          | exact absurd hstate hexisting
          | cases action <;> cases hstate
    | @administered taken call existing hbefore hallows =>
      have haction : taken = action := by
        cases taken <;> cases action <;> first | rfl | cases hstate
      subst haction
      exact ⟨call, existing, rfl, hbefore, hallows⟩

end Runs

section Escalation

/-- A fault whose cause is not a security cause. -/
def backendFault : Fault ℕ := ⟨"backend", .backendTimeout, 0, none, none, none⟩

/-- An authorizer without the override for security-critical alarms. -/
def ordinaryCall : PolicyCall ℕ ℕ Unit where
  now := 2
  context := ()
  authorizeAlarmAction _ _ _ := .ok ()
  allowSecurityCriticalSuppression _ _ := false
  recordAlarmAction _ := .ok ()

/-- An alarm is suppressed while it is major. -/
def suppression : List (Command ℕ ℕ Unit) :=
  [.raise 0 1 backendFault .major, .suppressWithPolicy 0 ordinaryCall]

/-- The suppression is a decision of the policy, and the alarm still goes back to it when it is
raised again. -/
theorem suppressions_decided_again :
    let commands := suppression ++ [.raise 1 3 backendFault .critical]
    (∃ alarm before call after old, alarm.severity = .critical ∧
      Decided id 4 commands alarm before call after old) ∧
    ∃ old, ordinaryCall.Allows .suppress old := by
  intro commands
  have hdecided := @suppressions_decided ℕ (Fault ℕ) ℕ Unit _ _ id 4
  obtain ⟨_, old, ⟨⟩, -, hallows⟩ := (hdecided (suppression.take 1)).2
    (.suppressWithPolicy 0 ordinaryCall) .suppress
    (administer .suppress ordinaryCall (newAlarm 0 1 backendFault .major)) rfl rfl
    (by rintro _ ⟨⟩ ⟨⟩)
  obtain ⟨before, call, after, first, hagain⟩ := (hdecided commands).1 0 _ rfl rfl
  exact ⟨⟨_, before, call, after, first, rfl, hagain⟩, old, hallows⟩

/-- The next raise makes the alarm critical and keeps the suppression, though no call ever
granted the override. -/
theorem suppressed_then_critical :
    let shown (commands : List (Command ℕ ℕ Unit)) := ((run id 4 commands).byId.find 0).map
      fun alarm => (alarm.state, alarmRequiresExplicitSuppressionPolicy alarm)
    shown suppression = some (.suppressed, false) ∧
      shown (suppression ++ [.raise 1 3 backendFault .critical]) = some (.suppressed, true) ∧
      ∀ alarm, ordinaryCall.allowSecurityCriticalSuppression alarm () = false :=
  ⟨by decide +kernel, by decide +kernel, fun _ => rfl⟩

end Escalation

end PacketCore.AlarmManager
