import PacketCore.Audit.LedgerSteps

/-!
# Runs of the ledger

Every command keeps the invariant and follows from the ledger before it: rows are
only added behind and dropped in front, an operation keeps its outcome, and an
operation that leaves the ledger has expired.  The properties of a whole run are
inductions over its commands.
-/

namespace PacketCore.Audit

open List

variable {δ : Type} [LinearOrder δ] {mac : Authenticator δ} {key : AuditKey}
  {ring : AuditKeyRing}

/-- An operation that is unresolved, unacknowledged or unexpired. -/
def LedgerOperation.Pending (now : ℤ) (operation : LedgerOperation δ) : Prop :=
  operation.state = .intent ∨ operation.terminalRecorded = false ∨
    now < operation.handle.body.expiresAt

variable {payload : EntryPayload δ} {commands : List (ℤ × Command δ)}
  {handle : AuditOperationHandle δ}

/-- An operation comes from an operation of before or is opened by the row. -/
theorem Derives.origin {identity : ConfigConsensusIdentity} {projection : AuditToken}
    {derived derived' : List (LedgerOperation δ)} {sequence : ℕ}
    (hderives : Derives mac key identity projection derived sequence payload derived')
    {operation : LedgerOperation δ} (hmem : operation ∈ derived') :
    (∃ old ∈ derived, old.handle = operation.handle ∧
      (old.state ≠ .intent → operation.state = old.state)) ∨
    payload = .intent operation.handle := by
  by_cases hold : operation ∈ derived
  · exact .inl ⟨operation, hold, rfl, fun _ => rfl⟩
  cases hderives with
  | intent =>
    have hnew := (mem_append.mp hmem).resolve_left hold
    rw [mem_singleton.mp hnew, LedgerOperation.admitted_handle]
    exact .inr rfl
  | outcome _ _ target _ _ hintent =>
    simp only [mem_append, mem_cons] at hmem hold
    obtain rfl := (hmem.resolve_left (by tauto)).resolve_right (by tauto)
    exact .inl ⟨target, by simp, rfl, fun hclosed => absurd hintent hclosed⟩
  | terminal _ _ target =>
    simp only [mem_append, mem_cons] at hmem hold
    obtain rfl := (hmem.resolve_left (by tauto)).resolve_right (by tauto)
    exact .inl ⟨target, by simp, rfl, fun _ => rfl⟩
  | keyTransition | event => exact absurd hmem hold

namespace LedgerState

/-- What one command at `now` may change. -/
structure Follows (now : ℤ) (command : Command δ) (ledger next : LedgerState δ) : Prop where
  identity : next.identity = ledger.identity
  sequence_le : ledger.sequence ≤ next.sequence
  rows : ∀ entry ∈ next.entries, entry.sequence ≤ ledger.sequence → entry ∈ ledger.entries
  kept : ∀ operation ∈ ledger.operations, operation.Pending now →
    ∀ entry ∈ ledger.entries, entry.payload.tag? = some operation.handle.mac → entry ∈ next.entries
  survives : ∀ operation ∈ ledger.operations,
    (∃ later ∈ next.operations, later.handle = operation.handle) ∨
      operation.handle.body.expiresAt ≤ now
  origin : ∀ operation ∈ next.operations,
    (∃ old ∈ ledger.operations, old.handle = operation.handle ∧
      (old.state ≠ .intent → operation.state = old.state)) ∨
    (command = .intent operation.handle ∧ now < operation.handle.body.expiresAt ∧
      ∀ old ∈ ledger.operations, old.handle.request ≠ operation.handle.request)

variable {ledger next : LedgerState δ} {now : ℤ} {command : Command δ}

omit [LinearOrder δ] in
/-- Neither rows nor operations change. -/
theorem Follows.of_continuity (chain : Option (ContinuityState δ)) :
    Follows now command ledger { ledger with continuity := chain } where
  identity := rfl
  sequence_le := le_rfl
  rows := fun _ hentry _ => hentry
  kept := fun _ _ _ _ hentry _ => hentry
  survives := fun operation hmem => .inl ⟨operation, hmem, rfl⟩
  origin := fun operation hmem => .inl ⟨operation, hmem, rfl, fun _ => rfl⟩

omit [LinearOrder δ] in
theorem Follows.refl : Follows now command ledger ledger := .of_continuity ledger.continuity

theorem Appends.follows {signed : Option (ContinuityState δ)}
    (happends : ledger.Appends mac key payload next)
    (hadmits : ∀ handle, payload = .intent handle → command = .intent handle ∧
      now < handle.body.expiresAt ∧
      ∀ old ∈ ledger.operations, old.handle.request ≠ handle.request) :
    Follows now command ledger { next with continuity := signed } := by
  have hentries : next.entries = ledger.entries ++ [Replay.row mac key ledger.identity
      ⟨ledger.sequence, ledger.terminal, ledger.operations⟩ payload] := by
    rw [happends.pushed]
    rfl
  have hsequence : next.sequence = ledger.sequence + 1 := by
    rw [happends.pushed]
    rfl
  exact
    { identity := by
        rw [happends.pushed]
        rfl
      sequence_le := hsequence ▸ Nat.le_succ _
      rows := by
        intro entry hentry hold
        rw [hentries] at hentry
        rcases mem_append.mp hentry with hentry | hentry
        · exact hentry
        · rw [mem_singleton.mp hentry] at hold
          exact absurd hold (Nat.not_succ_le_self _)
      kept := by
        intro operation _ _ entry hentry _
        rw [hentries]
        exact mem_append_left _ hentry
      survives := by
        intro operation hmem
        obtain ⟨_, hplace⟩ := mem_iff_getElem?.mp hmem
        obtain ⟨later, hlater, hevolves⟩ := happends.derived.evolves hplace
        exact .inl ⟨later, mem_of_getElem? hlater, hevolves.handle⟩
      origin := by
        intro operation hmem
        exact (happends.derived.origin hmem).imp_right fun hintent => hadmits _ hintent }

section

variable (hinjective : Function.Injective (mac.authenticate key))
  (hsound : ledger.Sound mac key ring)
include hinjective hsound

theorem Prunes.follows {through : ℕ} (hprunes : ledger.Prunes through now next) :
    Follows now command ledger next := by
  obtain ⟨_, _, _, row, -, -, -, -, -, rfl⟩ := hprunes.dropped
  -- What is dropped with its first row has expired and is complete.
  have hfree : ∀ operation ∈ ledger.operations, operation.firstSequence ≤ through →
      operation.terminalRecorded = true ∧ operation.handle.body.expiresAt ≤ now := by
    intro operation hmem hfirst
    have hheld := hprunes.free _ hmem
    unfold Holds at hheld
    push Not at hheld
    obtain ⟨hterminal, -, hexpired⟩ := hheld hfirst
    exact ⟨by simpa using hterminal, hexpired⟩
  exact
    { identity := rfl
      sequence_le := le_rfl
      rows := fun entry hentry _ => mem_of_mem_drop hentry
      kept := by
        intro operation hmem hpending entry hentry htag
        have hfirst : through < operation.firstSequence := by
          by_contra hnot
          obtain ⟨hterminal, hexpired⟩ := hfree _ hmem (not_lt.mp hnot)
          rcases hpending with hintent | hopen | hlive
          · have hsettled := hsound.consistent.settled _ hmem
            exact absurd (hsettled.reserved_of_intent hintent).1 (by simp [hterminal])
          · exact absurd hterminal (by simp [hopen])
          · exact absurd hlive (not_lt.mpr hexpired)
        obtain ⟨_, howner, hmac, _⟩ := hsound.replays.row_of_operation le_rfl .nil hentry htag
        obtain rfl := hsound.consistent.eq_of_mac hinjective howner hmem hmac
        obtain ⟨position, hplace⟩ := mem_iff_getElem?.mp hentry
        have hsequence := hsound.replays.sequence_of_getElem? hplace
        dsimp only at hsequence
        refine mem_iff_getElem?.mpr ⟨position - (through - ledger.floor), ?_⟩
        change (ledger.entries.drop (through - ledger.floor))[_]? = _
        rw [getElem?_drop, ← hplace]
        congr 1
        omega
      survives := by
        intro operation hmem
        by_cases hfirst : operation.firstSequence ≤ through
        · exact .inr (hfree _ hmem hfirst).2
        · exact .inl ⟨operation, mem_filter.mpr ⟨hmem, decide_eq_true (not_le.mp hfirst)⟩, rfl⟩
      origin := fun operation hmem =>
        .inl ⟨operation, (mem_filter.mp hmem).1, rfl, fun _ => rfl⟩ }

/-- An accepted command keeps the invariant and follows from the ledger before. -/
theorem apply_eq_ok (happly : ledger.apply mac key ring now command = .ok next) :
    next.Sound mac key ring ∧ Follows now command ledger next := by
  obtain ⟨middle, hexecute, hseal⟩ := bind_eq_ok happly
  -- Nothing is left to seal after a ledger that keeps the invariant.
  have hdone : ∀ {middle : LedgerState δ}, middle.Sound mac key ring →
      middle.sealContinuity mac ring = .ok next → middle = next := by
    intro middle hmiddle hseal
    obtain ⟨chain, hchain, hsigned⟩ := hmiddle.signed
    rw [hsigned.sealContinuity_eq hchain] at hseal
    exact Except.ok.inj hseal
  have happended : ∀ {payload : EntryPayload δ} {extended : LedgerState δ},
      (∀ handle, payload = .intent handle → command = .intent handle ∧
        now < handle.body.expiresAt ∧
        ∀ old ∈ ledger.operations, old.handle.request ≠ handle.request) →
      ledger.Appends mac key payload extended → extended.sealContinuity mac ring = .ok next →
      next.Sound mac key ring ∧ Follows now command ledger next := by
    intro payload extended hadmits happends hseal
    obtain ⟨hnext, signed, rfl⟩ := happends.sound hsound hseal
    exact ⟨hnext, happends.follows hadmits⟩
  have hsame : middle = ledger →
      next.Sound mac key ring ∧ Follows now command ledger next := by
    rintro rfl
    obtain rfl := hdone hsound hseal
    exact ⟨hsound, .refl⟩
  cases command with
  | intent =>
    rcases admit_eq_ok hexecute with ⟨hmiddle, -⟩ | ⟨happends, hlive, -, hfresh⟩
    · exact hsame hmiddle
    · refine happended (fun other hintent => ?_) happends hseal
      cases hintent
      exact ⟨rfl, hlive, hfresh⟩
  | commit | reject =>
    rcases resolve_eq_ok hinjective hsound rfl hexecute with hmiddle | happends
    · exact hsame hmiddle
    · exact happended (fun _ hintent => by cases hintent) happends hseal
  | terminal =>
    rcases acknowledgeTerminal_eq_ok hinjective hsound hexecute with hmiddle | happends
    · exact hsame hmiddle
    · exact happended (fun _ hintent => by cases hintent) happends hseal
  | transition =>
    rcases transitionKey_eq_ok hsound hexecute with hmiddle | ⟨extended, happends, hsealed⟩
    · exact hsame hmiddle
    · obtain rfl := hdone (happends.sound hsound hsealed).1 hseal
      exact happended (fun _ hintent => by cases hintent) happends hsealed
  | checkpoint =>
    obtain ⟨hmiddle, chain, rfl⟩ := recordCheckpoint_eq_ok hsound hexecute
    obtain rfl := hdone hmiddle hseal
    exact ⟨hmiddle, .of_continuity (some chain)⟩
  | acknowledgeExport =>
    obtain ⟨hmiddle, chain, rfl⟩ := acknowledgeExport_eq_ok hsound hexecute
    obtain rfl := hdone hmiddle hseal
    exact ⟨hmiddle, .of_continuity (some chain)⟩
  | prune =>
    rcases prune_eq_ok hexecute with hmiddle | hprunes
    · exact hsame hmiddle
    · obtain rfl := hdone (hprunes.sound hsound) hseal
      exact ⟨hprunes.sound hsound, hprunes.follows hinjective hsound⟩

/-- A refused command changes nothing. -/
theorem step_follows (input : ℤ × Command δ) :
    (ledger.step mac key ring input).Sound mac key ring ∧
      Follows input.1 input.2 ledger (ledger.step mac key ring input) := by
  unfold step
  cases happly : ledger.apply mac key ring input.1 input.2 with
  | ok => exact apply_eq_ok hinjective hsound happly
  | error => exact ⟨hsound, .refl⟩

end

theorem run_cons (input : ℤ × Command δ) (commands : List (ℤ × Command δ)) :
    ledger.run mac key ring (input :: commands) =
      (ledger.step mac key ring input).run mac key ring commands :=
  foldl_cons

theorem run_append (before after : List (ℤ × Command δ)) :
    ledger.run mac key ring (before ++ after) =
      (ledger.run mac key ring before).run mac key ring after :=
  foldl_append

section

variable (hinjective : Function.Injective (mac.authenticate key))
  (hsound : ledger.Sound mac key ring)
include hinjective hsound

theorem run_sound (commands : List (ℤ × Command δ)) :
    (ledger.run mac key ring commands).Sound mac key ring ∧
      (ledger.run mac key ring commands).identity = ledger.identity := by
  induction commands generalizing ledger with
  | nil => exact ⟨hsound, rfl⟩
  | cons _ _ ih =>
    obtain ⟨hnext, hfollows⟩ := step_follows hinjective hsound _
    obtain ⟨hfinal, hidentity⟩ := ih hnext
    exact ⟨hfinal, hidentity.trans hfollows.identity⟩

/-- A sequence number that has been given out stays with its row. -/
theorem run_rows (commands : List (ℤ × Command δ)) {entry : LedgerEntry δ}
    (hentry : entry ∈ (ledger.run mac key ring commands).entries)
    (hold : entry.sequence ≤ ledger.sequence) : entry ∈ ledger.entries := by
  induction commands generalizing ledger with
  | nil => exact hentry
  | cons _ _ ih =>
    obtain ⟨hnext, hfollows⟩ := step_follows hinjective hsound _
    exact hfollows.rows _ (ih hnext hentry (hold.trans hfollows.sequence_le)) hold

/-- An operation leaves the ledger only after it has expired. -/
theorem run_survives {now : ℤ} (hclock : ∀ input ∈ commands, input.1 ≤ now)
    (hheld : ∃ operation ∈ ledger.operations, operation.handle = handle) :
    (∃ operation ∈ (ledger.run mac key ring commands).operations, operation.handle = handle) ∨
      handle.body.expiresAt ≤ now := by
  induction commands generalizing ledger with
  | nil => exact .inl hheld
  | cons _ _ ih =>
    obtain ⟨hnext, hfollows⟩ := step_follows hinjective hsound _
    obtain ⟨operation, hmem, rfl⟩ := hheld
    rcases hfollows.survives _ hmem with hlater | hexpired
    · exact ih hnext (fun later hlater => hclock _ (mem_cons_of_mem _ hlater)) hlater
    · exact .inr (hexpired.trans (hclock _ mem_cons_self))

/-- Once closed, an operation keeps its outcome: while it is in the ledger no
command changes it, and after it has left its handle has expired. -/
theorem run_outcome (hclock : commands.Pairwise fun earlier later => earlier.1 ≤ later.1)
    {outcome : AuditOperationState} (hclosed : outcome ≠ .intent)
    (hsame : ∀ operation ∈ ledger.operations, operation.handle = handle → operation.state = outcome)
    (hheld : (∃ operation ∈ ledger.operations, operation.handle = handle) ∨
      ∀ input ∈ commands, handle.body.expiresAt ≤ input.1) :
    ∀ operation ∈ (ledger.run mac key ring commands).operations,
      operation.handle = handle → operation.state = outcome := by
  induction commands generalizing ledger with
  | nil => exact hsame
  | cons _ _ ih =>
    obtain ⟨hnext, hfollows⟩ := step_follows hinjective hsound _
    obtain ⟨hfirst, hclock⟩ := pairwise_cons.mp hclock
    refine ih hnext hclock ?_ ?_
    · rintro operation hmem rfl
      rcases hfollows.origin _ hmem with ⟨old, hold, hhandle, hstate⟩ | ⟨-, hlive, hfresh⟩
      · have hbefore := hsame _ hold hhandle
        rw [hstate (hbefore ▸ hclosed), hbefore]
      · rcases hheld with ⟨old, hold, hhandle⟩ | hexpired
        · exact absurd (by rw [hhandle]) (hfresh _ hold)
        · exact absurd (hexpired _ mem_cons_self) (not_le.mpr hlive)
    · rcases hheld with ⟨old, hold, rfl⟩ | hexpired
      · rcases hfollows.survives _ hold with hlater | hexpired
        · exact .inl hlater
        · exact .inr fun later hlater => hexpired.trans (hfirst _ hlater)
      · exact .inr fun later hlater => hexpired _ (mem_cons_of_mem _ hlater)

end

/-- The ledger before and after an intent command: a new operation was opened. -/
def Admits (mac : Authenticator δ) (key : AuditKey) (ring : AuditKeyRing)
    (ledger : LedgerState δ) (now : ℤ) (handle : AuditOperationHandle δ) : Prop :=
  (∀ operation ∈ ledger.operations, operation.handle ≠ handle) ∧
    ∃ operation ∈ (ledger.step mac key ring (now, .intent handle)).operations,
      operation.handle = handle

section

variable (hinjective : Function.Injective (mac.authenticate key))
  (hsound : ledger.Sound mac key ring) (hadmits : ledger.Admits mac key ring now handle)
include hinjective hsound hadmits

/-- A new operation is live and has a request that no operation of the ledger has. -/
theorem Admits.fresh :
    now < handle.body.expiresAt ∧
      ∀ old ∈ ledger.operations, old.handle.request ≠ handle.request := by
  obtain ⟨habsent, operation, hmem, rfl⟩ := hadmits
  have hfollows := (step_follows hinjective hsound (now, .intent operation.handle)).2
  rcases hfollows.origin _ hmem with ⟨old, hold, hhandle, -⟩ | ⟨-, hlive, hfresh⟩
  · exact absurd hhandle (habsent _ hold)
  · exact ⟨hlive, hfresh⟩

/-- Between two admissions of one request the first handle has expired. -/
theorem Admits.expired {handle' : AuditOperationHandle δ} {now' : ℤ}
    {middle : List (ℤ × Command δ)} (hclock : ∀ input ∈ middle, input.1 ≤ now')
    (hadmits' : (ledger.run mac key ring ((now, .intent handle) :: middle)).Admits mac key ring
      now' handle') (hrequest : handle.request = handle'.request) :
    handle.body.expiresAt ≤ now' := by
  have hnext := (step_follows hinjective hsound (now, .intent handle)).1
  have hlater := (run_sound hinjective hsound ((now, .intent handle) :: middle)).1
  rcases run_survives hinjective hnext hclock hadmits.2 with ⟨_, hold, rfl⟩ | hexpired
  · exact absurd hrequest ((hadmits'.fresh hinjective hlater).2 _ hold)
  · exact hexpired

end

/-- The rows are numbered from the floor on. -/
theorem Sound.sequences (hsound : ledger.Sound mac key ring) :
    ledger.entries.map LedgerEntry.sequence = range' (ledger.floor + 1) ledger.entries.length := by
  refine ext_getElem? fun position => ?_
  rw [getElem?_map]
  cases hentry : ledger.entries[position]? with
  | none =>
    rw [getElem?_eq_none_iff] at hentry
    rw [Option.map_none, getElem?_eq_none (by rw [length_range']; exact hentry)]
  | some =>
    have hposition := (List.getElem?_eq_some_iff.mp hentry).1
    have hsequence := hsound.replays.sequence_of_getElem? hentry
    rw [Option.map_some, getElem?_range' hposition, hsequence, Nat.one_mul]

theorem provision_sound (mac : Authenticator δ) (key : AuditKey)
    (identity : ConfigConsensusIdentity) (projection : AuditToken) {limits : AuditLedgerLimits}
    {epoch : ℕ} (hlimits : limits.validate = .ok ()) (hepoch : (ring.keys epoch).isSome) :
    (provision mac identity projection limits epoch).Sound mac key ring := by
  obtain ⟨signing, hsigning⟩ := Option.isSome_iff_exists.mp hepoch
  refine ⟨hlimits, rfl, Nat.zero_le _, Nat.zero_le _, Nat.zero_le _, .nil _,
    ContinuityState.new mac epoch, rfl, ?_⟩
  exact
    { version := rfl
      length := rfl
      rows := rfl
      key := ⟨signing, okOr_eq_ok.mpr hsigning⟩
      checkpoint := fun _ hsome => by cases hsome
      exported := fun _ hsome => by cases hsome }

end LedgerState

end PacketCore.Audit
