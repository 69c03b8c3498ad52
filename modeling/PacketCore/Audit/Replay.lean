import PacketCore.Audit.Validation

/-!
# The meaning of the rows

A row is derived from the rows in front of it: an intent opens an operation with
a request that no retained operation has, an outcome closes the open operation
with its tag, an acknowledgement ends a closed one.  The relation `Replays` says
this without the validator's index, and the validator accepts what it relates.
-/

namespace PacketCore.Audit

open List

variable {δ : Type}

section Operations

variable (operation : LedgerOperation δ) (handle : AuditOperationHandle δ)
  (state : AuditOperationState) (sequence : ℕ)

namespace LedgerOperation

@[simp]
theorem admitted_handle : (admitted handle sequence).handle = handle := by
  unfold admitted
  split <;> rfl

@[simp]
theorem admitted_firstSequence : (admitted handle sequence).firstSequence = sequence := by
  unfold admitted
  split <;> rfl

@[simp]
theorem admitted_lastSequence : (admitted handle sequence).lastSequence = sequence := by
  unfold admitted
  split <;> rfl

@[simp]
theorem resolved_handle : (operation.resolved state sequence).handle = operation.handle := rfl

@[simp]
theorem resolved_firstSequence :
    (operation.resolved state sequence).firstSequence = operation.firstSequence := rfl

@[simp]
theorem acknowledged_handle : (operation.acknowledged sequence).handle = operation.handle := rfl

@[simp]
theorem acknowledged_firstSequence :
    (operation.acknowledged sequence).firstSequence = operation.firstSequence := rfl

end LedgerOperation

end Operations

/-- The tag of the operation that a row belongs to. -/
def EntryPayload.tag? : EntryPayload δ → Option δ
  | .intent handle => some handle.mac
  | .outcome tag _ | .terminal tag => some tag
  | .keyTransition _ | .event _ => none

variable [LinearOrder δ]

section Relation

variable (mac : Authenticator δ) (key : AuditKey)
  (identity : ConfigConsensusIdentity) (projection : AuditToken)

/-- A handle that the root key authenticates for this fleet. -/
def AuditOperationHandle.Authentic (handle : AuditOperationHandle δ) : Prop :=
  handle.verify mac key identity handle.body.binding.caller = .ok ()

/-- What a row makes of the operations in front of it. -/
inductive Derives : List (LedgerOperation δ) → ℕ → EntryPayload δ → List (LedgerOperation δ) → Prop
  | intent {derived sequence} (handle : AuditOperationHandle δ)
      (hauthentic : handle.Authentic mac key identity)
      (hprojection : handle.body.event.projection = projection)
      (hfresh : ∀ operation ∈ derived, operation.handle.request ≠ handle.request) :
      Derives derived sequence (.intent handle) (derived ++ [.admitted handle sequence])
  | outcome {sequence} (before after : List (LedgerOperation δ))
      (operation : LedgerOperation δ) (state : AuditOperationState)
      (hfirst : ∀ earlier ∈ before, earlier.handle.mac ≠ operation.handle.mac)
      (hintent : operation.state = .intent) (hcloses : state.closes = true) :
      Derives (before ++ operation :: after) sequence (.outcome operation.handle.mac state)
        (before ++ operation.resolved state sequence :: after)
  | terminal {sequence} (before after : List (LedgerOperation δ)) (operation : LedgerOperation δ)
      (hfirst : ∀ earlier ∈ before, earlier.handle.mac ≠ operation.handle.mac)
      (hclosed : operation.state ≠ .intent) (hopen : operation.terminalRecorded = false) :
      Derives (before ++ operation :: after) sequence (.terminal operation.handle.mac)
        (before ++ operation.acknowledged sequence :: after)
  | keyTransition {derived sequence} (transition : AuditKeyTransition δ) :
      Derives derived sequence (.keyTransition transition) derived
  | event {derived sequence} (event : ProjectedAuditEvent)
      (hprojection : event.projection = projection) :
      Derives derived sequence (.event event) derived

/-- The row that follows a replayed prefix. -/
def Replay.row (replay : Replay δ) (payload : EntryPayload δ) : LedgerEntry δ :=
  ⟨replay.sequence + 1, replay.previous, payload, key.epoch, mac.authenticate key
    (.entry identity (replay.sequence + 1) replay.previous key.epoch payload)⟩

/-- Rows that follow one another from one replayed prefix to another. -/
inductive Replays : Replay δ → List (LedgerEntry δ) → Replay δ → Prop
  | nil (replay : Replay δ) : Replays replay [] replay
  | cons {replay : Replay δ} {payload : EntryPayload δ} {derived : List (LedgerOperation δ)}
      {rest : List (LedgerEntry δ)} {final : Replay δ}
      (hderives : Derives mac key identity projection replay.derived (replay.sequence + 1)
        payload derived)
      (hrest : Replays ⟨replay.sequence + 1, (replay.row mac key identity payload).mac, derived⟩
        rest final) :
      Replays replay (replay.row mac key identity payload :: rest) final

end Relation

variable {mac : Authenticator δ} {key : AuditKey}
  {identity : ConfigConsensusIdentity} {projection : AuditToken}

namespace AuditOperationHandle

theorem authentic_iff {handle : AuditOperationHandle δ} :
    handle.Authentic mac key identity ↔
      handle.body.version = 1 ∧ handle.body.identity = identity ∧
        handle.body.keyEpoch = key.epoch ∧
        mac.authenticate key (.handle handle.body) = handle.mac := by
  unfold Authentic AuditOperationHandle.verify Audit.verify
  rw [bind_eq_ok_iff]
  simp only [refuseIf_eq_ok, exists_const]
  tauto

theorem Authentic.eq_of_mac {left right : AuditOperationHandle δ}
    (hinjective : Function.Injective (mac.authenticate key))
    (hleft : left.Authentic mac key identity) (hright : right.Authentic mac key identity)
    (htag : left.mac = right.mac) : left = right := by
  have hmessage : Message.handle left.body = Message.handle (δ := δ) right.body := by
    apply hinjective
    calc mac.authenticate key (.handle left.body) = left.mac := (authentic_iff.mp hleft).2.2.2
      _ = right.mac := htag
      _ = mac.authenticate key (.handle right.body) := (authentic_iff.mp hright).2.2.2.symm
  cases left
  simp_all

end AuditOperationHandle

/-- What later rows may change of an operation. -/
structure LedgerOperation.Evolves (sequence : ℕ) (operation later : LedgerOperation δ) : Prop where
  handle : later.handle = operation.handle
  firstSequence : later.firstSequence = operation.firstSequence
  state : operation.state ≠ .intent → later.state = operation.state
  lastSequence : later = operation ∨ later.lastSequence = sequence

omit [LinearOrder δ] in
theorem LedgerOperation.Evolves.refl (sequence : ℕ)
    (operation : LedgerOperation δ) : operation.Evolves sequence operation :=
  ⟨rfl, rfl, fun _ => rfl, .inl rfl⟩

variable {position : ℕ} {α : Type*} {operation : LedgerOperation δ} {entry : LedgerEntry δ}
  {derived' back front : List (LedgerOperation δ)} {payload : EntryPayload δ}

theorem getElem?_replace {before after : List α} {old found : α} (new : α)
    (hfound : (before ++ old :: after)[position]? = some found) :
    (before ++ new :: after)[position]? = some found ∨
      (found = old ∧ (before ++ new :: after)[position]? = some new) := by
  rcases lt_trichotomy position before.length with hless | rfl | _
  · left
    rw [getElem?_append_left hless] at hfound ⊢
    exact hfound
  · right
    simp only [getElem?_append_right le_rfl, Nat.sub_self, getElem?_cons_zero,
      Option.some.injEq] at hfound ⊢
    exact ⟨hfound.symm, trivial⟩
  · left
    obtain ⟨extra, rfl⟩ : ∃ extra, position = before.length + 1 + extra :=
      ⟨position - before.length - 1, by omega⟩
    have hshift : before.length + 1 + extra = before.length + (extra + 1) := by ring
    rw [hshift, getElem?_append_right (by omega), Nat.add_sub_cancel_left,
      getElem?_cons_succ] at hfound ⊢
    exact hfound

theorem modify_middle (before after : List α) (old : α) (edit : α → α) :
    (before ++ old :: after).modify before.length edit = before ++ edit old :: after := by
  induction before with
  | nil => rfl
  | cons _ _ ih =>
    rw [cons_append, length_cons, modify_succ_cons, ih, cons_append]

namespace Derives

variable {derived derived' : List (LedgerOperation δ)} {sequence : ℕ} {payload : EntryPayload δ}

section

variable (hderives : Derives mac key identity projection derived sequence payload derived')
include hderives

/-- Only an intent adds a handle. -/
theorem map_handle :
    derived'.map LedgerOperation.handle =
      derived.map LedgerOperation.handle ++ payload.handle?.toList := by
  cases hderives <;> simp [EntryPayload.handle?]

/-- Every operation stays at its place and evolves. -/
theorem evolves (hplace : derived[position]? = some operation) :
    ∃ later, derived'[position]? = some later ∧ operation.Evolves sequence later := by
  cases hderives with
  | intent =>
    refine ⟨operation, ?_, .refl sequence operation⟩
    rw [List.getElem?_append_left (List.getElem?_eq_some_iff.mp hplace).1, hplace]
  | outcome _ _ _ _ _ hintent =>
    rcases getElem?_replace _ hplace with hsame | ⟨rfl, hnew⟩
    · exact ⟨operation, hsame, .refl sequence operation⟩
    · exact ⟨_, hnew, rfl, rfl, fun hclosed => absurd hintent hclosed, .inr rfl⟩
  | terminal =>
    rcases getElem?_replace _ hplace with hsame | ⟨rfl, hnew⟩
    · exact ⟨operation, hsame, .refl sequence operation⟩
    · exact ⟨_, hnew, rfl, rfl, fun _ => rfl, .inr rfl⟩
  | keyTransition | event => exact ⟨operation, hplace, .refl sequence operation⟩

/-- A row belongs to an operation that is there after it. -/
theorem belongs {tag : δ} (htag : payload.tag? = some tag) :
    ∃ operation ∈ derived', operation.handle.mac = tag := by
  cases hderives with
  | intent handle =>
    cases htag
    exact ⟨.admitted handle sequence, by simp, by simp⟩
  | outcome _ _ target state =>
    cases htag
    exact ⟨target.resolved state sequence, by simp, rfl⟩
  | terminal _ _ target =>
    cases htag
    exact ⟨target.acknowledged sequence, by simp, rfl⟩
  | keyTransition => cases htag
  | event => cases htag

end

end Derives

namespace Replays

variable {start middle final : Replay δ} {entries more : List (LedgerEntry δ)}

theorem append (hfirst : Replays mac key identity projection start entries middle)
    (hsecond : Replays mac key identity projection middle more final) :
    Replays mac key identity projection start (entries ++ more) final := by
  induction hfirst with
  | nil => exact hsecond
  | cons hderives _ ih => exact .cons hderives (ih hsecond)

theorem split (hall : Replays mac key identity projection start (entries ++ more) final) :
    ∃ middle, Replays mac key identity projection start entries middle ∧
      Replays mac key identity projection middle more final := by
  induction entries generalizing start with
  | nil => exact ⟨start, .nil start, hall⟩
  | cons _ _ ih =>
    cases hall with
    | cons hderives hrest =>
      obtain ⟨middle, hfirst, hsecond⟩ := ih hrest
      exact ⟨middle, .cons hderives hfirst, hsecond⟩

section

variable (hrun : Replays mac key identity projection start entries final)
include hrun

theorem sequence_eq : final.sequence = start.sequence + entries.length := by
  induction hrun with
  | nil => rfl
  | cons _ _ ih =>
    rw [ih, length_cons]
    ring

/-- The rows are numbered one after the other. -/
theorem sequence_of_getElem? (hentry : entries[position]? = some entry) :
    entry.sequence = start.sequence + 1 + position := by
  induction hrun generalizing position with
  | nil => simp at hentry
  | cons _ _ ih =>
    cases position with
    | zero =>
      cases hentry
      rfl
    | succ =>
      rw [ih hentry]
      ring

theorem map_handle :
    final.derived.map LedgerOperation.handle =
      start.derived.map LedgerOperation.handle ++ intents entries := by
  induction hrun with
  | nil => simp [intents]
  | @cons replay payload derived rest final hderives _ ih =>
    rw [ih, hderives.map_handle, append_assoc]
    have hpayload : (replay.row mac key identity payload).payload = payload := rfl
    rw [intents, intents, filterMap_cons, hpayload]
    cases payload.handle? <;> rfl

/-- The tag in front of the next row is that of the last one. -/
theorem previous_eq {last : LedgerEntry δ}
    (hlast : entries.getLast? = some last) : final.previous = last.mac := by
  induction hrun with
  | nil => simp at hlast
  | @cons replay payload derived rest final hderives hrest ih =>
    cases rest with
    | nil =>
      cases hrest
      cases hlast
      rfl
    | cons =>
      exact ih hlast

end

end Replays

section Consistency

variable (mac key identity)

/-- An operation with its first and last row, and what it still has reserved. -/
structure LedgerOperation.Settled (floor sequence : ℕ) (operation : LedgerOperation δ) : Prop where
  authentic : operation.handle.Authentic mac key identity
  reserved : LedgerState.reservation operation = .ok operation.reserved
  floor_lt : floor < operation.firstSequence
  first_le : operation.firstSequence ≤ operation.lastSequence
  last_le : operation.lastSequence ≤ sequence

/-- The operations derived from the rows above `floor`. -/
structure Consistent (floor sequence : ℕ) (derived : List (LedgerOperation δ)) : Prop where
  requests : (derived.map fun operation => operation.handle.request).Nodup
  settled : ∀ operation ∈ derived, operation.Settled mac key identity floor sequence

end Consistency

namespace LedgerOperation.Settled

variable {floor sequence : ℕ} {operation : LedgerOperation δ}

section

variable (hsettled : operation.Settled mac key identity floor sequence)
include hsettled

theorem later {next : ℕ} (hnext : sequence ≤ next) :
    operation.Settled mac key identity floor next :=
  { hsettled with last_le := hsettled.last_le.trans hnext }

/-- An open operation has room for its outcome and its acknowledgement. -/
theorem reserved_of_intent (hintent : operation.state = .intent) :
    operation.terminalRecorded = false ∧ operation.reserved = 2 := by
  have hreserved := hsettled.reserved
  unfold LedgerState.reservation at hreserved
  rw [hintent] at hreserved
  cases hterminal : operation.terminalRecorded <;> rw [hterminal] at hreserved
  · exact ⟨rfl, (Except.ok.inj hreserved).symm⟩
  · cases hreserved

/-- A closed operation has room for its acknowledgement until it is recorded. -/
theorem reserved_of_closed (hclosed : operation.state ≠ .intent) :
    operation.reserved = if operation.terminalRecorded then 0 else 1 := by
  have hreserved := hsettled.reserved
  unfold LedgerState.reservation at hreserved
  cases hstate : operation.state with
  | intent => exact absurd hstate hclosed
  | committed | rejected | observed =>
    cases hterminal : operation.terminalRecorded <;>
      rw [hterminal] at hreserved <;> simpa using hreserved.symm

end

theorem admitted {handle : AuditOperationHandle δ}
    (hauthentic : handle.Authentic mac key identity) (hfloor : floor < sequence) :
    (LedgerOperation.admitted handle sequence).Settled mac key identity floor sequence where
  authentic := by simpa using hauthentic
  reserved := by
    unfold LedgerOperation.admitted
    split <;> rfl
  floor_lt := by simpa using hfloor
  first_le := by simp
  last_le := by simp

theorem resolved (hsettled : operation.Settled mac key identity floor sequence)
    (hintent : operation.state = .intent) {state : AuditOperationState}
    (hcloses : state.closes = true) :
    (operation.resolved state (sequence + 1)).Settled mac key identity floor (sequence + 1) where
  authentic := hsettled.authentic
  reserved := by
    have hterminal : (operation.resolved state (sequence + 1)).terminalRecorded = false :=
      (hsettled.reserved_of_intent hintent).1
    unfold LedgerState.reservation
    rw [hterminal]
    cases state <;> first | rfl | cases hcloses
  floor_lt := hsettled.floor_lt
  first_le := (hsettled.first_le.trans hsettled.last_le).trans (Nat.le_succ _)
  last_le := le_rfl

theorem acknowledged (hsettled : operation.Settled mac key identity floor sequence)
    (hclosed : operation.state ≠ .intent) :
    (operation.acknowledged (sequence + 1)).Settled mac key identity floor (sequence + 1) where
  authentic := hsettled.authentic
  reserved := by
    unfold LedgerState.reservation LedgerOperation.acknowledged
    cases hstate : operation.state with
    | intent => exact absurd hstate hclosed
    | committed | rejected | observed => rfl
  floor_lt := hsettled.floor_lt
  first_le := (hsettled.first_le.trans hsettled.last_le).trans (Nat.le_succ _)
  last_le := le_rfl

end LedgerOperation.Settled

namespace Consistent

variable {floor sequence : ℕ} {derived : List (LedgerOperation δ)}

theorem nil : Consistent mac key identity floor sequence ([] : List (LedgerOperation δ)) :=
  ⟨nodup_nil, by simp⟩

/-- Replacing one operation by a settled one with its handle. -/
theorem replace {before after : List (LedgerOperation δ)} {operation new : LedgerOperation δ}
    (hold : Consistent mac key identity floor sequence (before ++ operation :: after))
    (hhandle : new.handle = operation.handle)
    (hnew : new.Settled mac key identity floor (sequence + 1)) :
    Consistent mac key identity floor (sequence + 1) (before ++ new :: after) where
  requests := by
    have hrequests := hold.requests
    simp only [map_append, map_cons] at hrequests ⊢
    rw [hhandle]
    exact hrequests
  settled := by
    intro _ hother
    simp only [mem_append, mem_cons] at hother
    rcases hother with hother | rfl | hother
    · exact (hold.settled _ (by simp [hother])).later (Nat.le_succ _)
    · exact hnew
    · exact (hold.settled _ (by simp [hother])).later (Nat.le_succ _)

theorem derives (hconsistent : Consistent mac key identity floor sequence derived)
    (hfloor : floor ≤ sequence)
    (hderives : Derives mac key identity projection derived (sequence + 1) payload derived') :
    Consistent mac key identity floor (sequence + 1) derived' := by
  have hlater : Consistent mac key identity floor (sequence + 1) derived :=
    ⟨hconsistent.requests, fun operation hmem =>
      (hconsistent.settled _ hmem).later (Nat.le_succ _)⟩
  cases hderives with
  | intent _ hauthentic _ hfresh =>
    constructor
    · rw [map_append, map_cons, map_nil, LedgerOperation.admitted_handle]
      refine nodup_append'.mpr ⟨hconsistent.requests, nodup_singleton _, ?_⟩
      rw [disjoint_singleton, mem_map]
      rintro ⟨operation, hmem, hrequest⟩
      exact hfresh _ hmem hrequest
    · intro operation hmem
      rcases mem_append.mp hmem with hmem | hmem
      · exact hlater.settled _ hmem
      · rw [mem_singleton.mp hmem]
        exact .admitted hauthentic (by omega)
  | outcome _ _ _ _ _ hintent hcloses =>
    exact hconsistent.replace rfl ((hconsistent.settled _ (by simp)).resolved hintent hcloses)
  | terminal _ _ _ _ hclosed =>
    exact hconsistent.replace rfl ((hconsistent.settled _ (by simp)).acknowledged hclosed)
  | keyTransition => exact hlater
  | event => exact hlater

theorem eq_of_mac (hinjective : Function.Injective (mac.authenticate key))
    (hconsistent : Consistent mac key identity floor sequence derived)
    {left right : LedgerOperation δ} (hleft : left ∈ derived) (hright : right ∈ derived)
    (htag : left.handle.mac = right.handle.mac) : left = right := by
  have hhandle : left.handle = right.handle :=
    (hconsistent.settled _ hleft).authentic.eq_of_mac hinjective
      (hconsistent.settled _ hright).authentic htag
  exact inj_on_of_nodup_map hconsistent.requests hleft hright (by rw [hhandle])

end Consistent

namespace Replays

variable {start final : Replay δ} {entries : List (LedgerEntry δ)} {floor : ℕ}

section

variable (hrun : Replays mac key identity projection start entries final)
  (hfloor : floor ≤ start.sequence)
  (hstart : Consistent mac key identity floor start.sequence start.derived)
include hrun hfloor hstart

theorem consistent : Consistent mac key identity floor final.sequence final.derived := by
  induction hrun with
  | nil => exact hstart
  | cons hderives _ ih => exact ih (Nat.le_succ_of_le hfloor) (hstart.derives hfloor hderives)

/-- Every operation stays at its place, with its handle and its first row, and
its last row does not move back. -/
theorem evolves (hplace : start.derived[position]? = some operation) :
    ∃ later, final.derived[position]? = some later ∧ later.handle = operation.handle ∧
      later.firstSequence = operation.firstSequence ∧
      operation.lastSequence ≤ later.lastSequence := by
  induction hrun generalizing operation with
  | nil => exact ⟨operation, hplace, rfl, rfl, le_rfl⟩
  | cons hderives _ ih =>
    obtain ⟨_, hnext, hevolves⟩ := hderives.evolves hplace
    obtain ⟨later, hlater, hhandle, hfirst, hlast⟩ :=
      ih (Nat.le_succ_of_le hfloor) (hstart.derives hfloor hderives) hnext
    refine ⟨later, hlater, hhandle.trans hevolves.handle,
      hfirst.trans hevolves.firstSequence, le_trans ?_ hlast⟩
    rcases hevolves.lastSequence with rfl | hmoved
    · exact le_rfl
    · rw [hmoved]
      exact (hstart.settled _ (mem_of_getElem? hplace)).last_le.trans (Nat.le_succ _)

theorem row_of_operation (hentry : entry ∈ entries) {tag : δ}
    (htag : entry.payload.tag? = some tag) :
    ∃ operation ∈ final.derived, operation.handle.mac = tag ∧
      operation.firstSequence ≤ entry.sequence := by
  induction hrun with
  | nil => simp at hentry
  | @cons replay payload derived rest final hderives hrest ih =>
    have hnext := hstart.derives hfloor hderives
    rcases mem_cons.mp hentry with rfl | hentry
    · obtain ⟨operation, hmem, hmac⟩ := hderives.belongs htag
      obtain ⟨_, hplace⟩ := mem_iff_getElem?.mp hmem
      obtain ⟨later, hlater, hhandle, hfirst, -⟩ :=
        hrest.evolves (Nat.le_succ_of_le hfloor) hnext hplace
      have hsettled := hnext.settled _ hmem
      refine ⟨later, mem_of_getElem? hlater, by rw [hhandle, hmac], ?_⟩
      rw [hfirst]
      exact hsettled.first_le.trans hsettled.last_le
    · exact ih (Nat.le_succ_of_le hfloor) hnext hentry

end

end Replays

/-- A row touches an operation of the front part or is a row of the rest alone. -/
theorem Derives.suffix {sequence : ℕ}
    (hderives : Derives mac key identity projection (front ++ back) sequence payload derived') :
    (∃ position < front.length, ∃ touched, derived'[position]? = some touched ∧
      touched.lastSequence = sequence) ∨
    ∃ back', derived' = front ++ back' ∧
      Derives mac key identity projection back sequence payload back' := by
  -- Where the replaced operation lies: in front, or at the end of a piece of the rest.
  have hsplit : ∀ before after (old new : LedgerOperation δ),
      new.lastSequence = sequence → front ++ back = before ++ old :: after →
      (∃ position < front.length, ∃ touched,
        (before ++ new :: after)[position]? = some touched ∧ touched.lastSequence = sequence) ∨
      ∃ piece, before = front ++ piece ∧ back = piece ++ old :: after := by
    intro before after old new hnew heq
    rcases append_eq_append_iff.mp heq with ⟨piece, hbefore, hback⟩ | ⟨piece, hfront, hrest⟩
    · exact .inr ⟨piece, hbefore, hback⟩
    · cases piece with
      | nil =>
        refine .inr ⟨[], ?_, ?_⟩
        · simpa using hfront.symm
        · simpa using hrest.symm
      | cons =>
        refine .inl ⟨before.length, ?_, new, by simp, hnew⟩
        rw [hfront, length_append, length_cons]
        omega
  generalize hwhole : front ++ back = whole at hderives
  cases hderives with
  | intent handle hauthentic hprojection hfresh =>
    subst hwhole
    refine .inr ⟨back ++ [.admitted handle sequence], by rw [append_assoc], ?_⟩
    exact .intent handle hauthentic hprojection
      fun operation hmem => hfresh _ (mem_append_right _ hmem)
  | outcome _ after operation state hfirst hintent hcloses =>
    rcases hsplit _ _ _ (operation.resolved state sequence) rfl hwhole
      with htouched | ⟨piece, rfl, rfl⟩
    · exact .inl htouched
    · refine .inr ⟨piece ++ operation.resolved state sequence :: after, by rw [append_assoc], ?_⟩
      exact .outcome piece after operation state
        (fun earlier hmem => hfirst _ (mem_append_right _ hmem)) hintent hcloses
  | terminal _ after operation hfirst hclosed hopen =>
    rcases hsplit _ _ _ (operation.acknowledged sequence) rfl hwhole
      with htouched | ⟨piece, rfl, rfl⟩
    · exact .inl htouched
    · refine .inr ⟨piece ++ operation.acknowledged sequence :: after, by rw [append_assoc], ?_⟩
      exact .terminal piece after operation
        (fun earlier hmem => hfirst _ (mem_append_right _ hmem)) hclosed hopen
  | keyTransition transition => exact .inr ⟨back, hwhole.symm, .keyTransition transition⟩
  | event event hprojection => exact .inr ⟨back, hwhole.symm, .event event hprojection⟩

/-- Rows that leave the operations of the front part alone are rows of the rest. -/
theorem Replays.suffix {start final : Replay δ} {entries : List (LedgerEntry δ)}
    (hrun : Replays mac key identity projection start entries final) {floor through : ℕ}
    (hfloor : floor ≤ start.sequence) (hthrough : through ≤ start.sequence)
    (hstart : Consistent mac key identity floor start.sequence start.derived)
    (hsplit : start.derived = front ++ back) (hquiet : ∀ position < front.length, ∀ operation,
      final.derived[position]? = some operation → operation.lastSequence ≤ through) :
    ∃ back', final.derived = front ++ back' ∧
      Replays mac key identity projection ⟨start.sequence, start.previous, back⟩ entries
        ⟨final.sequence, final.previous, back'⟩ := by
  induction hrun generalizing back with
  | nil => exact ⟨back, hsplit, .nil _⟩
  | @cons replay payload derived rest final hderives hrest ih =>
    have hnext := hstart.derives hfloor hderives
    rw [hsplit] at hderives
    rcases hderives.suffix with ⟨position, hposition, _, hplace, _⟩ | ⟨next, hderived, htail⟩
    · obtain ⟨_, hlater, -, -, _⟩ :=
        hrest.evolves (Nat.le_succ_of_le hfloor) hnext hplace
      have hbound := hquiet _ hposition _ hlater
      omega
    · obtain ⟨back', hfinal, htail'⟩ :=
        ih (Nat.le_succ_of_le hfloor) (Nat.le_succ_of_le hthrough) hnext hderived hquiet
      exact ⟨back', hfinal, .cons htail htail'⟩

end PacketCore.Audit
