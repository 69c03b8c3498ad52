import PacketCore.Audit.Acceptance
import PacketCore.Audit.Chain

/-!
# What one command does to the ledger

A command leaves the ledger as it is, appends one row that the operations derive
from, stores a checkpoint, or drops a prefix of rows.
-/

namespace PacketCore.Audit.LedgerState

open List

variable {δ : Type} [LinearOrder δ] {mac : Authenticator δ} {key : AuditKey}
  {ring : AuditKeyRing} {ledger next : LedgerState δ}

variable (mac key ring) in
/-- The invariant of the stored ledger. -/
structure Sound (ledger : LedgerState δ) : Prop where
  limits : ledger.limits.validate = .ok ()
  version : ledger.version = 1
  count : ledger.operations.length ≤ ledger.limits.maxOperations
  used : ledger.usedCapacity ≤ ledger.limits.maxEvents
  bound : ledger.sequence ≤ Audit.lastSequence
  replays : Replays mac key ledger.identity ledger.projection
    ⟨ledger.floor, ledger.predecessor, []⟩ ledger.entries
    ⟨ledger.sequence, ledger.terminal, ledger.operations⟩
  signed : ∃ chain, ledger.continuity = some chain ∧ ledger.Signed mac ring chain

variable {operation : LedgerOperation δ} {payload : EntryPayload δ}
  {handle : AuditOperationHandle δ} {now : ℤ}
  {after before : List (LedgerOperation δ)} {checkpoint : AuditCheckpoint δ}

namespace Sound

section

variable (hsound : ledger.Sound mac key ring)
include hsound

theorem consistent :
    Consistent mac key ledger.identity ledger.floor ledger.sequence ledger.operations :=
  hsound.replays.consistent le_rfl .nil

theorem sequence_eq : ledger.sequence = ledger.floor + ledger.entries.length :=
  hsound.replays.sequence_eq

/-- Both validators accept the ledger. -/
theorem valid :
    ledger.validate mac key ledger.identity = .ok () ∧
      ledger.validateContinuity mac ring = .ok () := by
  obtain ⟨_, hchain, hsigned⟩ := hsound.signed
  refine ⟨?_, (validateContinuity_iff hchain).mpr hsigned⟩
  exact validate_of_replays hsound.limits hsound.version (by rw [hchain]; rfl) hsound.count
    hsound.used hsound.bound hsound.replays

/-- Reserved rows of one operation are not in use. -/
theorem reserved_le (hmem : operation ∈ ledger.operations) :
    ledger.entries.length + operation.reserved ≤ ledger.limits.maxEvents := by
  refine le_trans ?_ hsound.used
  exact Nat.add_le_add_left (single_le_sum (by simp) _ (mem_map_of_mem hmem)) _

end

end Sound

variable (mac key) in
/-- The ledger with one more row and the operations derived from it. -/
structure Appends (ledger : LedgerState δ) (payload : EntryPayload δ)
    (next : LedgerState δ) : Prop where
  derived : Derives mac key ledger.identity ledger.projection ledger.operations
    (ledger.sequence + 1) payload next.operations
  pushed : next = { ledger.push mac key payload with operations := next.operations }
  bound : ledger.sequence + 1 ≤ Audit.lastSequence
  used : next.usedCapacity ≤ ledger.limits.maxEvents
  count : next.operations.length ≤ ledger.limits.maxOperations

omit [LinearOrder δ] in
theorem append_eq_ok (hok : ledger.append mac key payload = .ok next) :
    next = ledger.push mac key payload ∧ ledger.sequence + 1 ≤ Audit.lastSequence := by
  obtain ⟨hbound, hok⟩ := refuseIf_bind hok
  obtain ⟨_, -, hok⟩ := bind_eq_ok hok
  cases hok
  exact ⟨rfl, not_lt.mp hbound⟩

omit [LinearOrder δ] in
/-- Room for a row and a sequence number left: the row is appended. -/
theorem append_of_room (hbound : ledger.sequence < Audit.lastSequence)
    (hroom : ledger.entries.length < ledger.limits.maxEvents) :
    ledger.append mac key payload = .ok (ledger.push mac key payload) := by
  unfold append
  rw [refuseIf_of_not (by omega), ok_bind, refuseIf_of_not (by omega)]
  rfl

/-- An operation that is found lies between operations with other handles. -/
theorem operationIndex_eq_ok {index : ℕ}
    (hindex : ledger.operationIndex mac key handle = .ok index) :
    ∃ before operation after, ledger.operations = before ++ operation :: after ∧
      before.length = index ∧ operation.handle = handle ∧
      ∀ earlier ∈ before, earlier.handle ≠ handle := by
  obtain ⟨_, -, hindex⟩ := bind_eq_ok hindex
  rw [okOr_eq_ok, findIdx?_eq_some_iff_getElem] at hindex
  obtain ⟨hbound, hhandle, hearlier⟩ := hindex
  refine ⟨ledger.operations.take index, ledger.operations[index],
    ledger.operations.drop (index + 1), ?_, length_take_of_le hbound.le,
    of_decide_eq_true hhandle, ?_⟩
  · rw [getElem_cons_drop, take_append_drop]
  · intro earlier hmem
    obtain ⟨_, _, rfl⟩ := mem_take_iff_getElem.mp hmem
    simpa using hearlier _ (by omega)

/-- A new operation is appended, or the operation is there already. -/
theorem admit_eq_ok (hok : ledger.admission mac key handle now = .ok next) :
    (next = ledger ∧ ∃ operation ∈ ledger.operations, operation.handle = handle) ∨
      (ledger.Appends mac key (.intent handle) next ∧ now < handle.body.expiresAt ∧
        next.operations = ledger.operations ++ [.admitted handle (ledger.sequence + 1)] ∧
        ∀ operation ∈ ledger.operations, operation.handle.request ≠ handle.request) := by
  obtain ⟨_, hauthentic, hok⟩ := bind_eq_ok hok
  cases hfind : ledger.operations.find? fun operation =>
      decide (operation.handle.body.binding.request = handle.body.binding.request) with
  | some existing =>
    rw [hfind] at hok
    by_cases hsame : existing.handle = handle
    · simp only [hsame, if_true, pure_eq_ok, Except.ok.injEq] at hok
      exact .inl ⟨hok.symm, existing, mem_of_find?_eq_some hfind, hsame⟩
    · simp [hsame] at hok
  | none =>
    rw [hfind] at hok
    have hfresh : ∀ operation ∈ ledger.operations, operation.handle.request ≠ handle.request := by
      simpa [AuditOperationHandle.request] using hfind
    obtain ⟨_, hlive, hok⟩ := bind_eq_ok hok
    obtain ⟨_, -, hok⟩ := bind_eq_ok hok
    obtain ⟨hprojection, hok⟩ := refuseIf_bind hok
    obtain ⟨hroom, hok⟩ := refuseIf_bind hok
    obtain ⟨_, happend, hnext⟩ := bind_eq_ok hok
    obtain ⟨rfl, hbound⟩ := append_eq_ok happend
    cases hnext
    have hlive := not_or.mp (refuseIf_eq_ok.mp hlive)
    obtain ⟨_, hused⟩ := not_or.mp hroom
    refine .inr ⟨⟨?_, rfl, hbound, ?_, ?_⟩, not_le.mp hlive.2, rfl, hfresh⟩
    · exact .intent handle hauthentic (not_not.mp hprojection) hfresh
    · have hreserved : (LedgerOperation.admitted handle (ledger.sequence + 1)).reserved + 1 =
          if handle.body.event.outcome = .intent then operationEventReservation else 1 := by
        unfold LedgerOperation.admitted
        split <;> rfl
      unfold usedCapacity at hused ⊢
      simp only [push, length_append, length_singleton, map_append, map_cons,
        map_nil, sum_append, sum_singleton]
      omega
    · simp only [push, length_append, length_singleton]
      omega

/-- A row that uses up a reserved one. -/
theorem Sound.appends_replace (hsound : ledger.Sound mac key ring)
    {edit : LedgerOperation δ → LedgerOperation δ}
    (hsplit : ledger.operations = before ++ operation :: after)
    (hderived : Derives mac key ledger.identity ledger.projection (before ++ operation :: after)
      (ledger.sequence + 1) payload (before ++ edit operation :: after))
    (hreserved : (edit operation).reserved + 1 = operation.reserved)
    (hbound : ledger.sequence + 1 ≤ Audit.lastSequence)
    (hnext : next = { ledger.push mac key payload with
      operations := ledger.operations.modify before.length edit }) :
    ledger.Appends mac key payload next := by
  rw [hsplit, modify_middle] at hnext
  subst hnext
  refine ⟨hsplit ▸ hderived, rfl, hbound, ?_, ?_⟩
  · have hused := hsound.used
    unfold usedCapacity at hused ⊢
    rw [hsplit] at hused
    simp only [push, length_append, length_singleton, map_append, map_cons,
      sum_append, sum_cons] at hused ⊢
    omega
  · have hcount := hsound.count
    rw [hsplit] at hcount
    simpa using hcount

section

variable (hinjective : Function.Injective (mac.authenticate key))
  (hsound : ledger.Sound mac key ring)
include hinjective hsound

/-- No earlier operation has the tag of an operation that is found. -/
theorem Sound.mac_ne (hsplit : ledger.operations = before ++ operation :: after)
    (hearlier : ∀ earlier ∈ before, earlier.handle ≠ operation.handle) :
    ∀ earlier ∈ before, earlier.handle.mac ≠ operation.handle.mac := by
  intro earlier hbefore htag
  have hequal := hsound.consistent.eq_of_mac hinjective
    (by rw [hsplit]; exact mem_append_left _ hbefore) (by rw [hsplit]; simp) htag
  exact hearlier _ hbefore (by rw [hequal])

/-- The outcome of an open operation uses one of its reserved rows. -/
theorem resolve_eq_ok {state : AuditOperationState} (hcloses : state.closes = true)
    (hok : ledger.resolve mac key handle state = .ok next) :
    next = ledger ∨ ledger.Appends mac key (.outcome handle.mac state) next := by
  obtain ⟨_, hindex, hok⟩ := bind_eq_ok hok
  obtain ⟨before, operation, after, hsplit, rfl, rfl, hearlier⟩ := operationIndex_eq_ok hindex
  have hsettled := hsound.consistent.settled operation (by rw [hsplit]; simp)
  obtain ⟨current, hcurrent, hok⟩ := bind_eq_ok hok
  obtain rfl : operation = current := by
    rw [operationAt, okOr_eq_ok, hsplit] at hcurrent
    simpa using hcurrent
  by_cases hdone : operation.state = state
  · simp only [hdone, if_true, pure_eq_ok, Except.ok.injEq] at hok
    exact .inl hok.symm
  · rw [if_neg hdone] at hok
    obtain ⟨hopen, hok⟩ := refuseIf_bind hok
    obtain ⟨_, happend, hnext⟩ := bind_eq_ok hok
    obtain ⟨rfl, hbound⟩ := append_eq_ok happend
    have hintent : operation.state = .intent := not_not.mp (not_or.mp hopen).1
    exact .inr (hsound.appends_replace hsplit
      (.outcome before after operation state (hsound.mac_ne hinjective hsplit hearlier) hintent
        hcloses)
      (hsettled.reserved_of_intent hintent).2.symm hbound (Except.ok.inj hnext).symm)

/-- The acknowledgement of a closed operation uses its last reserved row. -/
theorem acknowledgeTerminal_eq_ok (hack : ledger.acknowledgeTerminal mac key handle = .ok next) :
    next = ledger ∨ ledger.Appends mac key (.terminal handle.mac) next := by
  obtain ⟨_, hindex, hack⟩ := bind_eq_ok hack
  obtain ⟨before, operation, after, hsplit, rfl, rfl, hearlier⟩ := operationIndex_eq_ok hindex
  have hsettled := hsound.consistent.settled operation (by rw [hsplit]; simp)
  obtain ⟨current, hcurrent, hack⟩ := bind_eq_ok hack
  obtain rfl : operation = current := by
    rw [operationAt, hsplit] at hcurrent
    simpa using hcurrent
  by_cases hdone : operation.terminalRecorded = true
  · simp only [hdone, if_true, pure_eq_ok, Except.ok.injEq] at hack
    exact .inl hack.symm
  · rw [if_neg hdone] at hack
    obtain ⟨_, hclosed, hack⟩ := bind_eq_ok hack
    obtain ⟨_, happend, hnext⟩ := bind_eq_ok hack
    obtain ⟨rfl, hbound⟩ := append_eq_ok happend
    have hclosed : operation.state ≠ .intent := refuseIf_eq_ok.mp hclosed
    have hreserved := hsettled.reserved_of_closed hclosed
    rw [if_neg hdone] at hreserved
    exact .inr (hsound.appends_replace hsplit
      (.terminal before after operation (hsound.mac_ne hinjective hsplit hearlier) hclosed
        (Bool.eq_false_iff.mpr hdone))
      hreserved.symm hbound (Except.ok.inj hnext).symm)

end

/-- A new key transition takes a free row and is signed at once. -/
theorem transitionKey_eq_ok (hsound : ledger.Sound mac key ring) {transition : AuditKeyTransition δ}
    (hok : ledger.transitionKey mac key ring transition = .ok next) :
    next = ledger ∨ ∃ extended, ledger.Appends mac key (.keyTransition transition) extended ∧
      extended.sealContinuity mac ring = .ok next := by
  obtain ⟨_, -, hok⟩ := bind_eq_ok hok
  obtain ⟨_, -, hok⟩ := bind_eq_ok hok
  split at hok
  · cases hok
    exact .inl rfl
  · obtain ⟨_, -, hok⟩ := bind_eq_ok hok
    obtain ⟨_, hroom, hok⟩ := bind_eq_ok hok
    obtain ⟨extended, happend, hseal⟩ := bind_eq_ok hok
    obtain ⟨rfl, hbound⟩ := append_eq_ok happend
    have hroom := refuseIf_eq_ok.mp hroom
    refine .inr ⟨ledger.push mac key (.keyTransition transition),
      ⟨.keyTransition transition, rfl, hbound, ?_, hsound.count⟩, hseal⟩
    unfold usedCapacity at hroom ⊢
    simp only [push, length_append, length_singleton]
    omega

/-- An operation that is not found is no lack of room. -/
theorem operationIndex_eq_error {fault : AuditAuthorityError}
    (hindex : ledger.operationIndex mac key handle = .error fault) : fault = .bindingMismatch := by
  rcases bind_eq_error hindex with hverify | ⟨_, -, hfind⟩
  · rcases bind_eq_error hverify with hbody | ⟨_, -, htag⟩
    · exact (refuseIf_eq_error.mp hbody).2.symm
    · exact (refuseIf_eq_error.mp htag).2.symm
  · exact (okOr_eq_error.mp hfind).2.symm

section

variable (hsound : ledger.Sound mac key ring) (hbound : ledger.sequence < Audit.lastSequence)
include hsound hbound

/-- With a sequence number left, the outcome of an operation has room. -/
theorem Sound.resolve_ne_full (handle : AuditOperationHandle δ)
    (state : AuditOperationState) : ledger.resolve mac key handle state ≠ .error .full := by
  intro hfull
  rcases bind_eq_error hfull with hindex | ⟨_, -, hfull⟩
  · cases operationIndex_eq_error hindex
  rcases bind_eq_error hfull with hcurrent | ⟨operation, hcurrent, hfull⟩
  · cases (okOr_eq_error.mp hcurrent).2
  by_cases hdone : operation.state = state
  · simp [hdone] at hfull
  rw [if_neg hdone] at hfull
  rcases bind_eq_error hfull with hrefused | ⟨_, hopen, hfull⟩
  · cases (refuseIf_eq_error.mp hrefused).2
  have hmem : operation ∈ ledger.operations := mem_of_getElem? (okOr_eq_ok.mp hcurrent)
  have hintent : operation.state = .intent := not_not.mp (not_or.mp (refuseIf_eq_ok.mp hopen)).1
  have hreserved := ((hsound.consistent.settled _ hmem).reserved_of_intent hintent).2
  have hroom := hsound.reserved_le hmem
  rw [append_of_room hbound (by omega), ok_bind] at hfull
  cases hfull

/-- With a sequence number left, the acknowledgement of an operation has room. -/
theorem Sound.acknowledgeTerminal_ne_full (handle : AuditOperationHandle δ) :
    ledger.acknowledgeTerminal mac key handle ≠ .error .full := by
  intro hfull
  rcases bind_eq_error hfull with hindex | ⟨_, -, hfull⟩
  · cases operationIndex_eq_error hindex
  rcases bind_eq_error hfull with hcurrent | ⟨operation, hcurrent, hfull⟩
  · cases (okOr_eq_error.mp hcurrent).2
  by_cases hdone : operation.terminalRecorded = true
  · simp [hdone] at hfull
  rw [if_neg hdone] at hfull
  rcases bind_eq_error hfull with hrefused | ⟨_, hclosed, hfull⟩
  · cases (refuseIf_eq_error.mp hrefused).2
  have hmem : operation ∈ ledger.operations := mem_of_getElem? (okOr_eq_ok.mp hcurrent)
  have hreserved := (hsound.consistent.settled _ hmem).reserved_of_closed
    (refuseIf_eq_ok.mp hclosed)
  rw [if_neg hdone] at hreserved
  have hroom := hsound.reserved_le hmem
  rw [append_of_room hbound (by omega), ok_bind] at hfull
  cases hfull

end

theorem Appends.sound {sealed : LedgerState δ} (hsound : ledger.Sound mac key ring)
    (happends : ledger.Appends mac key payload next)
    (hseal : next.sealContinuity mac ring = .ok sealed) :
    sealed.Sound mac key ring ∧ ∃ signed, sealed = { next with continuity := some signed } := by
  obtain ⟨_, hchain, hsigned⟩ := hsound.signed
  have hpushed := happends.pushed
  let row := Replay.row mac key ledger.identity
    ⟨ledger.sequence, ledger.terminal, ledger.operations⟩ payload
  have hextends : ledger.Extends row next := by
    rw [hpushed]
    exact ⟨rfl, rfl, rfl, rfl, Nat.le_succ _, rfl⟩
  obtain ⟨signed, rfl, hsealed, -⟩ := hsigned.seal hchain hextends hseal
  refine ⟨?_, signed, rfl⟩
  have hreplays : Replays mac key ledger.identity ledger.projection
      ⟨ledger.floor, ledger.predecessor, []⟩ (ledger.entries ++ [row])
      ⟨ledger.sequence + 1, row.mac, next.operations⟩ :=
    hsound.replays.append (.cons happends.derived (.nil _))
  have hused := happends.used
  have hcount := happends.count
  rw [hpushed] at hused hcount hsealed ⊢
  exact ⟨hsound.limits, hsound.version, hcount, hused, happends.bound, hreplays,
    signed, rfl, hsealed⟩

variable (ledger) in
/-- A prefix of rows that an acknowledged export covers and that no operation
holds is dropped. -/
structure Prunes (through : ℕ) (now : ℤ) (next : LedgerState δ) : Prop where
  floor_lt : ledger.floor < through
  free : ∀ operation ∈ ledger.operations, ¬ Holds through now operation
  dropped : ∃ chain checkpoint last row, ledger.continuity = some chain ∧
    chain.exportCheckpoint = some checkpoint ∧ through ≤ checkpoint.body.sequence ∧
    ledger.entries[through - ledger.floor - 1]? = some last ∧
    chain.rows[through - ledger.floor - 1]? = some row ∧
    next = ledger.dropRows chain through (through - ledger.floor) last row

theorem prune_eq_ok {through : ℕ}
    (hok : ledger.prune mac ring through checkpoint now = .ok next) :
    next = ledger ∨ ledger.Prunes through now next := by
  iterate 2 obtain ⟨_, -, hok⟩ := bind_eq_ok hok
  obtain ⟨chain, hchain, hok⟩ := okOr_bind hok
  obtain ⟨_, hexport, hok⟩ := bind_eq_ok hok
  obtain ⟨_, hfloor, hok⟩ := bind_eq_ok hok
  have hfloor := not_lt.mp (refuseIf_eq_ok.mp hfloor)
  by_cases hsame : through = ledger.floor
  · rw [if_pos hsame] at hok
    cases hok
    exact .inl rfl
  · rw [if_neg hsame] at hok
    obtain ⟨_, hheld, hok⟩ := bind_eq_ok hok
    obtain ⟨last, hlast, hok⟩ := okOr_bind hok
    obtain ⟨row, hrow, hok⟩ := okOr_bind hok
    cases hok
    have hheld := refuseIf_eq_ok.mp hheld
    have hexport := refuseIf_eq_ok.mp hexport
    push Not at hheld hexport
    exact .inr ⟨by omega, hheld, chain, checkpoint, last, row, hchain,
      hexport.1, hexport.2.2, hlast, hrow, rfl⟩

namespace Prunes

variable {through : ℕ} {now : ℤ}

/-- The rows that stay replay to the operations that stay. -/
theorem replays (hsound : ledger.Sound mac key ring) (hprunes : ledger.Prunes through now next)
    {last : LedgerEntry δ} (hlast : ledger.entries[through - ledger.floor - 1]? = some last) :
    Replays mac key ledger.identity ledger.projection ⟨through, last.mac, []⟩
      (ledger.entries.drop (through - ledger.floor))
      ⟨ledger.sequence, ledger.terminal,
        ledger.operations.filter fun operation => decide (through < operation.firstSequence)⟩ := by
  have hlt := hprunes.floor_lt
  set count := through - ledger.floor with hcount
  have hlength : count ≤ ledger.entries.length := by
    have hbound := (List.getElem?_eq_some_iff.mp hlast).1
    omega
  have hall := hsound.replays
  rw [← take_append_drop _ ledger.entries] at hall
  obtain ⟨⟨sequence, previous, front⟩, hfront, hback⟩ := hall.split
  obtain rfl : sequence = through := by
    have hsequence := hfront.sequence_eq
    rw [length_take_of_le hlength] at hsequence
    dsimp only at hsequence
    omega
  obtain rfl : previous = last.mac := by
    apply hfront.previous_eq
    rw [getLast?_take, if_neg (by omega), hlast]
    rfl
  have hconsistent : Consistent mac key ledger.identity ledger.floor sequence front :=
    hfront.consistent le_rfl .nil
  -- An operation of the front part is at or before `through`; no one holds it.
  obtain ⟨back, hoperations, hrest⟩ := hback.suffix hlt.le le_rfl hconsistent
    (append_nil _).symm (by
      intro _ hposition operation hplace
      obtain ⟨later, hlater, -, hfirst, -⟩ :=
        hback.evolves hlt.le hconsistent (getElem?_eq_getElem hposition)
      obtain rfl : operation = later := Option.some.inj (hplace.symm.trans hlater)
      have hsettled := hconsistent.settled _ (getElem_mem hposition)
      have hfree := hprunes.free _ (mem_of_getElem? hplace)
      unfold Holds at hfree
      push Not at hfree
      have hold := hsettled.first_le.trans hsettled.last_le
      rw [← hfirst] at hold
      exact (hfree hold).2.1)
  have hsuffix : Consistent mac key ledger.identity sequence ledger.sequence back :=
    hrest.consistent le_rfl .nil
  dsimp only at hoperations hrest
  have hfilter : (ledger.operations.filter
      fun operation => decide (sequence < operation.firstSequence)) = back := by
    rw [hoperations, filter_append]
    have hnone : front.filter
        (fun operation => decide (sequence < operation.firstSequence)) = [] := by
      rw [filter_eq_nil_iff]
      intro operation hmem
      have hsettled := hconsistent.settled _ hmem
      simpa using hsettled.first_le.trans hsettled.last_le
    have hevery : back.filter (fun operation => decide (sequence < operation.firstSequence)) =
        back := by
      rw [filter_eq_self]
      intro operation hmem
      exact decide_eq_true (hsuffix.settled _ hmem).floor_lt
    rw [hnone, hevery, nil_append]
  rw [hfilter]
  exact hrest

theorem sound (hsound : ledger.Sound mac key ring)
    (hprunes : ledger.Prunes through now next) : next.Sound mac key ring := by
  obtain ⟨stored, _, _, _, hstored, hexport, hcovers, hlast, hrow, rfl⟩ :=
    hprunes.dropped
  obtain ⟨chain, hchain, hsigned⟩ := hsound.signed
  obtain rfl : stored = chain := Option.some.inj (hstored.symm.trans hchain)
  have hlt := hprunes.floor_lt
  have hsublist : (ledger.operations.filter fun operation =>
      decide (through < operation.firstSequence)).Sublist ledger.operations := filter_sublist
  refine ⟨hsound.limits, hsound.version, ?_, ?_, hsound.bound, hprunes.replays hsound hlast,
    _, rfl, hsigned.dropRows (by omega) (by omega) hlast hrow hexport hcovers rfl⟩
  · exact hsublist.length_le.trans hsound.count
  · refine le_trans ?_ hsound.used
    unfold usedCapacity dropRows
    refine Nat.add_le_add ?_ ?_
    · rw [length_drop]
      exact Nat.sub_le _ _
    · exact (hsublist.map _).sum_le_sum (by simp)

end Prunes

/-- A stored checkpoint changes neither chain. -/
theorem recordCheckpoint_eq_ok (hsound : ledger.Sound mac key ring)
    (hok : ledger.recordCheckpoint mac ring checkpoint = .ok next) :
    next.Sound mac key ring ∧ ∃ chain, next = { ledger with continuity := some chain } := by
  obtain ⟨chain, hchain, hsigned⟩ := hsound.signed
  obtain ⟨_, hverify, hok⟩ := bind_eq_ok hok
  obtain ⟨_, hmatches, hok⟩ := bind_eq_ok hok
  obtain ⟨stored, hstored, hok⟩ := okOr_bind hok
  obtain ⟨_, hnewer, hok⟩ := bind_eq_ok hok
  cases hok
  obtain rfl : chain = stored := Option.some.inj (hchain.symm.trans hstored)
  have hmarks := (matchesCheckpoint_iff hchain).mp hmatches
  have hnewer : ∀ old, chain.checkpoint = some old →
      old.body.sequence ≤ checkpoint.body.sequence := by
    intro old hold
    have hrefused := refuseIf_eq_ok.mp hnewer
    rw [hold] at hrefused
    simp only [Option.any_some, decide_eq_true_eq, not_or, not_lt] at hrefused
    exact hrefused.1
  refine ⟨{ hsound with signed := ⟨_, rfl, ?_⟩ }, _, rfl⟩
  exact
    { hsigned with
      checkpoint := fun other hsome => by
        cases hsome
        exact ⟨hverify, hmarks⟩
      exported := fun acknowledged hsome => by
        obtain ⟨hverified, hmarked, hnonzero, _, hcovering, hless⟩ :=
          hsigned.exported _ hsome
        exact ⟨hverified, hmarked, hnonzero, checkpoint, rfl, hless.trans (hnewer _ hcovering)⟩ }

theorem acknowledgeExport_eq_ok (hsound : ledger.Sound mac key ring)
    (hack : ledger.acknowledgeExport mac ring checkpoint = .ok next) :
    next.Sound mac key ring ∧ ∃ chain, next = { ledger with continuity := some chain } := by
  obtain ⟨chain, hchain, hsigned⟩ := hsound.signed
  obtain ⟨_, hverify, hack⟩ := bind_eq_ok hack
  obtain ⟨_, hmatches, hack⟩ := bind_eq_ok hack
  obtain ⟨stored, hstored, hack⟩ := okOr_bind hack
  obtain ⟨_, hcovered, hack⟩ := bind_eq_ok hack
  obtain rfl : chain = stored := Option.some.inj (hchain.symm.trans hstored)
  have hmarks := (matchesCheckpoint_iff hchain).mp hmatches
  obtain ⟨hnonzero, hcovered⟩ := not_or.mp (refuseIf_eq_ok.mp hcovered)
  split at hack
  · cases hack
    refine ⟨{ hsound with signed := ⟨_, rfl, ?_⟩ }, _, rfl⟩
    exact
      { hsigned with
        exported := fun acknowledged hsome => by
          cases hsome
          refine ⟨hverify, hmarks, hnonzero, ?_⟩
          cases hcheckpoint : chain.checkpoint with
          | none =>
            rw [hcheckpoint] at hcovered
            exact absurd rfl hcovered
          | some covering =>
            rw [hcheckpoint] at hcovered
            exact ⟨covering, rfl, by simpa using hcovered⟩ }
  · cases hack
    exact ⟨hsound, chain, by rw [← hchain]⟩

end PacketCore.Audit.LedgerState
