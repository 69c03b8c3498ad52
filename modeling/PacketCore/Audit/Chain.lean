import PacketCore.Audit.Continuity

/-!
# The signed chain

The anchors of a ledger are the tags after its floor and after each row.  A
checkpoint names one of them by its distance from the floor, so a checkpoint that
matches keeps matching when rows are added behind it or dropped in front of it.
-/

namespace PacketCore.Audit

open List

variable {δ : Type} [LinearOrder δ] {mac : Authenticator δ}
  {ring : AuditKeyRing} {identity : ConfigConsensusIdentity}

section Rows

variable {epoch next : ℕ} {previous : δ} {entry : LedgerEntry δ} {row : SignedAuditRow δ}

theorem AuditKeyTransition.toEpoch_key {transition : AuditKeyTransition δ} {sequence : ℕ}
    (hok : transition.verify mac ring identity sequence previous epoch = .ok ()) :
    ∃ key, ring.key transition.body.toEpoch = .ok key := by
  iterate 2 obtain ⟨_, -, hok⟩ := bind_eq_ok hok
  obtain ⟨key, hkey, -⟩ := bind_eq_ok hok
  exact ⟨key, hkey⟩

/-- A verified row continues the chain, and its key and the key after it are held. -/
theorem verifyRow_eq_ok (hrow : verifyRow mac ring identity epoch previous entry row = .ok next) :
    next = entry.payload.epochAfter row.epoch ∧ ∃ key, ring.key next = .ok key := by
  obtain ⟨hlinks, hrow⟩ := refuseIf_bind hrow
  obtain ⟨hepoch, -⟩ := not_or.mp hlinks
  obtain ⟨key, hkey, hrow⟩ := bind_eq_ok hrow
  obtain ⟨_, -, hrow⟩ := bind_eq_ok hrow
  cases hpayload : entry.payload with
  | keyTransition =>
    rw [hpayload] at hrow
    obtain ⟨_, -, hrow⟩ := bind_eq_ok hrow
    obtain ⟨_, hverify, hnext⟩ := bind_eq_ok hrow
    cases hnext
    exact ⟨rfl, AuditKeyTransition.toEpoch_key hverify⟩
  | event | intent | outcome | terminal =>
    rw [hpayload] at hrow
    cases hrow
    exact ⟨(not_not.mp hepoch).symm, key, hkey⟩

theorem verifyRows_append {first second : List (LedgerEntry δ × SignedAuditRow δ)} :
    verifyRows mac ring identity (first ++ second) epoch previous =
      verifyRows mac ring identity first epoch previous >>= fun state =>
        verifyRows mac ring identity second state.1 state.2 := by
  induction first generalizing epoch previous with
  | nil => rfl
  | cons _ _ ih =>
    rw [cons_append, verifyRows, verifyRows, bind_assoc]
    congr 1
    funext next
    exact ih

/-- After verified rows the chain stands at the last of them. -/
theorem verifyRows_last {pairs : List (LedgerEntry δ × SignedAuditRow δ)} {state : ℕ × δ}
    (hrows : verifyRows mac ring identity pairs epoch previous = .ok state)
    (hlast : pairs.getLast? = some (entry, row)) :
    state = (entry.payload.epochAfter row.epoch, row.signature) := by
  induction pairs generalizing epoch previous with
  | nil => simp at hlast
  | cons _ pairs ih =>
    obtain ⟨_, hnext, hrest⟩ := bind_eq_ok hrows
    cases pairs with
    | nil =>
      cases hlast
      cases hrest
      rw [(verifyRow_eq_ok hnext).1]
    | cons =>
      exact ih hrest hlast

end Rows

variable {acknowledged checkpoint : AuditCheckpoint δ} {entry : LedgerEntry δ}
  {extended sealed : LedgerState δ} {pruned signed : ContinuityState δ}

namespace LedgerState

variable {ledger : LedgerState δ} {chain : ContinuityState δ}

/-- The anchors of both chains and the epoch, after the floor and after each row. -/
def anchors (ledger : LedgerState δ) (chain : ContinuityState δ) : List (δ × δ × ℕ) :=
  (ledger.predecessor, chain.floorAnchor, chain.floorEpoch) ::
    ledger.entries.zipWith
      (fun entry row => (entry.mac, row.signature, entry.payload.epochAfter row.epoch)) chain.rows

/-- A checkpoint names the anchors at its sequence number. -/
def Marks (ledger : LedgerState δ) (chain : ContinuityState δ) (checkpoint : AuditCheckpoint δ) :
    Prop :=
  checkpoint.body.identity = ledger.identity ∧ checkpoint.body.sequence ≤ ledger.sequence ∧
    ledger.floor ≤ checkpoint.body.sequence ∧
    (ledger.anchors chain)[checkpoint.body.sequence - ledger.floor]? =
      some (checkpoint.body.rootAnchor, checkpoint.body.anchor, checkpoint.body.epochAtSequence)

theorem matchesCheckpoint_iff (hchain : ledger.continuity = some chain) :
    ledger.matchesCheckpoint checkpoint = .ok () ↔ ledger.Marks chain checkpoint := by
  unfold matchesCheckpoint matchesPrefix Marks
  rw [hchain]
  simp only [okOr_eq_ok, Option.some.injEq, exists_eq_left', bind_eq_ok_iff,
    refuseIf_eq_ok, exists_const, not_not, not_lt]
  refine and_congr_right fun _ => and_congr_right fun _ => and_congr_right fun hfloor => ?_
  by_cases hat : checkpoint.body.sequence = ledger.floor
  · rw [if_pos hat, hat, Nat.sub_self]
    simp only [anchors, getElem?_cons_zero, Except.ok.injEq, exists_eq_left',
      Option.some.injEq, Prod.mk.injEq, not_or, not_not]
    constructor
    · rintro ⟨hroot, hanchor, hepoch⟩
      exact ⟨hroot.symm, hanchor.symm, hepoch.symm⟩
    · rintro ⟨hroot, hanchor, hepoch⟩
      exact ⟨hroot.symm, hanchor.symm, hepoch.symm⟩
  · obtain ⟨index, hindex⟩ : ∃ index, checkpoint.body.sequence - ledger.floor = index + 1 :=
      ⟨checkpoint.body.sequence - ledger.floor - 1, by omega⟩
    rw [if_neg hat, hindex]
    simp only [anchors, getElem?_cons_succ, getElem?_zipWith_eq_some, bind_eq_ok_iff,
      okOr_eq_ok, pure_eq_ok, Except.ok.injEq, Prod.mk.injEq, not_or, not_not]
    constructor
    · rintro ⟨_, ⟨entry, hentry, row, hrow, rfl⟩, hroot, hanchor, hepoch⟩
      exact ⟨entry, row, hentry, hrow, hroot.symm, hanchor.symm, hepoch.symm⟩
    · rintro ⟨entry, row, hentry, hrow, hroot, hanchor, hepoch⟩
      exact ⟨_, ⟨entry, hentry, row, hrow, rfl⟩, hroot.symm, hanchor.symm, hepoch.symm⟩

variable (mac ring) in
/-- Both chains have one row for each entry, every signature verifies, and the
stored checkpoints name anchors. -/
structure Signed (ledger : LedgerState δ) (chain : ContinuityState δ) : Prop where
  version : chain.version = 2
  length : chain.rows.length = ledger.entries.length
  rows : verifyRows mac ring ledger.identity (ledger.entries.zip chain.rows) chain.floorEpoch
    chain.floorAnchor = .ok (chain.activeEpoch, chain.terminal)
  key : ∃ key, ring.key chain.activeEpoch = .ok key
  checkpoint : ∀ checkpoint, chain.checkpoint = some checkpoint →
    checkpoint.verify mac ring ledger.identity = .ok () ∧ ledger.Marks chain checkpoint
  exported : ∀ acknowledged, chain.exportCheckpoint = some acknowledged →
    acknowledged.verify mac ring ledger.identity = .ok () ∧
      ledger.Marks chain acknowledged ∧ acknowledged.body.acknowledgedExport ≠ mac.zero ∧
      ∃ covering, chain.checkpoint = some covering ∧
        acknowledged.body.sequence ≤ covering.body.sequence

theorem checkSome_eq_ok {α : Type} {value : Option α}
    {check : α → Except AuditAuthorityError Unit} :
    checkSome value check = .ok () ↔ ∀ inner, value = some inner → check inner = .ok () := by
  cases value <;> simp [checkSome]

section

variable (hchain : ledger.continuity = some chain)
include hchain

theorem checkCheckpoint_iff :
    ledger.checkCheckpoint mac ring checkpoint = .ok () ↔
      checkpoint.verify mac ring ledger.identity = .ok () ∧ ledger.Marks chain checkpoint := by
  unfold checkCheckpoint
  rw [bind_eq_ok_iff, ← matchesCheckpoint_iff hchain]
  exact ⟨fun ⟨_, hverify, hmatches⟩ => ⟨hverify, hmatches⟩,
    fun ⟨hverify, hmatches⟩ => ⟨_, hverify, hmatches⟩⟩

theorem checkExport_iff :
    ledger.checkExport mac ring chain acknowledged = .ok () ↔
      acknowledged.verify mac ring ledger.identity = .ok () ∧
        ledger.Marks chain acknowledged ∧ acknowledged.body.acknowledgedExport ≠ mac.zero ∧
        ∃ covering, chain.checkpoint = some covering ∧
          acknowledged.body.sequence ≤ covering.body.sequence := by
  have hcovered : (¬ (chain.checkpoint.all fun current =>
      decide (current.body.sequence < acknowledged.body.sequence)) = true) ↔
      ∃ covering, chain.checkpoint = some covering ∧
        acknowledged.body.sequence ≤ covering.body.sequence := by
    cases chain.checkpoint <;> simp
  unfold checkExport
  rw [bind_eq_ok_iff, ← hcovered]
  constructor
  · rintro ⟨_, hcheck, hexport⟩
    obtain ⟨hverify, hmarks⟩ := (checkCheckpoint_iff hchain).mp hcheck
    exact ⟨hverify, hmarks, not_or.mp (refuseIf_eq_ok.mp hexport)⟩
  · rintro ⟨hverify, hmarks, hexport⟩
    exact ⟨_, (checkCheckpoint_iff hchain).mpr ⟨hverify, hmarks⟩,
      refuseIf_eq_ok.mpr (not_or.mpr hexport)⟩

/-- The validator of the signatures accepts exactly the signed ledgers. -/
theorem validateContinuity_iff :
    ledger.validateContinuity mac ring = .ok () ↔ ledger.Signed mac ring chain := by
  unfold validateContinuity
  rw [hchain]
  constructor
  · intro hvalid
    obtain ⟨_, hshape, hvalid⟩ := bind_eq_ok hvalid
    obtain ⟨⟨_, _⟩, hrows, hvalid⟩ := bind_eq_ok hvalid
    obtain ⟨key, hkey, hvalid⟩ := bind_eq_ok hvalid
    obtain ⟨_, hend, hvalid⟩ := bind_eq_ok hvalid
    obtain ⟨_, hcheckpoint, hexported⟩ := bind_eq_ok hvalid
    have hshape := refuseIf_eq_ok.mp hshape
    have hend := refuseIf_eq_ok.mp hend
    push Not at hshape hend
    obtain ⟨rfl, rfl⟩ := hend
    exact ⟨hshape.1, hshape.2, hrows, ⟨key, hkey⟩,
      fun checkpoint hsome =>
        (checkCheckpoint_iff hchain).mp (checkSome_eq_ok.mp hcheckpoint checkpoint hsome),
      fun acknowledged hsome =>
        (checkExport_iff hchain).mp (checkSome_eq_ok.mp hexported acknowledged hsome)⟩
  · intro hsigned
    obtain ⟨key, hkey⟩ := hsigned.key
    have hcheckpoint : checkSome chain.checkpoint (ledger.checkCheckpoint mac ring) = .ok () :=
      checkSome_eq_ok.mpr fun checkpoint hsome =>
        (checkCheckpoint_iff hchain).mpr (hsigned.checkpoint _ hsome)
    have hexported : checkSome chain.exportCheckpoint (ledger.checkExport mac ring chain) =
        .ok () :=
      checkSome_eq_ok.mpr fun acknowledged hsome =>
        (checkExport_iff hchain).mpr (hsigned.exported _ hsome)
    dsimp only
    rw [refuseIf_of_not (by simp [hsigned.version, hsigned.length]), ok_bind, hsigned.rows, ok_bind]
    rw [hkey, ok_bind, refuseIf_of_not (by simp), ok_bind, hcheckpoint, ok_bind, hexported]

end

/-- One more row behind the others, not yet signed. -/
structure Extends (ledger : LedgerState δ) (entry : LedgerEntry δ)
    (extended : LedgerState δ) : Prop where
  identity : extended.identity = ledger.identity
  floor : extended.floor = ledger.floor
  predecessor : extended.predecessor = ledger.predecessor
  entries : extended.entries = ledger.entries ++ [entry]
  sequence : ledger.sequence ≤ extended.sequence
  continuity : extended.continuity = ledger.continuity

omit [LinearOrder δ] in
/-- Anchors are only added behind a mark. -/
theorem Marks.extend (hmarks : ledger.Marks chain checkpoint)
    (hidentity : extended.identity = ledger.identity) (hfloor : extended.floor = ledger.floor)
    (hsequence : ledger.sequence ≤ extended.sequence) {more : List (δ × δ × ℕ)}
    (hanchors : extended.anchors signed = ledger.anchors chain ++ more) :
    extended.Marks signed checkpoint := by
  obtain ⟨hsame, hupper, hlower, hanchor⟩ := hmarks
  refine ⟨hsame.trans hidentity.symm, hupper.trans hsequence, hfloor ▸ hlower, ?_⟩
  rw [hanchors, hfloor, List.getElem?_append_left (List.getElem?_eq_some_iff.mp hanchor).1, hanchor]

omit [LinearOrder δ] in
theorem Extends.anchors_eq {row : SignedAuditRow δ} (hextends : ledger.Extends entry extended)
    (hlength : chain.rows.length = ledger.entries.length)
    (hentries : sealed.entries = extended.entries)
    (hpredecessor : sealed.predecessor = extended.predecessor)
    (hrows : signed.rows = chain.rows ++ [row]) (hanchor : signed.floorAnchor = chain.floorAnchor)
    (hepoch : signed.floorEpoch = chain.floorEpoch) :
    sealed.anchors signed = ledger.anchors chain ++
      [(entry.mac, row.signature, entry.payload.epochAfter row.epoch)] := by
  unfold anchors
  rw [hentries, hpredecessor, hrows, hanchor, hepoch, hextends.predecessor,
    hextends.entries, zipWith_append hlength.symm, cons_append]
  rfl

section

variable (hchain : ledger.continuity = some chain)
include hchain

section

variable (hsigned : ledger.Signed mac ring chain)
include hsigned

/-- Sealing signs the new row and keeps the checkpoints. -/
theorem Signed.seal
    (hextends : ledger.Extends entry extended)
    (hok : extended.sealContinuity mac ring = .ok sealed) :
    ∃ signed, sealed = { extended with continuity := some signed } ∧
      sealed.Signed mac ring signed ∧ signed.checkpoint = chain.checkpoint := by
  unfold sealContinuity at hok
  rw [hextends.continuity, hchain] at hok
  obtain ⟨_, -, hok⟩ := bind_eq_ok hok
  obtain ⟨signed, hsealed, hresult⟩ := bind_eq_ok hok
  cases hresult
  refine ⟨signed, rfl, ?_⟩
  rw [hsigned.length, hextends.entries, drop_left] at hsealed
  obtain ⟨_, hone, hdone⟩ := bind_eq_ok hsealed
  cases hdone
  obtain ⟨key, -, hone⟩ := bind_eq_ok hone
  obtain ⟨_, hrow, hone⟩ := bind_eq_ok hone
  cases hone
  rw [hextends.identity] at hrow
  refine ⟨?_, rfl⟩
  exact
    { version := hsigned.version
      length := by
        rw [hextends.entries, length_append, length_append, hsigned.length]
        rfl
      rows := by
        rw [hextends.identity, hextends.entries, zip_append hsigned.length.symm,
          verifyRows_append, hsigned.rows, ok_bind]
        change verifyRow mac ring ledger.identity chain.activeEpoch chain.terminal entry _ >>= _ = _
        rw [hrow]
        rfl
      key := (verifyRow_eq_ok hrow).2
      checkpoint := fun checkpoint hsome => by
        obtain ⟨hverify, hmarks⟩ := hsigned.checkpoint _ hsome
        exact ⟨hextends.identity.symm ▸ hverify, hmarks.extend hextends.identity hextends.floor
          hextends.sequence (hextends.anchors_eq hsigned.length rfl rfl rfl rfl rfl)⟩
      exported := fun acknowledged hsome => by
        obtain ⟨hverify, hmarks, hrest⟩ := hsigned.exported _ hsome
        exact ⟨hextends.identity.symm ▸ hverify, hmarks.extend hextends.identity hextends.floor
          hextends.sequence (hextends.anchors_eq hsigned.length rfl rfl rfl rfl rfl), hrest⟩ }

/-- A row that changes no key is sealed under the active one. -/
theorem Signed.seal_succeeds
    (hextends : ledger.Extends entry extended)
    (hpayload : ∀ transition, entry.payload ≠ .keyTransition transition) :
    ∃ signed, extended.sealContinuity mac ring = .ok { extended with continuity := some signed } ∧
      signed.activeEpoch = chain.activeEpoch ∧ signed.checkpoint = chain.checkpoint ∧
      signed.exportCheckpoint = chain.exportCheckpoint := by
  obtain ⟨key, hkey⟩ := hsigned.key
  set signature := mac.authenticate key
    (.row ledger.identity chain.activeEpoch chain.terminal entry) with hsignature
  have hrow : verifyRow mac ring ledger.identity chain.activeEpoch chain.terminal entry
      ⟨chain.activeEpoch, chain.terminal, signature⟩ = .ok chain.activeEpoch := by
    unfold verifyRow verify
    rw [refuseIf_of_not (by simp), ok_bind, hkey, ok_bind,
      refuseIf_of_not (by simp [signature]), ok_bind]
    cases hcase : entry.payload with
    | keyTransition => exact absurd hcase (hpayload _)
    | event | intent | outcome | terminal => rfl
  let signed : ContinuityState δ := { chain with
    terminal := signature, rows := chain.rows ++ [⟨chain.activeEpoch, chain.terminal, signature⟩] }
  have hone : extended.sealEntry mac ring chain entry = .ok signed := by
    unfold sealEntry
    rw [hkey, ok_bind, hextends.identity]
    dsimp only
    rw [hrow]
    rfl
  refine ⟨signed, ?_, rfl, rfl, rfl⟩
  unfold sealContinuity
  rw [hextends.continuity, hchain]
  dsimp only
  have hlength : ¬ extended.entries.length < chain.rows.length := by
    rw [hsigned.length, hextends.entries, length_append]
    omega
  rw [refuseIf_of_not hlength, hsigned.length, hextends.entries, drop_left, foldlM_cons, hone]
  rfl

/-- A signed ledger has nothing to seal. -/
theorem Signed.sealContinuity_eq : ledger.sealContinuity mac ring = .ok ledger := by
  unfold sealContinuity
  rw [hchain]
  dsimp only
  rw [refuseIf_of_not (by rw [hsigned.length]; exact lt_irrefl _), ok_bind,
    drop_eq_nil_of_le hsigned.length.ge]
  rw [foldlM_nil, pure_eq_ok, ok_bind, ← hchain]
  rfl

end

end

section Prune

variable {through count : ℕ} {last : LedgerEntry δ} {row : SignedAuditRow δ}

omit [LinearOrder δ] in
/-- Dropping rows drops the anchors in front of the new floor. -/
theorem anchors_dropRows (hcount : 0 < count) (hlast : ledger.entries[count - 1]? = some last)
    (hrow : chain.rows[count - 1]? = some row)
    (hpruned : (ledger.dropRows chain through count last row).continuity = some pruned) :
    (ledger.dropRows chain through count last row).anchors pruned =
      (ledger.anchors chain).drop count := by
  obtain ⟨before, rfl⟩ : ∃ before, count = before + 1 := ⟨count - 1, by omega⟩
  rw [Nat.add_sub_cancel] at hlast hrow
  cases hpruned
  unfold anchors dropRows
  rw [drop_succ_cons, drop_zipWith]
  obtain ⟨hentries, rfl⟩ := List.getElem?_eq_some_iff.mp hlast
  obtain ⟨hrows, rfl⟩ := List.getElem?_eq_some_iff.mp hrow
  rw [drop_eq_getElem_cons hentries, drop_eq_getElem_cons hrows, zipWith_cons_cons]

omit [LinearOrder δ] in
/-- A mark at or behind the new floor stays. -/
theorem Marks.dropRows (hmarks : ledger.Marks chain checkpoint)
    (hthrough : ledger.floor + count = through) (hcovers : through ≤ checkpoint.body.sequence)
    (hcount : 0 < count) (hlast : ledger.entries[count - 1]? = some last)
    (hrow : chain.rows[count - 1]? = some row)
    (hpruned : (ledger.dropRows chain through count last row).continuity = some pruned) :
    (ledger.dropRows chain through count last row).Marks pruned checkpoint := by
  obtain ⟨hsame, hupper, _, hanchor⟩ := hmarks
  refine ⟨hsame, hupper, hcovers, ?_⟩
  rw [anchors_dropRows hcount hlast hrow hpruned, getElem?_drop]
  change (ledger.anchors chain)[count + (checkpoint.body.sequence - through)]? = _
  rw [show count + (checkpoint.body.sequence - through) =
    checkpoint.body.sequence - ledger.floor by omega, hanchor]

/-- Pruning up to an acknowledged export keeps the chain signed. -/
theorem Signed.dropRows (hsigned : ledger.Signed mac ring chain)
    (hthrough : ledger.floor + count = through) (hcount : 0 < count)
    (hlast : ledger.entries[count - 1]? = some last) (hrow : chain.rows[count - 1]? = some row)
    (hexport : chain.exportCheckpoint = some acknowledged)
    (hcovers : through ≤ acknowledged.body.sequence)
    (hpruned : (ledger.dropRows chain through count last row).continuity = some pruned) :
    (ledger.dropRows chain through count last row).Signed mac ring pruned := by
  obtain ⟨-, -, -, covering, hcovering, _⟩ := hsigned.exported _ hexport
  have hkeep : ∀ checkpoint : AuditCheckpoint δ,
      through ≤ checkpoint.body.sequence → ledger.Marks chain checkpoint →
      (ledger.dropRows chain through count last row).Marks pruned checkpoint :=
    fun checkpoint hle hmarks => hmarks.dropRows hthrough hle hcount hlast hrow hpruned
  have hrows : verifyRows mac ring ledger.identity
      ((ledger.entries.drop count).zip (chain.rows.drop count))
      (last.payload.epochAfter row.epoch) row.signature =
        .ok (chain.activeEpoch, chain.terminal) := by
    have hall := hsigned.rows
    rw [← take_append_drop _ (ledger.entries.zip chain.rows), verifyRows_append] at hall
    obtain ⟨_, hfront, hback⟩ := bind_eq_ok hall
    have hend : ((ledger.entries.zip chain.rows).take count).getLast? = some (last, row) := by
      have hpair : (ledger.entries.zip chain.rows)[count - 1]? = some (last, row) :=
        getElem?_zip_eq_some.mpr ⟨hlast, hrow⟩
      rw [getLast?_take, if_neg (by omega), hpair]
      rfl
    rw [verifyRows_last hfront hend, zip, drop_zipWith] at hback
    exact hback
  cases hpruned
  exact
    { version := hsigned.version
      length := by
        change (chain.rows.drop count).length = (ledger.entries.drop count).length
        rw [length_drop, length_drop, hsigned.length]
      rows := hrows
      key := hsigned.key
      checkpoint := fun checkpoint hsome => by
        obtain ⟨hverify, hmarks⟩ := hsigned.checkpoint _ hsome
        have hsame : covering = checkpoint := Option.some.inj (hcovering.symm.trans hsome)
        exact ⟨hverify, hkeep _ (by rw [← hsame]; omega) hmarks⟩
      exported := fun other hsome => by
        obtain ⟨hverify, hmarks, hrest⟩ := hsigned.exported _ hsome
        have hsame : acknowledged = other := Option.some.inj (hexport.symm.trans hsome)
        exact ⟨hverify, hkeep _ (hsame ▸ hcovers) hmarks, hrest⟩ }

end Prune

end LedgerState

end PacketCore.Audit
