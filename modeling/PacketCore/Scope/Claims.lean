import PacketCore.Scope.Ledger

/-!
# Claim ownership

A claim row names the one live child that lists the claim.  A batch releases
the claims of every child it replaces and acquires again in operation order,
all in an overlay; while it does, the claims of the children still to come are
the only ones without an owner.  Births come from a floor that only rises, so a
birth is never allocated twice.
-/

namespace PacketCore.Scope

open List hiding after

/-! ## Reading rows -/

section Reading

variable (codec : Codec) (ns : ScopeNamespace) (rows : Table SessionKey ScopeRow)

/-- The stored record of a child. -/
def childAt (key : ScopeChildKey) : Option ScopeChildRecord :=
  match rows.find (childKey codec ns key) with
  | some (.child record) => some record
  | _ => none

/-- The owner a claim row names. -/
def ownerAt (claim : ScopeClaimKey) : Option ClaimOwner :=
  match rows.find (claimKey codec ns claim) with
  | some (.claim row) => row.owner
  | _ => none

/-- The live child of a birth lists the claim. -/
def Lists (child : ScopeChildKey) (birth : ℕ) (claim : ScopeClaimKey) : Prop :=
  ∃ record, childAt codec ns rows child = some record ∧ record.value.isSome = true ∧
    record.revision.birth = birth ∧ claim ∈ record.claims

end Reading

variable {codec : Codec} {ns : ScopeNamespace}
  {rows : Table SessionKey ScopeRow} {birthFloor revision : ℕ}

@[simp]
theorem childAt_insert_claim (claim : ScopeClaimKey) (row : ScopeRow) :
    childAt codec ns (rows.insert (claimKey codec ns claim) row) = childAt codec ns rows := by
  funext key
  simp [childAt]

@[simp]
theorem childAt_insert_child (child key : ScopeChildKey) (record : ScopeChildRecord) :
    childAt codec ns (rows.insert (childKey codec ns child) (.child record)) key =
      if key = child then some record else childAt codec ns rows key := by
  by_cases hkey : key = child <;> simp [childAt, hkey]

@[simp]
theorem childAt_insert_batch (scope : ScopeId) (row : ScopeRow) :
    childAt codec ns (rows.insert (batchKey scope) row) = childAt codec ns rows := by
  funext key
  simp [childAt]

@[simp]
theorem ownerAt_insert_child (child : ScopeChildKey) (row : ScopeRow) :
    ownerAt codec ns (rows.insert (childKey codec ns child) row) = ownerAt codec ns rows := by
  funext claim
  simp [ownerAt]

@[simp]
theorem ownerAt_insert_claim (claim other : ScopeClaimKey) (row : ClaimRow) :
    ownerAt codec ns (rows.insert (claimKey codec ns claim) (.claim row)) other =
      if other = claim then row.owner else ownerAt codec ns rows other := by
  by_cases hclaim : other = claim <;> simp [ownerAt, hclaim]

@[simp]
theorem ownerAt_insert_batch (scope : ScopeId) (row : ScopeRow) :
    ownerAt codec ns (rows.insert (batchKey scope) row) = ownerAt codec ns rows := by
  funext claim
  simp [ownerAt]

/-! ## The shape of the rows -/

/-- What a child row carries. -/
structure ChildFits (ns : ScopeNamespace) (birthFloor revision : ℕ)
    (key : ScopeChildKey) (record : ScopeChildRecord) : Prop where
  ns_eq : record.ns = ns
  key_eq : record.key = key
  birth : record.revision.birth ≤ birthFloor
  written : record.batchRevision ≤ revision
  tombstone : record.value = none → record.claims = []

/-- What a claim row carries. -/
structure ClaimFits (ns : ScopeNamespace) (revision : ℕ) (claim : ScopeClaimKey)
    (row : ClaimRow) : Prop where
  ns_eq : row.ns = ns
  key_eq : row.key = claim
  written : row.revision ≤ revision

/-- Every row stands at its key and is not newer than the ledger. -/
structure Shape (codec : Codec) (ns : ScopeNamespace) (birthFloor revision : ℕ)
    (rows : Table SessionKey ScopeRow) : Prop where
  keys : ∀ key ∈ rows.keys, key = batchKey ns.scope ∨ (∃ child, key = childKey codec ns child) ∨
    ∃ claim, key = claimKey codec ns claim
  children : ∀ child row, rows.find (childKey codec ns child) = some row →
    ∃ record, row = .child record ∧ ChildFits ns birthFloor revision child record
  claims : ∀ claim row, rows.find (claimKey codec ns claim) = some row →
    ∃ stored, row = .claim stored ∧ ClaimFits ns revision claim stored

variable {floor later next : ℕ} {operation : ScopeChildMutation}
  {operations : List ScopeChildMutation} {owner : ClaimOwner} {pending : List ScopeChildKey}
  {predecessors : List (Option ScopeChildRecord)} {released : Table SessionKey ScopeRow}
  {staging taken : Staging} {version : ScopeChildRevision}
  {before : ScopeBatchCheckpoint} {outcome : ScopeBatchOutcome}

variable {record : ScopeChildRecord} {checkpoint : ScopeBatchCheckpoint}
  {request : ScopeBatchRequest} {attempt : ScopeBatchAttempt}

namespace Shape

variable (hshape : Shape codec ns birthFloor revision rows)
include hshape

theorem mono (hfloor : birthFloor ≤ floor) (hlater : revision ≤ later) :
    Shape codec ns floor later rows := by
  refine ⟨hshape.keys, fun child row hfind => ?_, fun claim row hfind => ?_⟩
  · obtain ⟨record, rfl, hfits⟩ := hshape.children _ _ hfind
    exact ⟨record, rfl, hfits.ns_eq, hfits.key_eq, hfits.birth.trans hfloor,
      hfits.written.trans hlater, hfits.tombstone⟩
  · obtain ⟨stored, rfl, hfits⟩ := hshape.claims _ _ hfind
    exact ⟨stored, rfl, hfits.ns_eq, hfits.key_eq, hfits.written.trans hlater⟩

theorem insert {key : SessionKey} {row : ScopeRow}
    (hkey : key = batchKey ns.scope ∨ (∃ child, key = childKey codec ns child) ∨
      ∃ claim, key = claimKey codec ns claim)
    (hchild : ∀ child, childKey codec ns child = key →
      ∃ record, row = .child record ∧ ChildFits ns birthFloor revision child record)
    (hclaim : ∀ claim, claimKey codec ns claim = key →
      ∃ stored, row = .claim stored ∧ ClaimFits ns revision claim stored) :
    Shape codec ns birthFloor revision (rows.insert key row) := by
  refine ⟨fun other hother => ?_, fun child found hfind => ?_, fun claim found hfind => ?_⟩
  · rw [Table.keys_insert, Finset.mem_insert] at hother
    rcases hother with rfl | hother
    · exact hkey
    · exact hshape.keys _ hother
  · rw [Table.find_insert] at hfind
    split at hfind
    · next hsame => exact Option.some.inj hfind ▸ hchild _ hsame
    · exact hshape.children _ _ hfind
  · rw [Table.find_insert] at hfind
    split at hfind
    · next hsame => exact Option.some.inj hfind ▸ hclaim _ hsame
    · exact hshape.claims _ _ hfind

theorem insertClaim {claim : ScopeClaimKey} {stored : ClaimRow}
    (hfits : ClaimFits ns revision claim stored) :
    Shape codec ns birthFloor revision (rows.insert (claimKey codec ns claim) (.claim stored)) :=
  hshape.insert (.inr (.inr ⟨claim, rfl⟩)) (fun _ hsame => absurd hsame (childKey_ne_claimKey _ _))
    fun _ hsame => ⟨stored, rfl, claimKey_inj.mp hsame ▸ hfits⟩

theorem insertChild {child : ScopeChildKey}
    (hfits : ChildFits ns birthFloor revision child record) :
    Shape codec ns birthFloor revision (rows.insert (childKey codec ns child) (.child record)) :=
  hshape.insert (.inr (.inl ⟨child, rfl⟩))
    (fun _ hsame => ⟨record, rfl, childKey_inj.mp hsame ▸ hfits⟩)
    fun _ hsame => absurd hsame (claimKey_ne_childKey _ _)

theorem insertBatch (row : ScopeRow) :
    Shape codec ns birthFloor revision (rows.insert (batchKey ns.scope) row) :=
  hshape.insert (.inl rfl) (fun _ hsame => absurd hsame (childKey_ne_batchKey _))
    fun _ hsame => absurd hsame (claimKey_ne_batchKey _)

theorem childFits {child : ScopeChildKey} (hchild : childAt codec ns rows child = some record) :
    rows.find (childKey codec ns child) = some (.child record) ∧
      ChildFits ns birthFloor revision child record := by
  unfold childAt at hchild
  split at hchild
  · next _ hfind =>
    cases hchild
    obtain ⟨record, heq, hfits⟩ := hshape.children _ _ hfind
    obtain rfl := ScopeRow.child.inj heq
    exact ⟨hfind, hfits⟩
  · cases hchild

end Shape

/-- Rows with the children of `pending` still to be written: a claim is owned
exactly by the live child, not pending, that lists it. -/
structure Linked (codec : Codec) (ns : ScopeNamespace) (pending : List ScopeChildKey)
    (birthFloor revision : ℕ) (rows : Table SessionKey ScopeRow) : Prop where
  shape : Shape codec ns birthFloor revision rows
  links : ∀ claim child birth, ownerAt codec ns rows claim = some ⟨child, birth⟩ ↔
    child ∉ pending ∧ Lists codec ns rows child birth claim

/-! ## One batch -/

section Batch

variable {base : Table SessionKey ScopeRow} {claim : ScopeClaimKey}

theorem Linked.owner_iff (hlinked : Linked codec ns [] birthFloor revision rows)
    {child : ScopeChildKey} {birth : ℕ} :
    ownerAt codec ns rows claim = some ⟨child, birth⟩ ↔ Lists codec ns rows child birth claim := by
  simpa using hlinked.links claim child birth

/-- The rows a batch sees through its overlay. -/
def seen (base overlay : Table SessionKey ScopeRow) : Table SessionKey ScopeRow :=
  base.overlay overlay ∅

theorem seen_empty (base : Table SessionKey ScopeRow) : seen base .empty = base :=
  Table.overlay_empty _

theorem seen_insert (base overlay : Table SessionKey ScopeRow) (key : SessionKey)
    (row : ScopeRow) : seen base (overlay.insert key row) = (seen base overlay).insert key row := by
  have hinsert := Table.overlay_insert base overlay ∅ key row
  simpa [seen] using hinsert

theorem readChild_eq_ok {key : ScopeChildKey} {row : Option ScopeChildRecord}
    (hok : readChild codec ns (fun key => .ok (base.find key)) key = .ok row) :
    row = childAt codec ns base key := by
  unfold readChild at hok
  simp only [ok_bind] at hok
  unfold childAt
  split at hok <;> rename_i heq <;> rw [heq]
  · split at hok
    · exact (Except.ok.inj hok).symm
    · cases hok
  · exact (Except.ok.inj hok).symm
  · cases hok

theorem readChildren_eq_ok {found : List (Option ScopeChildRecord)}
    (hok : operations.mapM (fun operation =>
      readChild codec ns (fun key => .ok (base.find key)) operation.key) = .ok found) :
    found = operations.map fun operation => childAt codec ns base operation.key := by
  have hpairs := mapM_eq_ok hok
  clear hok
  induction hpairs with
  | nil => rfl
  | cons hhead _ ih => rw [map_cons, ← ih, readChild_eq_ok hhead]

/-- The children an accepted batch replaces are exactly as it expected. -/
theorem compareRows_eq_ok
    (hok : compareRows codec ns (fun key => .ok (base.find key)) request checkpoint =
      .ok predecessors) :
    predecessors = request.operations.map (fun operation => childAt codec ns base operation.key) ∧
      ∀ operation ∈ request.operations,
        liveRevision (childAt codec ns base operation.key) = operation.expected := by
  obtain ⟨_, hfound, hok⟩ := bind_eq_ok hok
  iterate 3 obtain ⟨_, -, hok⟩ := bind_eq_ok hok
  obtain ⟨hconflicts, hok⟩ := refuseIf_bind hok
  cases hok
  have hread := readChildren_eq_ok hfound
  refine ⟨hread, fun operation hmem => ?_⟩
  have hchildren := congrArg ScopeBatchConflicts.children (not_not.mp hconflicts)
  have hnone := (append_eq_nil_iff.mp hchildren).1
  rw [map_eq_nil_iff, filter_eq_nil_iff] at hnone
  have hzip : (operation, childAt codec ns base operation.key) ∈
      request.operations.zip predecessors := by
    rw [hread, ← map_prod_left_eq_zip]
    exact mem_map_of_mem hmem
  simpa using hnone _ hzip

theorem mem_heldClaims :
    (record, claim) ∈ heldClaims
        (operations.map fun operation => childAt codec ns base operation.key) ↔
      (∃ operation ∈ operations, childAt codec ns base operation.key = some record) ∧
        record.value.isSome = true ∧ claim ∈ record.claims := by
  simp only [heldClaims, mem_flatMap, mem_filter, reduceOption_mem_iff,
    mem_map, Prod.mk.injEq]
  constructor
  · rintro ⟨_, ⟨⟨operation, hoperation, hchild⟩, hlive⟩, _, hclaim, rfl, rfl⟩
    exact ⟨⟨operation, hoperation, hchild⟩, hlive, hclaim⟩
  · rintro ⟨⟨operation, hoperation, hchild⟩, hlive, hclaim⟩
    exact ⟨record, ⟨⟨operation, hoperation, hchild⟩, hlive⟩, claim, hclaim, rfl, rfl⟩

/-- Releasing a list of claims takes away their owners and nothing else. -/
theorem release_spec (hbase : Shape codec ns birthFloor revision base)
    {held : List (ScopeChildRecord × ScopeClaimKey)} {overlay : Table SessionKey ScopeRow}
    (hshape : Shape codec ns birthFloor later (seen base overlay))
    (hok : held.foldlM (releaseClaim codec ns (fun key => .ok (base.find key)) later) overlay =
      .ok released) :
    Shape codec ns birthFloor later (seen base released) ∧
      childAt codec ns (seen base released) = childAt codec ns (seen base overlay) ∧
      ∀ claim, ownerAt codec ns (seen base released) claim =
        if claim ∈ held.map Prod.snd then none else ownerAt codec ns (seen base overlay) claim := by
  induction held generalizing overlay with
  | nil =>
    cases hok
    exact ⟨hshape, rfl, by simp⟩
  | cons first rest ih =>
    obtain ⟨_, hmiddle, hrest⟩ := bind_eq_ok hok
    unfold releaseClaim at hmiddle
    simp only [ok_bind] at hmiddle
    split at hmiddle
    · next row hrow =>
      obtain ⟨_, -, hmiddle⟩ := bind_eq_ok hmiddle
      cases hmiddle
      obtain ⟨_, heq, hfits⟩ := hbase.claims _ _ hrow
      obtain rfl := ScopeRow.claim.inj heq
      have hreleased : ClaimFits ns later first.2 { row with owner := none, revision := later } :=
        ⟨hfits.ns_eq, hfits.key_eq, le_rfl⟩
      have hinserted := hshape.insertClaim hreleased
      rw [← seen_insert] at hinserted
      obtain ⟨hfinal, hchildren, howners⟩ := ih hinserted hrest
      refine ⟨hfinal, ?_, fun claim => ?_⟩
      · rw [hchildren, seen_insert, childAt_insert_claim]
      · rw [howners, seen_insert]
        by_cases hlast : claim ∈ rest.map Prod.snd
        · simp [hlast]
        · by_cases hfirst : claim = first.2 <;> simp [hlast]
    · cases hmiddle

/-- After the release the claims of the batch's own children are free. -/
theorem linked_released (hbase : Linked codec ns [] birthFloor revision base)
    (hlater : revision ≤ later) (hok : (heldClaims (operations.map fun operation =>
      childAt codec ns base operation.key)).foldlM
        (releaseClaim codec ns (fun key => .ok (base.find key)) later) .empty = .ok released) :
    Linked codec ns (operations.map (·.key)) birthFloor later (seen base released) := by
  have hstart : Shape codec ns birthFloor later (seen base .empty) := by
    rw [seen_empty]
    exact hbase.shape.mono le_rfl hlater
  obtain ⟨hshape, hchildren, howners⟩ := release_spec hbase.shape hstart hok
  rw [seen_empty] at hchildren
  refine ⟨hshape, fun claim child birth => ?_⟩
  have hlists : Lists codec ns (seen base released) child birth claim ↔
      Lists codec ns base child birth claim := by
    unfold Lists
    rw [hchildren]
  rw [howners, hlists]
  constructor
  · intro howner
    split at howner
    · cases howner
    · next hfree =>
      have hlisted := hbase.owner_iff.mp howner
      refine ⟨fun hpending => hfree ?_, hlisted⟩
      obtain ⟨operation, hoperation, rfl⟩ := mem_map.mp hpending
      obtain ⟨record, hrecord, hlive, -, hclaim⟩ := hlisted
      exact mem_map.mpr ⟨(record, claim),
        mem_heldClaims.mpr ⟨⟨operation, hoperation, hrecord⟩, hlive, hclaim⟩, rfl⟩
  · rintro ⟨hpending, hlisted⟩
    have howner := hbase.owner_iff.mpr hlisted
    rw [if_neg]
    · exact howner
    · intro hheld
      obtain ⟨⟨record, other⟩, hmem, rfl⟩ := mem_map.mp hheld
      obtain ⟨⟨operation, hoperation, hrecord⟩, hlive, hclaim⟩ := mem_heldClaims.mp hmem
      have hother := hbase.owner_iff.mpr ⟨record, hrecord, hlive, rfl, hclaim⟩
      cases howner.symm.trans hother
      exact hpending (mem_map_of_mem hoperation)

/-- A claim that is taken was free; an occupied one is a conflict. -/
theorem acquireClaim_eq_ok
    (hok : acquireClaim codec ns (fun key => .ok (base.find key)) revision owner staging claim =
      .ok taken) :
    taken.conflicts ≠ [] ∨ ownerAt codec ns (seen base staging.rows) claim = none ∧
      taken = { staging with
        rows := staging.rows.insert (claimKey codec ns claim)
          (.claim ⟨ns, claim, revision, some owner⟩) } := by
  obtain ⟨current, hcurrent, hok⟩ := bind_eq_ok hok
  obtain ⟨occupied, hoccupied, hok⟩ := bind_eq_ok hok
  have hfind : (seen base staging.rows).find (claimKey codec ns claim) = current := by
    simp only [seen, Table.find_overlay]
    split at hcurrent <;> rename_i hstaged <;> rw [hstaged, ← Except.ok.inj hcurrent] <;> rfl
  have howner : occupied = (ownerAt codec ns (seen base staging.rows) claim).isSome := by
    unfold ownerAt
    rw [hfind]
    split at hoccupied
    · split at hoccupied
      · exact (Except.ok.inj hoccupied).symm
      · cases hoccupied
    · exact (Except.ok.inj hoccupied).symm
    · cases hoccupied
  cases occupied with
  | true =>
    cases hok
    refine .inl ?_
    split
    · next hmem => exact ne_nil_of_mem hmem
    · simp
  | false =>
    refine .inr ⟨?_, (Except.ok.inj hok).symm⟩
    simpa using howner.symm

/-- Conflicts are never withdrawn. -/
theorem acquireClaim_conflicts {read : SessionKey → Except ScopeBatchError (Option ScopeRow)}
    (hok : acquireClaim codec ns read revision owner staging claim = .ok taken)
    (hnone : taken.conflicts = []) : staging.conflicts = [] := by
  obtain ⟨_, -, hok⟩ := bind_eq_ok hok
  obtain ⟨occupied, -, hok⟩ := bind_eq_ok hok
  cases occupied with
  | true =>
    cases hok
    split at hnone
    · exact hnone
    · simp at hnone
  | false =>
    cases hok
    exact hnone

theorem acquireClaims_conflicts {claims : List ScopeClaimKey}
    (hok : claims.foldlM (acquireClaim codec ns (fun key => .ok (base.find key)) revision owner)
      staging = .ok taken) (hnone : taken.conflicts = []) : staging.conflicts = [] := by
  by_contra hconflict
  refine foldlM_invariant (fun state : Staging => state.conflicts ≠ []) ?_ hconflict hok hnone
  exact fun _ _ _ hstate hstep hnext => hstate (acquireClaim_conflicts hstep hnext)

/-- Taking all claims of one child: each was free, and is owned now. -/
theorem acquire_spec {claims : List ScopeClaimKey}
    (hshape : Shape codec ns birthFloor revision (seen base staging.rows))
    (hok : claims.foldlM (acquireClaim codec ns (fun key => .ok (base.find key)) revision owner)
      staging = .ok taken) (hnone : taken.conflicts = []) :
    taken.versions = staging.versions ∧
      Shape codec ns birthFloor revision (seen base taken.rows) ∧
      childAt codec ns (seen base taken.rows) = childAt codec ns (seen base staging.rows) ∧
      (∀ claim ∈ claims, ownerAt codec ns (seen base staging.rows) claim = none) ∧
      ∀ claim, ownerAt codec ns (seen base taken.rows) claim =
        if claim ∈ claims then some owner
        else ownerAt codec ns (seen base staging.rows) claim := by
  induction claims generalizing staging with
  | nil =>
    cases hok
    exact ⟨rfl, hshape, rfl, by simp, by simp⟩
  | cons first rest ih =>
    obtain ⟨middle, hmiddle, hrest⟩ := bind_eq_ok hok
    rcases acquireClaim_eq_ok hmiddle with hconflict | ⟨hfree, rfl⟩
    · exact absurd (acquireClaims_conflicts hrest hnone) hconflict
    · have hinserted : Shape codec ns birthFloor revision (seen base
          (staging.rows.insert (claimKey codec ns first)
            (.claim ⟨ns, first, revision, some owner⟩))) := by
        rw [seen_insert]
        exact hshape.insertClaim ⟨rfl, rfl, le_rfl⟩
      obtain ⟨hversions, hfinal, hchildren, hfrees, howners⟩ := ih hinserted hrest
      simp only [seen_insert, childAt_insert_claim, ownerAt_insert_claim]
        at hchildren hfrees howners
      refine ⟨hversions, hfinal, hchildren, ?_, fun claim => ?_⟩
      · refine forall_mem_cons.mpr ⟨hfree, fun claim hclaim => ?_⟩
        have hlater := hfrees _ hclaim
        split at hlater
        · cases hlater
        · exact hlater
      · rw [howners]
        by_cases hlast : claim ∈ rest
        · simp [hlast]
        · by_cases hfirst : claim = first <;> simp [hfirst]

/-- The version an operation installs between two birth floors: a creation takes
the next birth, any other operation the next generation of its birth. -/
def Installs (floor : ℕ) (operation : ScopeChildMutation)
    (version : ScopeChildRevision) (next : ℕ) : Prop :=
  match operation.expected with
  | some before => version = ⟨before.birth, before.generation + 1⟩ ∧ next = floor
  | none => version = ⟨floor + 1, 1⟩ ∧ next = floor + 1

theorem nextVersion_eq_ok (hok : nextVersion floor operation = .ok (version, next)) :
    Installs floor operation version next := by
  unfold nextVersion at hok
  unfold Installs
  cases hexpected : operation.expected <;> rw [hexpected] at hok
  -- the next birth or the next generation, made into a version in the same way
  all_goals
    obtain ⟨_, hcounter, hok⟩ := okOr_bind hok
    obtain ⟨_, hmade, hok⟩ := bind_eq_ok hok
    obtain ⟨_, -, hmade⟩ := bind_eq_ok hmade
    cases hmade
    cases hok
    obtain ⟨rfl, -⟩ := nextCounter_eq_some hcounter
    exact ⟨rfl, rfl⟩

theorem Installs.floor_le (hinstalls : Installs floor operation version next) : floor ≤ next := by
  unfold Installs at hinstalls
  split at hinstalls <;> omega

/-- A version is within the floor after it when what it replaces was. -/
theorem Installs.birth_le (hinstalls : Installs floor operation version next)
    (hexpected : ∀ before, operation.expected = some before → before.birth ≤ floor) :
    version.birth ≤ next := by
  unfold Installs at hinstalls
  split at hinstalls
  · next before hbefore =>
    obtain ⟨rfl, rfl⟩ := hinstalls
    exact hexpected before hbefore
  · obtain ⟨rfl, rfl⟩ := hinstalls
    exact le_rfl

/-- The record an operation writes. -/
def written (ns : ScopeNamespace) (revision : ℕ) (operation : ScopeChildMutation)
    (version : ScopeChildRevision) : ScopeChildRecord :=
  ⟨ns, operation.key, version, revision, operation.value, operation.claims⟩

theorem ScopeChildMutation.live_of_claim (hclaim : claim ∈ operation.claims) :
    operation.value.isSome = true := by
  cases operation with
  | create | compareAndSet => rfl
  | delete => cases hclaim

theorem ScopeChildMutation.claims_of_tombstone
    (hvalue : operation.value = none) : operation.claims = [] := by
  cases operation with
  | create | compareAndSet => cases hvalue
  | delete => rfl

/-- One operation takes its child out of the pending ones. -/
theorem applyOperation_spec {rest : List ScopeChildKey} {next : Staging}
    (hfresh : operation.key ∉ rest)
    (hlinked : Linked codec ns (operation.key :: rest) staging.birthFloor revision
      (seen base staging.rows))
    (hexpected : ∀ before, operation.expected = some before → before.birth ≤ staging.birthFloor)
    (hok : applyOperation codec ns (fun key => .ok (base.find key)) revision staging operation =
      .ok next) (hnone : next.conflicts = []) :
    Linked codec ns rest next.birthFloor revision (seen base next.rows) ∧
      ∃ version, next.versions = staging.versions ++ [version] ∧
        Installs staging.birthFloor operation version next.birthFloor ∧
        ∀ key, childAt codec ns (seen base next.rows) key =
          if key = operation.key then some (written ns revision operation version)
          else childAt codec ns (seen base staging.rows) key := by
  obtain ⟨⟨version, floor⟩, hversion, hok⟩ := bind_eq_ok hok
  obtain ⟨taken, htaken, hok⟩ := bind_eq_ok hok
  cases hok
  have hinstalls := nextVersion_eq_ok hversion
  obtain ⟨hversions, hshape, hchildren, hfrees, howners⟩ := acquire_spec hlinked.shape htaken hnone
  have hfits : ChildFits ns floor revision operation.key (written ns revision operation version) :=
    ⟨rfl, rfl, hinstalls.birth_le hexpected, le_rfl, ScopeChildMutation.claims_of_tombstone⟩
  have hchild : ∀ key, childAt codec ns ((seen base taken.rows).insert
      (childKey codec ns operation.key) (.child (written ns revision operation version))) key =
      if key = operation.key then some (written ns revision operation version)
      else childAt codec ns (seen base staging.rows) key := by
    intro key
    rw [childAt_insert_child, hchildren]
  simp only [seen_insert]
  refine ⟨⟨?_, fun claim child birth => ?_⟩, version, by rw [← hversions], hinstalls, hchild⟩
  · exact (hshape.mono hinstalls.floor_le le_rfl).insertChild hfits
  · have hlink := hlinked.links claim child birth
    rw [ownerAt_insert_child, howners]
    constructor
    · intro howner
      split at howner
      · next hclaim =>
        obtain ⟨rfl, rfl⟩ := ClaimOwner.mk.inj (Option.some.inj howner)
        exact ⟨hfresh, written ns revision operation version, (hchild _).trans
          (if_pos rfl), ScopeChildMutation.live_of_claim hclaim, rfl, hclaim⟩
      · obtain ⟨hpending, record, hrecord, hfacts⟩ := hlink.mp howner
        obtain ⟨hother, hrest⟩ := not_or.mp (mt mem_cons.mpr hpending)
        exact ⟨hrest, record, (hchild _).trans ((if_neg hother).trans hrecord), hfacts⟩
    · rintro ⟨hrest, record, hrecord, hlive, hbirth, hclaim⟩
      have hrecord := (hchild _).symm.trans hrecord
      split at hrecord
      · next hsame =>
        cases hrecord
        rw [if_pos (show claim ∈ operation.claims from hclaim), hsame, ← hbirth]
        rfl
      · next hother =>
        have howner := hlink.mpr ⟨by simp [hother, hrest], record, hrecord, hlive, hbirth, hclaim⟩
        rw [if_neg]
        · exact howner
        · intro hwanted
          cases (hfrees _ hwanted).symm.trans howner

/-- The births that a batch allocated. -/
def allocated (operations : List ScopeChildMutation)
    (versions : List ScopeChildRevision) : List ℕ :=
  (operations.zip versions).filterMap fun pair =>
    if pair.1.expected = none then some pair.2.birth else none

/-- What an operation did to its child. -/
def Changed (codec : Codec) (ns : ScopeNamespace) (floor : ℕ)
    (rows : Table SessionKey ScopeRow) (operation : ScopeChildMutation)
    (version : ScopeChildRevision) : Prop :=
  (∃ record, childAt codec ns rows operation.key = some record ∧ record.revision = version) ∧
    match operation.expected with
    | some before => version = ⟨before.birth, before.generation + 1⟩
    | none => floor < version.birth ∧ version.generation = 1

theorem Installs.changed (hinstalls : Installs floor operation version next)
    (hchild : childAt codec ns rows operation.key = some (written ns revision operation version)) :
    Changed codec ns floor rows operation version := by
  refine ⟨⟨_, hchild, rfl⟩, ?_⟩
  unfold Installs at hinstalls
  split at hinstalls
  · exact hinstalls.1
  · rw [hinstalls.1]
    exact ⟨Nat.lt_succ_self _, rfl⟩

theorem Installs.ascends (hinstalls : Installs floor operation version next) :
    Ascends floor (allocated [operation] [version]) next := by
  unfold Installs at hinstalls
  split at hinstalls <;> rename_i hexpected <;> obtain ⟨rfl, rfl⟩ := hinstalls
  · simpa [allocated, hexpected] using Ascends.nil le_rfl
  · simpa [allocated, hexpected] using Ascends.single (Nat.lt_succ_self _) le_rfl

/-- All operations of a batch, in order. -/
theorem operations_spec {final : Staging} (hnodup : (operations.map (·.key)).Nodup)
    (hlinked : Linked codec ns (operations.map (·.key)) staging.birthFloor revision
      (seen base staging.rows))
    (hexpected : ∀ operation ∈ operations, ∀ before,
      operation.expected = some before → before.birth ≤ staging.birthFloor)
    (hok : operations.foldlM (applyOperation codec ns (fun key => .ok (base.find key)) revision)
      staging = .ok final) (hnone : final.conflicts = []) :
    Linked codec ns [] final.birthFloor revision (seen base final.rows) ∧
      ∃ versions, final.versions = staging.versions ++ versions ∧
        versions.length = operations.length ∧
        Ascends staging.birthFloor (allocated operations versions) final.birthFloor ∧
        (∀ pair ∈ operations.zip versions,
          Changed codec ns staging.birthFloor (seen base final.rows) pair.1 pair.2) ∧
        ∀ key ∉ operations.map (·.key), childAt codec ns (seen base final.rows) key =
          childAt codec ns (seen base staging.rows) key := by
  induction operations generalizing staging with
  | nil =>
    cases hok
    exact ⟨hlinked, [], by simp, rfl, .nil le_rfl, by simp, by simp⟩
  | cons operation rest ih =>
    obtain ⟨middle, hmiddle, hrest⟩ := bind_eq_ok hok
    rw [map_cons, nodup_cons] at hnodup
    have hnoneMiddle : middle.conflicts = [] := by
      by_contra hconflict
      refine foldlM_invariant (fun state : Staging => state.conflicts ≠ []) ?_ hconflict hrest hnone
      intro state _ _ hstate hstep hnext
      obtain ⟨version, -, hstep⟩ := bind_eq_ok hstep
      obtain ⟨_, htaken, hstep⟩ := bind_eq_ok hstep
      cases hstep
      exact hstate (acquireClaims_conflicts htaken hnext)
    obtain ⟨hlinkedMiddle, version, hversion, hinstalls, hchild⟩ :=
      applyOperation_spec hnodup.1 hlinked (hexpected _ (mem_cons_self ..)) hmiddle hnoneMiddle
    have hfloor := hinstalls.floor_le
    obtain ⟨hfinal, versions, hversions, hlength, hascends, hchanged, hothers⟩ :=
      ih hnodup.2 hlinkedMiddle (fun other hother before hbefore =>
        (hexpected _ (mem_cons_of_mem _ hother) _ hbefore).trans hfloor) hrest
    refine ⟨hfinal, version :: versions, by rw [hversions, hversion]; simp,
      by simp [hlength], ?_, ?_, ?_⟩
    · have hsplit : allocated (operation :: rest) (version :: versions) =
          allocated [operation] [version] ++ allocated rest versions := by
        simp only [allocated, ← filterMap_append]
        rfl
      rw [hsplit]
      exact hinstalls.ascends.append hascends
    · refine forall_mem_cons.mpr ⟨?_, fun pair hpair => ?_⟩
      · have hwritten : childAt codec ns (seen base final.rows) operation.key =
            some (written ns revision operation version) := by
          rw [hothers _ hnodup.1, hchild, if_pos rfl]
        exact hinstalls.changed hwritten
      · obtain ⟨hrecord, hkind⟩ := hchanged _ hpair
        refine ⟨hrecord, ?_⟩
        cases hbefore : pair.1.expected <;> simp only [hbefore] at hkind ⊢
        case none => exact ⟨hfloor.trans_lt hkind.1, hkind.2⟩
        case some => exact hkind
    · intro key hkey
      obtain ⟨hother, hrestKey⟩ := not_or.mp (mt mem_cons.mpr hkey)
      rw [hothers _ hrestKey, hchild, if_neg hother]

/-- A live version is a stored one. -/
theorem Shape.birth_liveRevision (hshape : Shape codec ns birthFloor revision base)
    {child : ScopeChildKey} {before : ScopeChildRevision}
    (hlive : liveRevision (childAt codec ns base child) = some before) :
    before.birth ≤ birthFloor := by
  obtain ⟨_, hrecord, rfl⟩ := Option.map_eq_some_iff.mp hlive
  have hchild := (Option.filter_eq_some_iff.mp hrecord).1
  exact (hshape.childFits hchild).2.birth

/-- The overlay of an accepted batch. -/
theorem stageRows_spec (hbase : Linked codec ns [] checkpoint.birthFloor revision base)
    (hlater : revision ≤ later) (hnodup : (request.operations.map (·.key)).Nodup)
    (hcompared : compareRows codec ns (fun key => .ok (base.find key)) request checkpoint =
      .ok predecessors)
    (hok : stageRows codec ns (fun key => .ok (base.find key)) request checkpoint later
      predecessors = .ok staging) :
    Linked codec ns [] staging.birthFloor later (seen base staging.rows) ∧
      staging.versions.length = request.operations.length ∧
      Ascends checkpoint.birthFloor (allocated request.operations staging.versions)
        staging.birthFloor ∧
      (∀ pair ∈ request.operations.zip staging.versions,
        Changed codec ns checkpoint.birthFloor (seen base staging.rows) pair.1 pair.2) ∧
      ∀ operation ∈ request.operations,
        liveRevision (childAt codec ns base operation.key) = operation.expected := by
  obtain ⟨released, hreleased, hok⟩ := bind_eq_ok hok
  obtain ⟨_, hfinal, hok⟩ := bind_eq_ok hok
  obtain ⟨hconflicts, hok⟩ := refuseIf_bind hok
  cases hok
  obtain ⟨rfl, hexpected⟩ := compareRows_eq_ok hcompared
  have hlinked := linked_released hbase hlater hreleased
  have hbirths : ∀ operation ∈ request.operations, ∀ before,
      operation.expected = some before → before.birth ≤ checkpoint.birthFloor := by
    intro operation hmem before hbefore
    exact hbase.shape.birth_liveRevision ((hexpected _ hmem).trans hbefore)
  obtain ⟨hlast, versions, hversions, hlength, hascends, hchanged, -⟩ :=
    operations_spec hnodup (by exact hlinked) (by exact hbirths) hfinal (not_not.mp hconflicts)
  obtain rfl : staging.versions = versions := hversions.trans (nil_append _)
  exact ⟨hlast, hlength, hascends, hchanged, hexpected⟩

/-- Writing the ledger row leaves children and claims alone. -/
theorem Linked.insertBatch (hlinked : Linked codec ns pending birthFloor revision rows)
    (row : ScopeRow) :
    Linked codec ns pending birthFloor revision (rows.insert (batchKey ns.scope) row) := by
  refine ⟨hlinked.shape.insertBatch _, fun claim child birth => ?_⟩
  simpa [Lists] using hlinked.links _ _ _

end Batch

/-! ## Whole runs -/

/-- The births an event allocated. -/
def births : ScopeEvent → List ℕ
  | .applied request _ outcome => allocated request.operations outcome.rows
  | .cancelled _ => []

namespace ScopeStore

variable {store next : ScopeStore}

/-- The namespace of the scope's only cohort. -/
def cohort (store : ScopeStore) : ScopeNamespace := ⟨store.scope, .one⟩

/-- The rows are linked, and every birth so far was allocated once. -/
structure Owned (codec : Codec) (store : ScopeStore)
    (checkpoint : ScopeBatchCheckpoint) : Prop where
  checkpoint_eq : store.checkpoint = some checkpoint
  linked : Linked codec store.cohort [] checkpoint.birthFloor checkpoint.revision store.rows
  births : Ascends 0 (store.trace.flatMap births) checkpoint.birthFloor

/-- An unused scope, or one whose claims are owned. -/
def ClaimsOk (codec : Codec) (store : ScopeStore) : Prop :=
  store.authority = none ∨ ∃ checkpoint, store.Owned codec checkpoint

theorem linked_empty (ns : ScopeNamespace) (checkpoint : ScopeBatchCheckpoint) :
    Linked codec ns [] 0 0 (Table.empty.insert (batchKey ns.scope) (.batch checkpoint)) := by
  have hempty : Shape codec ns 0 0 .empty := ⟨by simp, by simp, by simp⟩
  refine ⟨hempty.insertBatch _, fun claim child birth => ?_⟩
  simp [Lists, ownerAt, childAt]

theorem ClaimsOk.authority (hclaims : store.ClaimsOk codec)
    (hledger : store.LedgerOk codec) (state : ScopeState) :
    ClaimsOk codec { store with authority := some state, rows := store.admitRows } := by
  rcases hledger with ⟨hnone, hrows, htrace⟩ | ⟨authority, _, _, hadmitted⟩
  · refine .inr ⟨.empty store.scope, checkpoint_admitRows_none hnone _, ?_, ?_⟩
    · simp only [admitRows, hnone, hrows]
      exact linked_empty _ _
    · simp only [htrace]
      exact .nil le_rfl
  · have hrows : store.admitRows = store.rows := by
      simp [admitRows, hadmitted.authority_eq]
    rw [hrows]
    rcases hclaims with hnone | ⟨checkpoint, howned⟩
    · cases hnone.symm.trans hadmitted.authority_eq
    · exact .inr ⟨checkpoint, howned.checkpoint_eq, howned.linked, howned.births⟩

/-- An accepted batch under the cohort of the store, with what it did to its
children. -/
structure Batched (codec : Codec) (store next : ScopeStore)
    (request : ScopeBatchRequest) (before after : ScopeBatchCheckpoint)
    (attempt : ScopeBatchAttempt) (outcome : ScopeBatchOutcome) : Prop where
  before_eq : store.checkpoint = some before
  after_eq : next.checkpoint = some after
  scope_eq : next.scope = store.scope
  trace_eq : next.trace = store.trace ++ [.applied request attempt outcome]
  linked : Linked codec store.cohort [] after.birthFloor after.revision next.rows
  length : outcome.rows.length = request.operations.length
  ascends : Ascends before.birthFloor (allocated request.operations outcome.rows) after.birthFloor
  changed : ∀ pair ∈ request.operations.zip outcome.rows,
    Changed codec store.cohort before.birthFloor next.rows pair.1 pair.2
  expected : ∀ operation ∈ request.operations,
    liveRevision (childAt codec store.cohort store.rows operation.key) = operation.expected

section

variable {authority : ScopeState} {after : ScopeBatchCheckpoint}

theorem Owned.apply (howned : store.Owned codec before) (hledger : store.LedgerOk codec)
    (happly : ApplyStep codec store next request authority before after attempt predecessors
      staging outcome) : Batched codec store next request before after attempt outcome := by
  obtain ⟨_, hplan, happlies⟩ := happly.applies
  obtain ⟨stamp, _, hadmitted⟩ := hledger.admitted happly.commit.authority_eq
  have hns : request.stamp.ns = store.cohort := by
    have hcurrent := ScopeState.stamp_of_checkStamp happlies.stamp
    rw [← Option.some.inj (hadmitted.valid.stamp_eq.symm.trans hcurrent)]
    exact hadmitted.cohort
  have hnodup := ScopeBatchRequest.nodup_operations
    (ScopeBatchRequest.attempt_eq_ok happlies.attempt_eq).1
  have hcompared := happlies.compared
  have hstaged := happlies.staged
  rw [hns] at hcompared hstaged
  obtain ⟨hlinked, hlength, hascends, hchanged, hexpected⟩ :=
    stageRows_spec howned.linked (Nat.le_succ _) hnodup hcompared hstaged
  have hfloor : after.birthFloor = staging.birthFloor := hplan ▸ happlies.birthFloor
  have hrows : next.rows =
      (seen store.rows staging.rows).insert (batchKey store.cohort.scope) (.batch after) := by
    rw [happly.rows]
    exact seen_insert _ _ _ _
  have hrevision := happly.commit.records.revision
  refine ⟨happly.commit.before_eq, happly.commit.after_eq, by rw [happly.commit.rest],
    by rw [happly.commit.rest], ?_, ?_, ?_, ?_, hexpected⟩
  · rw [hfloor, hrevision, hrows]
    exact hlinked.insertBatch _
  · rw [happlies.versions]
    exact hlength
  · rw [happlies.versions, hfloor]
    exact hascends
  · rw [happlies.versions]
    intro _ hpair
    obtain ⟨hrecord, hkind⟩ := hchanged _ hpair
    refine ⟨?_, hkind⟩
    rw [hrows, childAt_insert_batch]
    exact hrecord

theorem Batched.owned (howned : store.Owned codec before)
    (hbatched : Batched codec store next request before after attempt outcome) :
    next.Owned codec after := by
  have hcohort : next.cohort = store.cohort := by rw [cohort, cohort, hbatched.scope_eq]
  refine ⟨hbatched.after_eq, hcohort ▸ hbatched.linked, ?_⟩
  rw [hbatched.trace_eq, flatMap_append]
  have hlast : [ScopeEvent.applied request attempt outcome].flatMap Scope.births =
      allocated request.operations outcome.rows := by
    rw [flatMap_singleton]
    rfl
  rw [hlast]
  exact howned.births.append hbatched.ascends

theorem Owned.cancel (howned : store.Owned codec before)
    (hcommit : Commit codec store next authority before after (.cancelled attempt))
    (hfloor : after.birthFloor = before.birthFloor) (hrows : next.rows =
      store.rows.overlay (Table.empty.insert (batchKey store.scope) (.batch after)) ∅) :
    next.Owned codec after := by
  have hscope : next.scope = store.scope := by rw [hcommit.rest]
  have htrace : next.trace = store.trace ++ [.cancelled attempt] := by rw [hcommit.rest]
  have hinserted : next.rows = store.rows.insert (batchKey store.cohort.scope) (.batch after) := by
    have hinsert := seen_insert store.rows .empty (batchKey store.scope) (.batch after)
    rw [seen_empty] at hinsert
    exact hrows.trans hinsert
  refine ⟨hcommit.after_eq, ?_, ?_⟩
  · rw [cohort, hscope, hinserted, hfloor]
    have hle : before.revision ≤ after.revision := by
      rw [hcommit.records.revision]
      exact Nat.le_succ _
    exact Linked.insertBatch ⟨howned.linked.shape.mono le_rfl hle, howned.linked.links⟩ _
  · rw [htrace, hfloor]
    simpa [Scope.births] using howned.births

theorem ClaimsOk.owned (hclaims : store.ClaimsOk codec)
    (hauthority : store.authority = some authority)
    (hbefore : store.checkpoint = some before) : store.Owned codec before := by
  rcases hclaims with hnone | ⟨checkpoint, howned⟩
  · cases hnone.symm.trans hauthority
  · cases howned.checkpoint_eq.symm.trans hbefore
    exact howned

theorem ClaimsOk.step (hclaims : store.ClaimsOk codec) (hledger : store.LedgerOk codec)
    {input : ScopeInput} (hok : store.step codec input = .ok next) : next.ClaimsOk codec := by
  cases input with
  | authority =>
    rcases authority_cases hok with rfl | ⟨_, -, -, -, rfl⟩
    · exact hclaims
    · exact hclaims.authority hledger _
  | apply =>
    rcases apply_cases hok with rfl | ⟨_, before, after, _, _, _, _, happly⟩
    · exact hclaims
    · have howned := hclaims.owned happly.commit.authority_eq happly.commit.before_eq
      exact .inr ⟨after, (howned.apply hledger happly).owned howned⟩
  | cancel =>
    rcases cancel_cases hok with rfl | ⟨_, before, after, hcommit, hfloor, hrows⟩
    · exact hclaims
    · have howned := hclaims.owned hcommit.authority_eq hcommit.before_eq
      exact .inr ⟨after, howned.cancel hcommit hfloor hrows⟩

theorem claimsOk_run {scope : ScopeId} (hrun : Leads (step codec) (start scope) store) :
    store.LedgerOk codec ∧ store.ClaimsOk codec := by
  have hstart : (start scope).LedgerOk codec ∧ (start scope).ClaimsOk codec :=
    ⟨ledgerOk_start _, .inl rfl⟩
  apply hrun.invariant ?_ hstart
  intro _ _ _ hstate hstep
  exact ⟨hstate.1.step hstep, hstate.2.step hstate.1 hstep⟩

/-- Every stored row passes the cross-row checks of publication. -/
theorem Owned.linksValid (howned : store.Owned codec checkpoint)
    (hscope : checkpoint.scope = store.scope) {key : SessionKey} {row : ScopeRow}
    (hfind : store.rows.find key = some row) : row.LinksValid codec store.rows.find := by
  have hledger : store.rows.find (batchKey store.scope) = some (.batch checkpoint) := by
    have hcheckpoint := howned.checkpoint_eq
    unfold ScopeStore.checkpoint at hcheckpoint
    split at hcheckpoint
    · next _ hfound => rw [hfound, Option.some.inj hcheckpoint]
    · cases hcheckpoint
  have hshape := howned.linked.shape
  rcases hshape.keys _ (Table.mem_keys_of_find hfind) with rfl | ⟨child, rfl⟩ | ⟨claim, rfl⟩
  · cases hfind.symm.trans hledger
    exact ⟨checkpoint, by simpa only [ScopeRow.scope, hscope] using hledger, rfl, le_rfl, trivial⟩
  · obtain ⟨record, rfl, hfits⟩ := hshape.children _ _ hfind
    have hrecordScope : record.ns.scope = store.scope := by rw [hfits.ns_eq]; rfl
    refine ⟨checkpoint, ?_, ?_, hfits.written, hfits.birth, fun claim hclaim => ?_⟩
    · simpa only [ScopeRow.scope, hrecordScope] using hledger
    · simpa only [ScopeRow.scope, hrecordScope] using hscope
    · have hlive : record.value.isSome = true := by
        by_contra htombstone
        rw [hfits.tombstone (by simpa using htombstone)] at hclaim
        cases hclaim
      have hchild : childAt codec store.cohort store.rows child = some record := by
        rw [childAt, hfind]
      have howner := howned.linked.owner_iff.mpr ⟨record, hchild, hlive, rfl, hclaim⟩
      rw [hfits.ns_eq, hfits.key_eq]
      unfold ownerAt at howner
      split at howner
      · next stored hstored =>
        obtain ⟨_, heq, hclaimFits⟩ := hshape.claims _ _ hstored
        obtain rfl := ScopeRow.claim.inj heq
        exact ⟨stored, hstored, hclaimFits.ns_eq, howner⟩
      · cases howner
  · obtain ⟨stored, rfl, hfits⟩ := hshape.claims _ _ hfind
    have hstoredScope : stored.ns.scope = store.scope := by rw [hfits.ns_eq]; rfl
    refine ⟨checkpoint, ?_, ?_, hfits.written, fun owner howner => ?_⟩
    · simpa only [ScopeRow.scope, hstoredScope] using hledger
    · simpa only [ScopeRow.scope, hstoredScope] using hscope
    · have hnamed : ownerAt codec store.cohort store.rows claim =
          some ⟨owner.child, owner.birth⟩ := by
        rw [ownerAt, hfind]
        exact howner
      obtain ⟨record, hrecord, hlive, hbirth, hclaim⟩ :=
        howned.linked.owner_iff.mp hnamed
      obtain ⟨hfound, hchildFits⟩ := hshape.childFits hrecord
      rw [hfits.ns_eq, hfits.key_eq]
      exact ⟨record, hfound, hchildFits.ns_eq, hlive, hbirth, hclaim⟩

/-- What an accepted batch did to one child: the version it replaces was live,
a creation takes a birth above every earlier one, and any other operation
keeps the birth and takes the next generation. -/
def OperationEffect (codec : Codec) (store next : ScopeStore)
    (operation : ScopeChildMutation) (version : ScopeChildRevision) : Prop :=
  liveRevision (childAt codec store.cohort store.rows operation.key) = operation.expected ∧
    (∃ record, childAt codec store.cohort next.rows operation.key = some record ∧
      record.revision = version) ∧
    match operation.expected with
    | some before => version = ⟨before.birth, before.generation + 1⟩
    | none => version.generation = 1 ∧ ∀ birth ∈ store.trace.flatMap births, birth < version.birth

theorem Batched.effect (howned : store.Owned codec before)
    (hbatched : Batched codec store next request before after attempt outcome)
    {pair : ScopeChildMutation × ScopeChildRevision}
    (hpair : pair ∈ request.operations.zip outcome.rows) :
    OperationEffect codec store next pair.1 pair.2 := by
  obtain ⟨hrecord, hkind⟩ := hbatched.changed _ hpair
  refine ⟨hbatched.expected _ (of_mem_zip hpair).1, hrecord, ?_⟩
  cases hexpected : pair.1.expected <;> simp only [hexpected] at hkind ⊢
  case none =>
    refine ⟨hkind.2, fun birth hbirth => ?_⟩
    exact (howned.births.within _ hbirth).2.trans_lt hkind.1
  case some => exact hkind

end

/-- Scope claims are owned by exactly one live child.  In every reachable store
a claim row names the live child that lists the claim, and no other child lists
it; births stay within the floor and are allocated in ascending order, also
after deletions; every row passes its cross-row checks; accepted batches move
versions as described; and a refused command changes no row. -/
theorem claims_owned_once {scope : ScopeId} (hrun : Leads (step codec) (start scope) store) :
    (∀ claim child birth, ownerAt codec store.cohort store.rows claim = some ⟨child, birth⟩ ↔
      Lists codec store.cohort store.rows child birth claim) ∧
    (∀ claim left leftBirth right rightBirth,
      Lists codec store.cohort store.rows left leftBirth claim →
      Lists codec store.cohort store.rows right rightBirth claim → left = right) ∧
    (∀ checkpoint child record, store.checkpoint = some checkpoint →
      childAt codec store.cohort store.rows child = some record →
      record.revision.birth ≤ checkpoint.birthFloor) ∧
    (store.trace.flatMap births).Pairwise (· < ·) ∧
    (∀ key row, store.rows.find key = some row → row.LinksValid codec store.rows.find) ∧
    (∀ request next, store.step codec (.apply request) = .ok next →
      next = store ∨ ∃ attempt outcome,
        next.trace = store.trace ++ [.applied request attempt outcome] ∧
        outcome.rows.length = request.operations.length ∧
        ∀ pair ∈ request.operations.zip outcome.rows,
          OperationEffect codec store next pair.1 pair.2) ∧
    (∀ request refusal, request.stamp.scope = store.scope →
      store.planApply codec request = .error refusal →
      store.step codec (.apply request) = .ok store) ∧
    ∀ attempt refusal, attempt.stamp.scope = store.scope →
      store.planCancel codec attempt = .error refusal →
      store.step codec (.cancel attempt) = .ok store := by
  obtain ⟨hledger, hclaims⟩ := claimsOk_run hrun
  have howned : (store.rows = .empty ∧ store.trace = []) ∨
      ∃ checkpoint, store.Owned codec checkpoint ∧ checkpoint.scope = store.scope := by
    refine hledger.imp And.right ?_
    rintro ⟨_, _, checkpoint, hadmitted⟩
    have howned := hclaims.owned hadmitted.authority_eq hadmitted.checkpoint_eq
    exact ⟨checkpoint, howned, hadmitted.ledgerScope⟩
  have hlinks : ∀ claim child birth,
      ownerAt codec store.cohort store.rows claim = some ⟨child, birth⟩ ↔
        Lists codec store.cohort store.rows child birth claim := by
    rcases howned with ⟨hrows, -⟩ | ⟨_, howned, -⟩
    · simp [hrows, Lists, ownerAt, childAt]
    · exact fun _ _ _ => howned.linked.owner_iff
  refine ⟨hlinks, ?_, ?_, ?_, ?_, ?_, fun _ _ hscope hrefused => ?_,
    fun _ _ hscope hrefused => ?_⟩
  · intro claim left leftBirth right rightBirth hleft hright
    have howner := ((hlinks _ _ _).mpr hleft).symm.trans ((hlinks _ _ _).mpr hright)
    exact congrArg ClaimOwner.child (Option.some.inj howner)
  · intro checkpoint child record hcheckpoint hchild
    rcases howned with ⟨hrows, -⟩ | ⟨_, howned, -⟩
    · simp [hrows, childAt] at hchild
    · cases howned.checkpoint_eq.symm.trans hcheckpoint
      exact (howned.linked.shape.childFits hchild).2.birth
  · rcases howned with ⟨-, htrace⟩ | ⟨_, howned, -⟩
    · simp [htrace]
    · exact howned.births.sorted
  · intro key row hfind
    rcases howned with ⟨hrows, -⟩ | ⟨_, howned, hscope⟩
    · simp [hrows] at hfind
    · exact howned.linksValid hscope hfind
  · intro request next hok
    rcases apply_cases hok with hsame | ⟨_, _, _, attempt, _, _, outcome, happly⟩
    · exact .inl hsame
    · have howned := hclaims.owned happly.commit.authority_eq happly.commit.before_eq
      have hbatched := howned.apply hledger happly
      exact .inr ⟨attempt, outcome, hbatched.trace_eq, hbatched.length,
        fun pair hpair => hbatched.effect howned hpair⟩
  · simp [step, refuseIf, hscope, hrefused]
  · simp [step, refuseIf, hscope, hrefused]

open Sample in
/-- A claim that a batch hands over is listed by its new owner. -/
theorem claims_owned_once_sample :
    let store := after (admission ++ [.apply handover])
    ownerAt Sample.codec store.cohort store.rows (claim 1) = some ⟨child 2, 2⟩ ∧
      Lists Sample.codec store.cohort store.rows (child 2) 2 (claim 1) := by
  intro store
  have howner : ownerAt Sample.codec store.cohort store.rows (claim 1) = some ⟨child 2, 2⟩ := rfl
  have hrun : Leads (step Sample.codec) (start Sample.scope) store :=
    ⟨admission ++ [.apply handover], rfl⟩
  exact ⟨howner, ((claims_owned_once hrun).1 _ _ _).mp howner⟩

end ScopeStore

end PacketCore.Scope
