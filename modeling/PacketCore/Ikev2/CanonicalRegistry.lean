import PacketCore.Ikev2.CanonicalLedger

/-!
# The registry of canonical ledgers

The registry lock and a ledger's lock are never held together.  A call is
therefore two or three atomic steps, and a step on a ledger can come at any
time after the ledger was registered: its caller may have looked it up long
before.  `tombstones` lists every tombstone ever placed, oldest first.
-/

namespace PacketCore.Ikev2

open List

variable {κ β π : Type} [DecidableEq κ]

/-- How many ledgers and how many tombstones a registry keeps. -/
structure Limits where
  live : ℕ
  tombstones : ℕ

/-- Ledgers and capabilities are named by their allocation. -/
structure Registry (κ β π : Type) [DecidableEq κ] where
  live : Table κ ℕ
  deletionOrder : List κ
  ledgers : Table ℕ (Ledger κ β π)
  capabilities : Table ℕ ℕ
  allocated : ℕ
  tombstones : List κ

namespace Registry

def new : Registry κ β π := ⟨.empty, [], .empty, .empty, 0, []⟩

section Calls

variable (limits : Limits) (registry : Registry κ β π)

/-- A repeated deletion does not refresh its age. -/
def rememberDeletion (key : κ) : Registry κ β π :=
  if key ∈ registry.deletionOrder then registry
  else
    let order := if registry.deletionOrder.length = limits.tombstones then
      registry.deletionOrder.tail else registry.deletionOrder
    { registry with
      deletionOrder := if limits.tombstones = 0 then [] else order ++ [key]
      tombstones := registry.tombstones ++ [key] }

def setLedger (id : ℕ) (ledger : Ledger κ β π) : Registry κ β π :=
  { registry with ledgers := registry.ledgers.insert id ledger }

/-- The half of an acquisition under the registry lock. -/
def lookup (key : κ) (binding : β) : Except CanonicalError ℕ × Registry κ β π :=
  match registry.live.find key with
  | some id => (.ok id, registry)
  | none =>
    if key ∈ registry.deletionOrder then (.error .invalidated, registry)
    else if limits.live ≤ registry.live.keys.card then (.error .registryFull, registry)
    else
      (.ok registry.allocated, { registry with
        live := registry.live.insert key registry.allocated
        ledgers := registry.ledgers.insert registry.allocated (.new key binding)
        allocated := registry.allocated + 1 })

/-- The half of an acquisition under the ledger's lock.  An owner whose capability is gone does
not count. -/
def claim [DecidableEq β] (id : ℕ) (binding : β) : Except CanonicalError ℕ × Registry κ β π :=
  match registry.ledgers.find id with
  | none => (.error .unavailable, registry)
  | some ledger =>
    if ledger.binding ≠ binding then
      (.error .bindingMismatch, registry.setLedger id (ledger.revoke true))
    else if ledger.revoked then (.error .invalidated, registry)
    else if ledger.owner.any fun owner => (registry.capabilities.find owner).isSome then
      (.error .capabilityActive, registry)
    else
      (.ok registry.allocated,
        { registry.setLedger id { ledger with owner := some registry.allocated } with
          capabilities := registry.capabilities.insert registry.allocated id
          allocated := registry.allocated + 1 })

/-- A call of a capability on its own ledger. -/
def withLedger (handle : ℕ)
    (call : Ledger κ β π → Except CanonicalError π × Ledger κ β π) :
    Except CanonicalError π × Registry κ β π :=
  match registry.capabilities.find handle with
  | none => (.error .invalidated, registry)
  | some id =>
    match registry.ledgers.find id with
    | none => (.error .unavailable, registry)
    | some ledger => ((call ledger).1, registry.setLedger id (call ledger).2)

def reply (handle : ℕ) (request : Except CanonicalError ℕ) (sealing : Except CanonicalError π)
    (verified : Except CanonicalError Unit) : Except CanonicalError π × Registry κ β π :=
  registry.withLedger handle fun ledger => ledger.reply handle request sealing verified

def retireThrough (handle messageId : ℕ) : Registry κ β π :=
  (registry.withLedger handle fun ledger =>
    match ledger.checkInstance handle with
    | .error error => (.error error, ledger)
    | .ok _ => (.error .alreadyReleased, ledger.retireThrough messageId)).2

/-- Dropping a capability reconciles the ledger it still owns. -/
def drop (handle : ℕ) : Registry κ β π :=
  let registry := (registry.withLedger handle fun ledger =>
    (.error .invalidated, if ledger.owner = some handle then ledger.revoke false else ledger)).2
  { registry with capabilities := registry.capabilities.erase handle }

/-- An acquisition that fails after its claim only loses its allocation. -/
def abandon (handle : ℕ) : Registry κ β π :=
  { registry with capabilities := registry.capabilities.erase handle }

/-- A permanent revocation that finds no ledger. -/
def revokeAbsent (key : κ) : Registry κ β π :=
  match registry.live.find key with
  | some _ => registry
  | none => registry.rememberDeletion limits key

/-- A revocation at the ledger that it looked up. -/
def revokeLedger (id : ℕ) (permanent : Bool) : Registry κ β π :=
  match registry.ledgers.find id with
  | none => registry
  | some ledger => registry.setLedger id (ledger.revoke permanent)

/-- Only after the permanent revocation of this ledger, and never for a newer one. -/
def finishRevocation (id : ℕ) : Registry κ β π :=
  match registry.ledgers.find id with
  | none => registry
  | some ledger =>
    if ledger.revoked ∧ registry.live.find ledger.key = some id then
      { registry with live := registry.live.erase ledger.key }.rememberDeletion limits
        ledger.key
    else registry

end Calls

inductive Action (κ β π : Type)
  | lookup (key : κ) (binding : β)
  | claim (id : ℕ) (binding : β)
  | reply (handle : ℕ) (request : Except CanonicalError ℕ)
      (sealing : Except CanonicalError π) (verified : Except CanonicalError Unit)
  | retireThrough (handle messageId : ℕ)
  | drop (handle : ℕ)
  | abandon (handle : ℕ)
  | revokeAbsent (key : κ)
  | revokeLedger (id : ℕ) (permanent : Bool)
  | finishRevocation (id : ℕ)

/-- What the registry keeps: the unrevoked ledger of a key is the registered one, and a revoked
one that is gone left a tombstone. -/
structure Sound (limits : Limits) (registry : Registry κ β π) : Prop where
  live : ∀ key id, registry.live.find key = some id →
    ∃ ledger, registry.ledgers.find id = some ledger ∧ ledger.key = key
  ledgers : ∀ id ledger, registry.ledgers.find id = some ledger →
    ledger.Sound ∧ id < registry.allocated ∧ (registry.live.find ledger.key = some id ∨
      ledger.revoked = true ∧ ledger.key ∈ registry.tombstones)
  capabilities : ∀ handle id, registry.capabilities.find handle = some id →
    handle < registry.allocated ∧ (registry.ledgers.find id).isSome
  bounded : registry.live.keys.card ≤ limits.live
  queue : ∃ dropped, registry.tombstones = dropped ++ registry.deletionOrder ∧
    registry.deletionOrder.Nodup ∧ registry.deletionOrder.length ≤ limits.tombstones ∧
    (dropped ≠ [] → registry.deletionOrder.length = limits.tombstones)

/-- Ledgers only grow, and a handle keeps its ledger. -/
structure Extends (before after : Registry κ β π) : Prop where
  allocated : before.allocated ≤ after.allocated
  ledgers : ∀ id ledger, before.ledgers.find id = some ledger →
    ∃ later, after.ledgers.find id = some later ∧ ledger.Grows later
  capabilities : ∀ handle id, handle < before.allocated →
    after.capabilities.find handle = some id → before.capabilities.find handle = some id

structure Keeps (limits : Limits) (before after : Registry κ β π) : Prop where
  sound : after.Sound limits
  extension : Extends before after

variable {limits : Limits} {registry : Registry κ β π} {id handle : ℕ} {ledger : Ledger κ β π}

theorem Keeps.refl (hsound : registry.Sound limits) : Keeps limits registry registry :=
  ⟨hsound, le_rfl, fun _ ledger hfind => ⟨ledger, hfind, .refl _⟩, fun _ _ _ hfind => hfind⟩

theorem Keeps.trans {first second third : Registry κ β π} (hfirst : Keeps limits first second)
    (hsecond : Keeps limits second third) : Keeps limits first third := by
  obtain ⟨-, hallocated, hledgers, hcapabilities⟩ := hfirst
  refine ⟨hsecond.sound, hallocated.trans hsecond.extension.allocated, ?_, ?_⟩
  · intro id _ hfind
    obtain ⟨_, hmiddle, hgrows⟩ := hledgers id _ hfind
    obtain ⟨last, hlast, hgrowsLast⟩ := hsecond.extension.ledgers id _ hmiddle
    exact ⟨last, hlast, hgrows.trans hgrowsLast⟩
  · intro handle id hold hfind
    exact hcapabilities handle id hold
      (hsecond.extension.capabilities handle id (hold.trans_le hallocated) hfind)

/-- A tombstone does not look at the registered ledgers. -/
theorem rememberDeletion_live (registry : Registry κ β π) (live : Table κ ℕ) (key : κ) :
    { registry with live }.rememberDeletion limits key =
      { registry.rememberDeletion limits key with live } := by
  unfold rememberDeletion
  by_cases hknown : key ∈ registry.deletionOrder
  · rw [if_pos hknown, if_pos hknown]
  · rw [if_neg hknown, if_neg hknown]

section Kept

variable (hsound : registry.Sound limits)
include hsound

/-- Writing back a ledger that has grown. -/
theorem setLedger_sound {written : Ledger κ β π}
    (hfind : registry.ledgers.find id = some ledger) (hwritten : written.Sound)
    (hgrows : ledger.Grows written) :
    Keeps limits registry (registry.setLedger id written) := by
  have hfound : ∀ other, (registry.setLedger id written).ledgers.find other =
      if other = id then some written else registry.ledgers.find other :=
    fun other => Table.find_insert _ _ _ _
  refine ⟨⟨?_, ?_, ?_, hsound.bounded, hsound.queue⟩, le_rfl, ?_, fun _ _ _ h => h⟩
  · intro key other hlive
    obtain ⟨found, hother, hsame⟩ := hsound.live _ _ hlive
    rw [hfound]
    split_ifs with hid
    · subst hid
      cases hfind.symm.trans hother
      exact ⟨written, rfl, hgrows.key.trans hsame⟩
    · exact ⟨found, hother, hsame⟩
  · intro other found hother
    rw [hfound] at hother
    split_ifs at hother with hid
    · cases hother
      subst hid
      obtain ⟨-, hallocated, hplace⟩ := hsound.ledgers _ _ hfind
      refine ⟨hwritten, hallocated, ?_⟩
      rw [hgrows.key]
      exact hplace.imp_right (And.imp_left hgrows.revoked)
    · exact hsound.ledgers _ _ hother
  · intro handle other hhandle
    obtain ⟨hallocated, hledger⟩ := hsound.capabilities handle _ hhandle
    refine ⟨hallocated, ?_⟩
    rw [hfound]
    split_ifs
    · rfl
    · exact hledger
  · intro other found hother
    rw [hfound]
    split_ifs with hid
    · subst hid
      cases hfind.symm.trans hother
      exact ⟨written, rfl, hgrows⟩
    · exact ⟨found, hother, .refl _⟩

theorem rememberDeletion_sound (key : κ) :
    Keeps limits registry (registry.rememberDeletion limits key) := by
  unfold rememberDeletion
  by_cases hknown : key ∈ registry.deletionOrder
  · rw [if_pos hknown]
    exact .refl hsound
  · rw [if_neg hknown]
    obtain ⟨dropped, hsplit, hnodup, hlength, hfull⟩ := hsound.queue
    refine ⟨⟨hsound.live, ?_, hsound.capabilities, hsound.bounded, ?_⟩,
      { (Keeps.refl hsound).extension with }⟩
    · intro id _ hfind
      obtain ⟨hledger, hallocated, hplace⟩ := hsound.ledgers id _ hfind
      exact ⟨hledger, hallocated, hplace.imp_right (And.imp_right (mem_append_left _))⟩
    · dsimp only
      generalize registry.deletionOrder = order at hknown hsplit hnodup hlength hfull
      by_cases hlimit : limits.tombstones = 0
      · rw [if_pos hlimit]
        exact ⟨registry.tombstones ++ [key], by simp, by simp, Nat.zero_le _, fun _ => hlimit.symm⟩
      · rw [if_neg hlimit]
        by_cases hlast : order.length = limits.tombstones
        · rw [if_pos hlast]
          obtain ⟨oldest, rest, rfl⟩ := exists_cons_of_length_pos (l := order) (by omega)
          rw [nodup_cons] at hnodup
          refine ⟨dropped ++ [oldest], by simp [hsplit], ?_, ?_, fun _ => ?_⟩
          · have hrest : key ∉ rest := fun hmem => hknown (mem_cons_of_mem _ hmem)
            simpa using List.Nodup.concat hrest hnodup.2
          all_goals
            simp only [tail_cons, length_append] at hlast ⊢
            omega
        · rw [if_neg hlast]
          have hnone : dropped = [] := not_not.mp fun hsome => hlast (hfull hsome)
          refine ⟨[], by simp [hsplit, hnone], ?_, ?_, by simp⟩
          · simpa using List.Nodup.concat hknown hnodup
          · simp only [length_append, length_singleton]
            omega

theorem mem_tombstones_rememberDeletion (key : κ) :
    key ∈ (registry.rememberDeletion limits key).tombstones := by
  unfold rememberDeletion
  by_cases hknown : key ∈ registry.deletionOrder
  · rw [if_pos hknown]
    obtain ⟨_, hsplit, -⟩ := hsound.queue
    rw [hsplit]
    exact mem_append_right _ hknown
  · rw [if_neg hknown]
    simp

/-- A revoked ledger with a tombstone may leave the registry. -/
theorem unregister_sound (hfind : registry.ledgers.find id = some ledger)
    (hrevoked : ledger.revoked = true) (hlive : registry.live.find ledger.key = some id)
    (htombstone : ledger.key ∈ registry.tombstones) :
    Sound limits { registry with live := registry.live.erase ledger.key } where
  live key other hother := by
    have hkey : key ≠ ledger.key := by
      rintro rfl
      simp at hother
    exact hsound.live _ _ (by simpa [hkey] using hother)
  ledgers other found hother := by
    obtain ⟨hledger, hallocated, hplace⟩ := hsound.ledgers _ _ hother
    refine ⟨hledger, hallocated, ?_⟩
    by_cases hkey : found.key = ledger.key
    · right
      refine ⟨?_, hkey ▸ htombstone⟩
      rcases hplace with hregistered | ⟨hdead, -⟩
      · rw [hkey, hlive] at hregistered
        cases hregistered
        cases hfind.symm.trans hother
        exact hrevoked
      · exact hdead
    · exact hplace.imp_left fun hregistered => by simpa [hkey] using hregistered
  capabilities := hsound.capabilities
  bounded := Finset.card_erase_le.trans hsound.bounded
  queue := hsound.queue

theorem lookup_sound (key : κ) (binding : β) :
    Keeps limits registry (registry.lookup limits key binding).2 := by
  unfold lookup
  cases hlive : registry.live.find key with
  | some => exact .refl hsound
  | none =>
    split_ifs with hdeleted hfull
    · exact .refl hsound
    · exact .refl hsound
    · have hnew : ∀ id ledger, registry.ledgers.find id = some ledger →
          id ≠ registry.allocated := fun id ledger hfind =>
        (hsound.ledgers id _ hfind).2.1.ne
      refine ⟨⟨?_, ?_, ?_, ?_, hsound.queue⟩, Nat.le_succ _, ?_, fun _ _ _ hfind => hfind⟩
      · intro other id hother
        by_cases hsame : other = key
        · subst hsame
          obtain rfl : registry.allocated = id := by simpa using hother
          exact ⟨.new other binding, by simp, rfl⟩
        · obtain ⟨ledger, hfind, hkey⟩ := hsound.live _ id (by simpa [hsame] using hother)
          exact ⟨ledger, by simpa [hnew id _ hfind] using hfind, hkey⟩
      · intro id ledger hfind
        by_cases hid : id = registry.allocated
        · subst hid
          obtain rfl : Ledger.new key binding = ledger := by simpa using hfind
          exact ⟨Ledger.new_sound _ _, Nat.lt_succ_self _, .inl (by simp [Ledger.new])⟩
        · obtain ⟨hledger, hallocated, hplace⟩ :=
            hsound.ledgers id _ (by simpa [hid] using hfind)
          refine ⟨hledger, Nat.lt_succ_of_lt hallocated, hplace.imp_left fun hregistered => ?_⟩
          have hother : ledger.key ≠ key := by
            intro hsame
            rw [hsame, hlive] at hregistered
            cases hregistered
          simpa [hother] using hregistered
      · intro handle id hfind
        obtain ⟨hallocated, hledger⟩ := hsound.capabilities handle id hfind
        refine ⟨Nat.lt_succ_of_lt hallocated, ?_⟩
        rw [Table.find_insert]
        split_ifs
        · rfl
        · exact hledger
      · exact (Finset.card_insert_le _ _).trans (not_le.mp hfull)
      · intro id ledger hfind
        exact ⟨ledger, by simpa [hnew id _ hfind] using hfind, .refl _⟩

theorem withLedger_sound (handle : ℕ)
    (call : Ledger κ β π → Except CanonicalError π × Ledger κ β π)
    (hcall : ∀ ledger : Ledger κ β π, ledger.Sound →
      (call ledger).2.Sound ∧ ledger.Grows (call ledger).2) :
    Keeps limits registry (registry.withLedger handle call).2 := by
  unfold withLedger
  cases registry.capabilities.find handle with
  | none => exact .refl hsound
  | some id =>
    dsimp only
    cases hfind : registry.ledgers.find id with
    | none => exact .refl hsound
    | some =>
      obtain ⟨hafter, hgrows⟩ := hcall _ (hsound.ledgers id _ hfind).1
      exact setLedger_sound hsound hfind hafter hgrows

theorem abandon_sound (handle : ℕ) : Keeps limits registry (registry.abandon handle) := by
  have herased : ∀ other id, (registry.abandon handle).capabilities.find other = some id →
      registry.capabilities.find other = some id := by
    intro other id hfind
    have hother : other ≠ handle := by
      rintro rfl
      simp [abandon] at hfind
    simpa [abandon, hother] using hfind
  exact ⟨{ hsound with
      capabilities := fun other id hfind => hsound.capabilities _ id (herased _ id hfind) },
    le_rfl, fun _ ledger hfind => ⟨ledger, hfind, .refl _⟩,
    fun other id _ hfind => herased _ id hfind⟩

theorem finishRevocation_sound (id : ℕ) :
    Keeps limits registry (registry.finishRevocation limits id) := by
  unfold finishRevocation
  cases hfind : registry.ledgers.find id with
  | none => exact .refl hsound
  | some ledger =>
    dsimp only
    split_ifs with hregistered
    · obtain ⟨hrevoked, hlive⟩ := hregistered
      obtain ⟨hremembered, hextends⟩ := rememberDeletion_sound hsound ledger.key
      rw [rememberDeletion_live]
      have hsame : (registry.rememberDeletion limits ledger.key).ledgers =
          registry.ledgers ∧
          (registry.rememberDeletion limits ledger.key).live = registry.live := by
        unfold rememberDeletion
        split_ifs <;> exact ⟨rfl, rfl⟩
      have hunregistered := unregister_sound hremembered (hsame.1 ▸ hfind) hrevoked
        (hsame.2 ▸ hlive) (mem_tombstones_rememberDeletion hsound _)
      rw [hsame.2] at hunregistered
      exact ⟨hunregistered, { hextends with }⟩
    · exact .refl hsound

end Kept

/-- The capability `handle` is one of this ledger. -/
def Serves (registry : Registry κ β π) (handle id : ℕ) (ledger : Ledger κ β π) : Prop :=
  registry.capabilities.find handle = some id ∧ registry.ledgers.find id = some ledger

/-- The capability `handle` was obtained for `key`. -/
def Holds (registry : Registry κ β π) (handle : ℕ) (key : κ) : Prop :=
  ∃ id ledger, registry.Serves handle id ledger ∧ ledger.key = key

/-- The capability owns an unrevoked ledger, the requested Message ID is above its floor, and the
reply is recorded with its release. -/
def Answers (registry after : Registry κ β π) (handle : ℕ)
    (request : Except CanonicalError ℕ) (bytes : π) : Prop :=
  ∃ id ledger later messageId, registry.Serves handle id ledger ∧
    after.ledgers.find id = some later ∧ ledger.revoked = false ∧
    ledger.owner = some handle ∧ request = .ok messageId ∧ ledger.closed messageId = false ∧
    (messageId, bytes) ∈ later.replied ∧ messageId ∈ later.released

section Reply

variable {request : Except CanonicalError ℕ} {sealing other : Except CanonicalError π}
  {verified check : Except CanonicalError Unit}

end Reply

variable [DecidableEq β]

def step (limits : Limits) (registry : Registry κ β π) : Action κ β π → Registry κ β π
  | .lookup key binding => (registry.lookup limits key binding).2
  | .claim id binding => (registry.claim id binding).2
  | .reply handle request sealing verified => (registry.reply handle request sealing verified).2
  | .retireThrough handle messageId => registry.retireThrough handle messageId
  | .drop handle => registry.drop handle
  | .abandon handle => registry.abandon handle
  | .revokeAbsent key => registry.revokeAbsent limits key
  | .revokeLedger id permanent => registry.revokeLedger id permanent
  | .finishRevocation id => registry.finishRevocation limits id

theorem claim_sound (hsound : registry.Sound limits) (id : ℕ) (binding : β) :
    Keeps limits registry (registry.claim id binding).2 := by
  unfold claim
  cases hfind : registry.ledgers.find id with
  | none => exact .refl hsound
  | some ledger =>
    have hledger := (hsound.ledgers id _ hfind).1
    dsimp only
    split_ifs
    · exact setLedger_sound hsound hfind (Ledger.revoke_sound hledger _) (Ledger.grows_revoke _)
    · exact .refl hsound
    · exact .refl hsound
    · have howned : ({ ledger with owner := some registry.allocated } : Ledger κ β π).Sound :=
        ⟨hledger.sealed, hledger.released, hledger.replied, fun hrevoked messageId hopen =>
          let hspent := hledger.opened hrevoked _ hopen
          { hspent with }⟩
      obtain ⟨hset, hextends⟩ := setLedger_sound hsound hfind howned (Ledger.grows_owner _)
      refine ⟨⟨hset.live, ?_, ?_, hset.bounded, hset.queue⟩, Nat.le_succ _, hextends.ledgers, ?_⟩
      · intro other _ hother
        obtain ⟨hfound, hallocated, hplace⟩ := hset.ledgers _ _ hother
        exact ⟨hfound, Nat.lt_succ_of_lt hallocated, hplace⟩
      · intro handle other hhandle
        by_cases hnew : handle = registry.allocated
        · subst hnew
          obtain rfl : id = other := by simpa using hhandle
          exact ⟨Nat.lt_succ_self _, by simp [setLedger]⟩
        · obtain ⟨hallocated, hother⟩ :=
            hset.capabilities handle _ (by simpa [setLedger, hnew] using hhandle)
          exact ⟨Nat.lt_succ_of_lt hallocated, hother⟩
      · intro handle other hold hhandle
        simpa [hold.ne] using hhandle

theorem step_sound (hsound : registry.Sound limits) (action : Action κ β π) :
    Keeps limits registry (step limits registry action) := by
  cases action with
  | lookup => exact lookup_sound hsound _ _
  | claim id => exact claim_sound hsound id _
  | reply handle =>
    exact withLedger_sound hsound handle _ fun ledger hledger =>
      ⟨(Ledger.reply_spec hledger handle _ _ _).1, ledger.grows_reply handle _ _ _⟩
  | retireThrough handle =>
    refine withLedger_sound hsound handle _ fun ledger hledger => ?_
    cases ledger.checkInstance handle with
    | error => exact ⟨hledger, .refl _⟩
    | ok => exact ⟨Ledger.retireThrough_sound hledger _, Ledger.grows_retireThrough _⟩
  | drop handle =>
    have hledger := withLedger_sound hsound handle (fun ledger : Ledger κ β π =>
      (.error .invalidated, if ledger.owner = some handle then ledger.revoke false else ledger)) ?_
    · exact hledger.trans (abandon_sound hledger.sound handle)
    · intro ledger hsoundLedger
      dsimp only
      split_ifs
      · exact ⟨Ledger.revoke_sound hsoundLedger _, Ledger.grows_revoke _⟩
      · exact ⟨hsoundLedger, .refl _⟩
  | abandon handle => exact abandon_sound hsound handle
  | revokeAbsent key =>
    simp only [step, revokeAbsent]
    split
    · exact .refl hsound
    · exact rememberDeletion_sound hsound _
  | revokeLedger id =>
    simp only [step, revokeLedger]
    split
    · exact .refl hsound
    · next hfind =>
      exact setLedger_sound hsound hfind
        (Ledger.revoke_sound (hsound.ledgers id _ hfind).1 _) (Ledger.grows_revoke _)
  | finishRevocation id => exact finishRevocation_sound hsound id

/-- Actions one after the other. -/
def run (limits : Limits) (registry : Registry κ β π)
    (actions : List (Action κ β π)) : Registry κ β π :=
  actions.foldl (step limits) registry

theorem run_sound (hsound : registry.Sound limits)
    (actions : List (Action κ β π)) :
    Keeps limits registry (run limits registry actions) := by
  induction actions generalizing registry with
  | nil => exact .refl hsound
  | cons action _ ih =>
    have hnext := step_sound hsound action
    exact hnext.trans (ih hnext.sound)

end Registry

end PacketCore.Ikev2
