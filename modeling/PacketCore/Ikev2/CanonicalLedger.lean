import PacketCore.Library.Loop
import PacketCore.Library.Tally

/-!
# The ledger of canonical empty replies

One ledger belongs to one sending key.  It charges an attempt before it enters
the sealing module, keeps the first verified packet of a Message ID, and closes
Message IDs through a floor.  `sealed`, `released` and `replied` record what the
ledger has done over its whole life.
-/

namespace PacketCore.Ikev2

open List

inductive CanonicalError
  | notCommitted
  | formatUnavailable
  | integrationReviewRequired
  | lifecycleBlocked
  | bindingMismatch
  | invalidRequest
  | invalidated
  | capabilityActive
  | alreadyReleased
  | attemptsExhausted
  | validationOptInRequired
  | qualificationFailed
  | unavailable
  | registryFull
  | invalidOutput
deriving DecidableEq

structure CanonicalEntry (π : Type) where
  attempts : ℕ
  released : Bool
  bytes : Option π

/-- The owner is the allocation of the one capability that may reply. -/
structure Ledger (κ β π : Type) where
  key : κ
  binding : β
  closedThrough : Option ℕ
  entries : Table ℕ (CanonicalEntry π)
  owner : Option ℕ
  revoked : Bool
  sealed : List ℕ
  released : List ℕ
  replied : List (ℕ × π)

namespace Ledger

variable {κ β π : Type}

def new (key : κ) (binding : β) : Ledger κ β π :=
  ⟨key, binding, none, .empty, none, false, [], [], []⟩

variable (ledger : Ledger κ β π)

def checkInstance (handle : ℕ) : Except CanonicalError Unit :=
  if ledger.revoked ∨ ledger.owner ≠ some handle then .error .invalidated else .ok ()

def closed (messageId : ℕ) : Bool := ledger.closedThrough.any (messageId ≤ ·)

/-- At the largest Message ID every entry goes. -/
def retireThrough (messageId : ℕ) : Ledger κ β π :=
  let floor := ledger.closedThrough.elim messageId (max · messageId)
  { ledger with
    closedThrough := some floor
    entries := ledger.entries.filter fun id _ => floor < id }

/-- Reconciliation drops the cached bytes and keeps the history; lost trust drops all. -/
def revoke (bindingUntrusted : Bool) : Ledger κ β π :=
  let revoked := ledger.revoked || bindingUntrusted
  { ledger with
    revoked
    owner := none
    entries := if revoked then .empty
      else ledger.entries.mapValues fun entry => { entry with bytes := none } }

def entryAt (messageId : ℕ) : CanonicalEntry π :=
  (ledger.entries.find messageId).getD ⟨0, false, none⟩

def charge (messageId : ℕ) : Ledger κ β π :=
  let entry := ledger.entryAt messageId
  { ledger with
    entries := ledger.entries.insert messageId { entry with attempts := entry.attempts + 1 }
    sealed := ledger.sealed ++ [messageId] }

def release (messageId : ℕ) (bytes : Option π) : Ledger κ β π :=
  let entry := ledger.entryAt messageId
  { ledger with
    entries := ledger.entries.insert messageId { entry with released := true, bytes }
    released := ledger.released ++ [messageId] }

def answer (messageId : ℕ) (bytes : π) : Ledger κ β π :=
  { ledger with replied := ledger.replied ++ [(messageId, bytes)] }

/-- `request` is the Message ID of an admitted request or why it was refused, `sealing` is what
the module returns, and `verified` is the check of its output. -/
def reply (handle : ℕ) (request : Except CanonicalError ℕ) (sealing : Except CanonicalError π)
    (verified : Except CanonicalError Unit) : Except CanonicalError π × Ledger κ β π :=
  match ledger.checkInstance handle, request with
  | .error error, _ | .ok _, .error error => (.error error, ledger)
  | .ok _, .ok messageId =>
    if ledger.closed messageId then (.error .alreadyReleased, ledger)
    else
      match (ledger.entryAt messageId).bytes with
      | some bytes => (.ok bytes, ledger.answer messageId bytes)
      | none =>
        if (ledger.entryAt messageId).released then (.error .alreadyReleased, ledger)
        else if 3 ≤ (ledger.entryAt messageId).attempts then (.error .attemptsExhausted, ledger)
        else
          match sealing, verified with
          | .error error, _ => (.error error, ledger.charge messageId)
          | .ok _, .error error => (.error error, (ledger.charge messageId).release messageId none)
          | .ok packet, .ok _ =>
            (.ok packet,
              ((ledger.charge messageId).release messageId (some packet)).answer messageId packet)

/-- What an open Message ID has spent, and that its cached bytes are what was sent. -/
structure Spent (messageId : ℕ) (entry : CanonicalEntry π) : Prop where
  attempts : ledger.sealed.count messageId = entry.attempts
  released : ledger.released.count messageId = if entry.released then 1 else 0
  cached : ∀ bytes, entry.bytes = some bytes → entry.released = true
  replied : ∀ bytes, (messageId, bytes) ∈ ledger.replied →
    entry.released = true ∧ ∀ other, entry.bytes = some other → other = bytes

structure Sound : Prop where
  sealed : ∀ messageId, ledger.sealed.count messageId ≤ 3
  released : ∀ messageId, ledger.released.count messageId ≤ 1
  replied : ∀ messageId left right, (messageId, left) ∈ ledger.replied →
    (messageId, right) ∈ ledger.replied → left = right
  opened : ledger.revoked = false → ∀ messageId, ledger.closed messageId = false →
    ledger.Spent messageId (ledger.entryAt messageId)

/-- What a later ledger of the same allocation keeps: its key, its revocation, the
Message IDs that are closed, and the records of what was done. -/
structure Grows (later : Ledger κ β π) : Prop where
  key : later.key = ledger.key
  revoked : ledger.revoked = true → later.revoked = true
  closed : ∀ messageId, ledger.closed messageId = true → later.closed messageId = true
  sealed : ledger.sealed <+: later.sealed
  released : ledger.released <+: later.released
  replied : ledger.replied <+: later.replied

theorem Grows.refl : ledger.Grows ledger :=
  ⟨rfl, id, fun _ => id, prefix_rfl, prefix_rfl, prefix_rfl⟩

theorem new_sound (key : κ) (binding : β) : (new key binding : Ledger κ β π).Sound where
  sealed := by simp [new]
  released := by simp [new]
  replied := by simp [new]
  opened _ _ _ := ⟨rfl, rfl, by rintro _ ⟨⟩, by rintro _ ⟨⟩⟩

variable {ledger}

theorem Grows.trans {later last : Ledger κ β π} (hfirst : ledger.Grows later)
    (hsecond : later.Grows last) : ledger.Grows last :=
  ⟨hsecond.key.trans hfirst.key, hsecond.revoked ∘ hfirst.revoked,
    fun _ hclosed => hsecond.closed _ (hfirst.closed _ hclosed),
    hfirst.sealed.trans hsecond.sealed, hfirst.released.trans hsecond.released,
    hfirst.replied.trans hsecond.replied⟩

theorem grows_retireThrough (messageId : ℕ) : ledger.Grows (ledger.retireThrough messageId) where
  key := rfl
  revoked := id
  closed other hclosed := by
    obtain ⟨floor, hfloor, hle⟩ := (Option.any_eq_true _ _).mp hclosed
    have hmax : other ≤ max floor messageId := le_max_of_le_left (of_decide_eq_true hle)
    simpa [closed, retireThrough, hfloor] using hmax
  sealed := prefix_rfl
  released := prefix_rfl
  replied := prefix_rfl

theorem grows_owner (owner : Option ℕ) : ledger.Grows { ledger with owner } :=
  ⟨rfl, id, fun _ => id, prefix_rfl, prefix_rfl, prefix_rfl⟩

theorem grows_revoke (bindingUntrusted : Bool) : ledger.Grows (ledger.revoke bindingUntrusted) :=
  ⟨rfl, fun hrevoked => by simp [revoke, hrevoked], fun _ => id, prefix_rfl,
    prefix_rfl, prefix_rfl⟩

theorem entryAt_insert (messageId other : ℕ) (entry : CanonicalEntry π) :
    ((ledger.entries.insert messageId entry).find other).getD ⟨0, false, none⟩ =
      if other = messageId then entry else ledger.entryAt other := by
  rw [Table.find_insert]
  split <;> rfl

theorem retireThrough_sound (hsound : ledger.Sound) (messageId : ℕ) :
    (ledger.retireThrough messageId).Sound := by
  refine { hsound with opened := fun hrevoked other hopen => ?_ }
  have hfloor : ledger.closedThrough.elim messageId (max · messageId) < other := by
    simpa [closed, retireThrough] using hopen
  have hbefore : ledger.closed other = false := by
    cases hclosed : ledger.closedThrough with
    | none => simp [closed, hclosed]
    | some =>
      rw [hclosed] at hfloor
      simpa [closed, hclosed] using (le_max_left _ _).trans_lt hfloor
  have hentry : (ledger.retireThrough messageId).entryAt other = ledger.entryAt other := by
    unfold entryAt retireThrough
    rw [Table.find_filter]
    cases ledger.entries.find other <;> simp [Option.filter, hfloor]
  obtain ⟨hattempts, hreleased, hcached, hreplied⟩ := hsound.opened hrevoked _ hbefore
  rw [hentry]
  exact ⟨hattempts, hreleased, hcached, hreplied⟩

theorem revoke_sound (hsound : ledger.Sound) (bindingUntrusted : Bool) :
    (ledger.revoke bindingUntrusted).Sound := by
  refine { hsound with opened := fun hrevoked other hopen => ?_ }
  have hflags : (ledger.revoked || bindingUntrusted) = false := hrevoked
  have hspent := hsound.opened (Bool.or_eq_false_iff.mp hflags).1 _ hopen
  have hentry : (ledger.revoke bindingUntrusted).entryAt other =
      { ledger.entryAt other with bytes := none } := by
    simp only [entryAt, revoke, hflags, Bool.false_eq_true, if_false, Table.find_mapValues]
    cases ledger.entries.find other <;> rfl
  rw [hentry]
  exact ⟨hspent.attempts, hspent.released, by rintro _ ⟨⟩,
    fun bytes hbytes => ⟨(hspent.replied _ hbytes).1, by rintro _ ⟨⟩⟩⟩

section Replies

variable {messageId : ℕ}

/-- An attempt within the budget. -/
theorem charge_sound (hsound : ledger.Sound) (hrevoked : ledger.revoked = false)
    (hopen : ledger.closed messageId = false)
    (hbudget : (ledger.entryAt messageId).attempts < 3) : (ledger.charge messageId).Sound where
  sealed other := by
    rw [charge, count_append, count_singleton]
    by_cases hother : messageId = other
    · subst hother
      have hattempts := (hsound.opened hrevoked _ hopen).attempts
      simp only [beq_self_eq_true, if_true]
      omega
    · simpa [hother] using hsound.sealed _
  released := hsound.released
  replied := hsound.replied
  opened _ other hother := by
    obtain ⟨hattempts, hreleased, hcached, hreplied⟩ := hsound.opened hrevoked _ hother
    have hentry : (ledger.charge messageId).entryAt other = if other = messageId then
        { ledger.entryAt messageId with attempts := (ledger.entryAt messageId).attempts + 1 }
        else ledger.entryAt other := entryAt_insert _ _ _
    rw [hentry]
    by_cases hsame : other = messageId
    · subst hsame
      rw [if_pos rfl]
      exact ⟨by simp [charge, hattempts], hreleased, hcached, hreplied⟩
    · rw [if_neg hsame]
      exact ⟨by simp [charge, hattempts, Ne.symm hsame], hreleased, hcached, hreplied⟩

theorem release_sound (hsound : ledger.Sound) (hrevoked : ledger.revoked = false)
    (hopen : ledger.closed messageId = false)
    (hunreleased : (ledger.entryAt messageId).released = false)
    (bytes : Option π) : (ledger.release messageId bytes).Sound where
  sealed := hsound.sealed
  released other := by
    rw [release, count_append]
    by_cases hother : messageId = other
    · subst hother
      have hnone := (hsound.opened hrevoked _ hopen).released
      rw [hunreleased] at hnone
      simp [hnone]
    · simpa [hother] using hsound.released _
  replied := hsound.replied
  opened _ other hother := by
    obtain ⟨hattempts, hreleased, hcached, hreplied⟩ := hsound.opened hrevoked _ hother
    have hentry : (ledger.release messageId bytes).entryAt other = if other = messageId then
        { ledger.entryAt messageId with released := true, bytes }
        else ledger.entryAt other := entryAt_insert _ _ _
    rw [hentry]
    by_cases hsame : other = messageId
    · subst hsame
      rw [if_pos rfl]
      rw [hunreleased] at hreleased hreplied
      refine ⟨hattempts, by simp [release, hreleased], fun _ _ => rfl, ?_⟩
      intro _ hsent
      cases (hreplied _ hsent).1
    · rw [if_neg hsame]
      exact ⟨hattempts, by simp [release, hreleased, Ne.symm hsame], hcached, hreplied⟩

/-- Only the cached bytes are handed out. -/
theorem answer_sound (hsound : ledger.Sound) (hrevoked : ledger.revoked = false)
    (hopen : ledger.closed messageId = false) {bytes : π}
    (hbytes : (ledger.entryAt messageId).bytes = some bytes) :
    (ledger.answer messageId bytes).Sound := by
  have hspent := hsound.opened hrevoked _ hopen
  have hmem : ∀ other sent, (other, sent) ∈ (ledger.answer messageId bytes).replied →
      (other, sent) ∈ ledger.replied ∨ (other = messageId ∧ sent = bytes) := by
    simp [answer]
  refine ⟨hsound.sealed, hsound.released, ?_, ?_⟩
  · intro other _ _ hleft hright
    rcases hmem _ _ hleft with holdLeft | ⟨hsame, rfl⟩ <;>
      rcases hmem _ _ hright with holdRight | ⟨hsameRight, hvalue⟩
    · exact hsound.replied _ _ _ holdLeft holdRight
    · subst hsameRight
      exact ((hspent.replied _ holdLeft).2 _ (hvalue ▸ hbytes)).symm
    · subst hsame
      exact (hspent.replied _ holdRight).2 _ hbytes
    · exact hvalue.symm
  · intro _ other hother
    obtain ⟨hattempts, hreleased, hcached, hreplied⟩ := hsound.opened hrevoked _ hother
    refine ⟨hattempts, hreleased, hcached, ?_⟩
    intro sent hsent
    rcases hmem _ _ hsent with hsent | ⟨rfl, rfl⟩
    · exact hreplied _ hsent
    · exact ⟨hcached _ hbytes, fun found hfound => Option.some.inj (hfound.symm.trans hbytes)⟩

theorem grows_reply (ledger : Ledger κ β π) (handle : ℕ) (request : Except CanonicalError ℕ)
    (sealing : Except CanonicalError π) (verified : Except CanonicalError Unit) :
    ledger.Grows (ledger.reply handle request sealing verified).2 := by
  -- no branch writes the key, the revocation or the floor
  unfold reply
  repeat' split
  all_goals exact ⟨rfl, id, fun _ => id, by simp [charge, release, answer],
    by simp [charge, release, answer], by simp [charge, release, answer]⟩

/-- A reply keeps the ledger sound; one that is produced comes from the owner of an unrevoked
ledger, for a Message ID above the floor, and is recorded with its release. -/
theorem reply_spec (hsound : ledger.Sound) (handle : ℕ) (request : Except CanonicalError ℕ)
    (sealing : Except CanonicalError π) (verified : Except CanonicalError Unit) :
    let next := ledger.reply handle request sealing verified
    next.2.Sound ∧ ∀ bytes, next.1 = .ok bytes →
      ledger.revoked = false ∧ ledger.owner = some handle ∧
        ∃ messageId, request = .ok messageId ∧ ledger.closed messageId = false ∧
          (messageId, bytes) ∈ next.2.replied ∧ messageId ∈ next.2.released := by
  dsimp only
  unfold reply checkInstance
  split_ifs with hdead
  · exact ⟨hsound, by rintro _ ⟨⟩⟩
  · rw [not_or, Bool.not_eq_true, not_not] at hdead
    cases request with
    | error => exact ⟨hsound, by rintro _ ⟨⟩⟩
    | ok messageId =>
      dsimp only
      cases hopen : ledger.closed messageId with
      | true => exact ⟨hsound, by rintro _ ⟨⟩⟩
      | false =>
        rw [if_neg Bool.false_ne_true]
        cases hbytes : (ledger.entryAt messageId).bytes with
        | some =>
          refine ⟨answer_sound hsound hdead.1 hopen hbytes, ?_⟩
          rintro _ ⟨⟩
          have hspent := hsound.opened hdead.1 _ hopen
          have hcount : ledger.released.count messageId = 1 := by
            rw [hspent.released, hspent.cached _ hbytes, if_pos rfl]
          have hmem : messageId ∈ ledger.released := count_pos_iff.mp (hcount ▸ Nat.one_pos)
          exact ⟨hdead.1, hdead.2, messageId, rfl, hopen, by simp [answer], hmem⟩
        | none =>
          split_ifs with hreleased hspent
          · exact ⟨hsound, by rintro _ ⟨⟩⟩
          · exact ⟨hsound, by rintro _ ⟨⟩⟩
          · have hcharged := charge_sound hsound hdead.1 hopen (not_le.mp hspent)
            have hsame : (ledger.charge messageId).entryAt messageId =
                { ledger.entryAt messageId with
                  attempts := (ledger.entryAt messageId).attempts + 1 } :=
              (entryAt_insert _ _ _).trans (if_pos rfl)
            have hrelease := fun bytes => release_sound hcharged hdead.1 hopen
              (by rw [hsame]; exact Bool.not_eq_true _ ▸ hreleased) bytes
            cases sealing with
            | error => exact ⟨hcharged, by rintro _ ⟨⟩⟩
            | ok =>
              cases verified with
              | error => exact ⟨hrelease _, by rintro _ ⟨⟩⟩
              | ok =>
                refine ⟨answer_sound (hrelease _) hdead.1 hopen ?_, ?_⟩
                · exact congrArg _ ((entryAt_insert _ _ _).trans (if_pos rfl))
                · rintro _ ⟨⟩
                  exact ⟨hdead.1, hdead.2, messageId, rfl, hopen,
                    by simp [answer], by simp [answer, release]⟩

end Replies

end Ledger

end PacketCore.Ikev2
