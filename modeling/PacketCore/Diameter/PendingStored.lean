import PacketCore.Diameter.PendingRoundTrip

/-!
# Records stay restorable

Every operation keeps the pending records of a table such that a snapshot of
them restores, as long as the readings it stamps on an attempt are not before
the readings the attempt already has.  A restored attempt carries readings of
an earlier clock, so this does not follow from one clock being monotonic.
-/

namespace PacketCore.Diameter

open AttemptDisposition List

section Attempts

/-- The readings of an attempt agree with its disposition and are in order. -/
theorem not_incoherent_iff {attempt : AttemptEvidence} :
    ¬ attempt.incoherent ↔
      attempt.endedAt.isNone = attempt.disposition.isLive ∧
        (attempt.disposition.isWritten = true → attempt.writtenAt ≠ none) ∧
        (attempt.disposition.isUnwritten = true → attempt.writtenAt = none) ∧
        (∀ written ∈ attempt.writtenAt, attempt.startedAt ≤ written) ∧
        (∀ ended ∈ attempt.endedAt, attempt.startedAt ≤ ended) ∧
        ∀ written ∈ attempt.writtenAt, ∀ ended ∈ attempt.endedAt, written ≤ ended := by
  unfold AttemptEvidence.incoherent
  simp only [not_or, not_exists, not_and, not_lt, not_not,
    Option.isNone_iff_eq_none, Option.not_isSome_iff_eq_none]

namespace AttemptEvidence

variable {attempt : AttemptEvidence} {now : ℕ}

theorem storable_prepare (attemptIndex : ℕ) (connection : ConnectionToken)
    (hopByHopIdentifier : Word 4) (retransmission : Bool) (now : ℕ) :
    (prepare attemptIndex connection hopByHopIdentifier retransmission now).Storable where
  unanswered := by simp [prepare]
  coherent := by
    rw [not_incoherent_iff]
    simp [prepare, isLive, isWritten]
  written := by simp [prepare]
  ended := by simp [prepare]

/-- An attempt that was prepared has no write time and no end. -/
theorem Storable.of_unsent (hstorable : attempt.Storable)
    (hprepared : attempt.disposition = .prepared ∨ attempt.disposition = .inFlight) :
    attempt.writtenAt = none ∧ attempt.endedAt = none := by
  obtain ⟨_, _, _, _⟩ := not_incoherent_iff.mp hstorable.coherent
  rcases hprepared with hdisposition | hdisposition <;>
    simp_all [isLive, isUnwritten]

theorem Storable.dispatch (hstorable : attempt.Storable)
    (hprepared : attempt.disposition = .prepared) : attempt.dispatch.Storable := by
  obtain ⟨hwritten, hended⟩ := hstorable.of_unsent (.inl hprepared)
  refine ⟨by simp [AttemptEvidence.dispatch], ?_, hstorable.written, hstorable.ended⟩
  rw [not_incoherent_iff]
  simp [AttemptEvidence.dispatch, hwritten, hended, isLive, isWritten]

section

variable (hstorable : attempt.Storable) (hstarted : attempt.startedAt ≤ now)
  (hnow : now / 1000 < 2 ^ 64 - 1)
include hstorable hstarted hnow

theorem Storable.abandon (hprepared : attempt.disposition = .prepared) :
    (attempt.abandon now).Storable := by
  obtain ⟨hwritten, _⟩ := hstorable.of_unsent (.inl hprepared)
  refine ⟨by simp [AttemptEvidence.abandon], ?_, hstorable.written, ?_⟩
  · rw [not_incoherent_iff]
    simp [AttemptEvidence.abandon, hwritten, hstarted, isLive, isWritten]
  · intro _ hreading
    cases hreading
    exact hnow

theorem Storable.write (hflight : attempt.disposition = .inFlight) :
    (attempt.write now).Storable := by
  obtain ⟨_, hended⟩ := hstorable.of_unsent (.inr hflight)
  refine ⟨by simp [AttemptEvidence.write], ?_, ?_, hstorable.ended⟩
  · rw [not_incoherent_iff]
    simp [AttemptEvidence.write, hended, hstarted, isLive, isWritten, isUnwritten]
  · intro _ hreading
    cases hreading
    exact hnow

theorem Storable.fail {failure : AttemptFailure}
    (hcompatible : failure.compatible attempt.disposition = true)
    (hwritten : ∀ written ∈ attempt.writtenAt, written ≤ now) :
    (attempt.fail failure now).Storable := by
  have hcoherent := not_incoherent_iff.mp hstorable.coherent
  have hended : ∀ reading ∈ (attempt.fail failure now).endedAt, reading / 1000 < 2 ^ 64 - 1 := by
    intro reading hreading
    cases hreading
    exact hnow
  cases hdisposition : attempt.disposition with
  | prepared =>
    have hnone := (hstorable.of_unsent (.inl hdisposition)).1
    rw [hdisposition] at hcompatible
    obtain rfl : failure = .beforeWrite := by simpa [AttemptFailure.compatible] using hcompatible
    refine ⟨by simp [AttemptEvidence.fail, AttemptFailure.disposition], ?_, ?_, hended⟩
    · rw [not_incoherent_iff]
      simp [AttemptEvidence.fail, AttemptFailure.disposition, hnone, hstarted, isLive, isWritten]
    · simp [AttemptEvidence.fail, hnone]
  | inFlight =>
    have hnone := (hstorable.of_unsent (.inr hdisposition)).1
    refine ⟨by cases failure <;>
      simp [AttemptEvidence.fail, AttemptFailure.disposition], ?_, ?_, hended⟩
    · rw [not_incoherent_iff]
      cases failure <;>
        simp [AttemptEvidence.fail, AttemptFailure.disposition, hnone, hstarted,
          isLive, isWritten,
          isUnwritten]
    · intro reading hreading
      cases failure with
      | beforeWrite | uncertainWrite => simp [AttemptEvidence.fail, hnone] at hreading
      | transportLostAfterWrite =>
        obtain rfl : now = reading := by simpa [AttemptEvidence.fail, hnone] using hreading
        exact hnow
  | writtenAwaitingAnswer =>
    rw [hdisposition] at hcompatible hcoherent
    obtain rfl : failure = .transportLostAfterWrite := by
      simpa [AttemptFailure.compatible] using hcompatible
    obtain ⟨written, hwrite⟩ := Option.ne_none_iff_exists'.mp (hcoherent.2.1 rfl)
    have horder := hcoherent.2.2.2.1 _ hwrite
    have hlater := hwritten _ hwrite
    refine ⟨by simp [AttemptEvidence.fail, AttemptFailure.disposition], ?_, ?_, hended⟩
    · rw [not_incoherent_iff]
      simp [AttemptEvidence.fail, AttemptFailure.disposition, hwrite, hstarted,
        horder, hlater, isLive, isUnwritten]
    · intro reading hreading
      simp only [AttemptEvidence.fail] at hreading
      exact hstorable.written _ (hwrite ▸ hreading)
  | failedBeforeWrite | failedUncertainWrite | transportLostAfterWrite | answered =>
    simp [hdisposition, AttemptFailure.compatible] at hcompatible

end

theorem Storable.snapshot (revision : NonZero 8)
    (hstorable : attempt.Storable) : (attempt.snapshot revision).Storable :=
  { hstorable with }

theorem microsOf_mono {earlier later : ℕ} (horder : earlier ≤ later) :
    microsOf earlier ≤ microsOf later := by
  unfold microsOf
  omega

/-- A reading that is not mistaken for an absent one comes back in microseconds. -/
theorem stampRead_stampOf {reading : Option ℕ}
    (hbound : ∀ value ∈ reading, value / 1000 < 2 ^ 64 - 1) :
    stampRead (stampOf reading) = reading.map fun value => microsOf value * 1000 := by
  cases reading with
  | none => rfl
  | some value =>
    have hvalue : microsOf value ≠ microsSentinelNone := by
      have := hbound _ rfl
      unfold microsOf microsSentinelNone
      omega
    simp [stampOf, stampRead, hvalue]

/-- Cutting readings to microseconds keeps their order. -/
theorem Storable.restored (revision : NonZero 8) (attemptIndex : ℕ)
    (hstorable : attempt.Storable) : ¬ (attempt.restored revision attemptIndex).incoherent := by
  have hcoherent := not_incoherent_iff.mp hstorable.coherent
  rw [not_incoherent_iff]
  simp only [AttemptEvidence.restored, stampRead_stampOf hstorable.written,
    stampRead_stampOf hstorable.ended, Option.isNone_map, ne_eq, Option.map_eq_none_iff,
    Option.mem_map, forall_exists_index, and_imp, forall_apply_eq_imp_iff₂]
  refine ⟨hcoherent.1, hcoherent.2.1, hcoherent.2.2.1, ?_, ?_, ?_⟩
  · intro written hwritten
    exact Nat.mul_le_mul_right _ (microsOf_mono (hcoherent.2.2.2.1 _ hwritten))
  · intro ended hended
    exact Nat.mul_le_mul_right _ (microsOf_mono (hcoherent.2.2.2.2.1 _ hended))
  · intro written hwritten ended hended
    exact Nat.mul_le_mul_right _ (microsOf_mono (hcoherent.2.2.2.2.2 _ hwritten _ hended))

end AttemptEvidence

end Attempts

variable {edit : AttemptEvidence → AttemptEvidence} {facts : RequestFacts}

section Records

variable {config : PendingRequestTableConfig} {record : TransactionRecord}

theorem inspectRequest_eq_ok {request : OwnedMessage} {maxMessageLen : ℕ} :
    inspectRequest request maxMessageLen = .ok facts ↔
      request.header.version = 1 ∧ request.header.flags.isRequest = true ∧
        request.header.flags.isError = false ∧ request.header.flags.reservedBits = 0 ∧
        fitsWire request.header.commandCode = true ∧
        request.header.flags.isPotentiallyRetransmitted = false ∧
        lengthAgrees request maxMessageLen ∧
        ∃ fixedDestination, inspectAvps request.rawAvps = .ok fixedDestination ∧
          facts = {
            commandCode := request.header.commandCode
            applicationId := request.header.applicationId
            proxiable := request.header.flags.isProxiable
            endToEndIdentifier := request.header.endToEndIdentifier
            fixedDestination := fixedDestination } := by
  simp only [inspectRequest, bind_eq_ok_iff, refuseIf_eq_ok, pure_eq_ok, not_or, not_not,
    ne_eq, Bool.not_eq_true, Bool.not_eq_false, exists_const, Except.ok.injEq,
    and_assoc, eq_comm (a := facts)]

theorem flags_request (proxiable : Bool) :
    let flags := CommandFlags.request proxiable false
    flags.isRequest = true ∧ flags.isError = false ∧ flags.reservedBits = 0 ∧
      flags.isPotentiallyRetransmitted = false ∧ flags.isProxiable = proxiable := by
  cases proxiable <;> decide

/-- A request that was inspected once passes again when it is restored. -/
theorem checkRestored_of_inspectRequest {request : OwnedMessage}
    (hinspect : inspectRequest request config.maxMessageLen = .ok facts) :
    checkRestored config facts request.rawAvps = .ok () := by
  obtain ⟨_, _, _, _, hfits, _, ⟨hmax, hwide, _⟩, fixedDestination, havps, hfacts⟩ :=
    inspectRequest_eq_ok.mp hinspect
  obtain ⟨hrequest, herror, hreserved, hretransmitted, hproxiable⟩ :=
    flags_request facts.proxiable
  have hsmall : headerLen + request.rawAvps.length < 2 ^ 32 := by
    omega
  have hlength : (Fin.ofNat (256 ^ 4) (headerLen + request.rawAvps.length)).val =
      headerLen + request.rawAvps.length := Nat.mod_eq_of_lt (by omega)
  have hagain : inspectRequest (restoredRequest facts request.rawAvps) config.maxMessageLen =
      .ok facts := by
    subst hfacts
    rw [inspectRequest_eq_ok]
    refine ⟨rfl, hrequest, herror, hreserved, hfits, hretransmitted,
      ⟨hmax, hwide, hlength⟩, fixedDestination, havps, ?_⟩
    simp [restoredRequest, hproxiable]
  unfold checkRestored
  rw [refuseIf_of_not (Nat.not_le.mpr hsmall), ok_bind, hagain]
  simp [Except.mapError, refuseIf]

/-- What a restorable record's request says about its size and command. -/
theorem Restorable.request (hrestorable : Restorable config record) :
    fitsWire record.commandCode = true ∧ record.rawAvps.length ≤ config.maxMessageLen ∧
      record.Fits := by
  obtain ⟨_, hsmall, hcheck⟩ := bind_eq_ok hrestorable.inspected
  obtain ⟨inspected, hinspect, _⟩ := bind_eq_ok hcheck
  rw [mapError_eq_ok] at hinspect
  obtain ⟨_, _, _, _, hfits, _, ⟨hmax, _, _⟩, _⟩ := inspectRequest_eq_ok.mp hinspect
  rw [refuseIf_eq_ok] at hsmall
  have hattempts := hrestorable.limit
  have hbound := config.attemptBound.2
  change headerLen + record.rawAvps.length ≤ _ at hmax
  refine ⟨hfits, by omega, ?_, by omega, by omega⟩
  rw [hrestorable.generation]
  decide

/-- A restorable record passes the checks of a restore. -/
theorem Restorable.recheck (revision : NonZero 8) (hrestorable : Restorable config record) :
    recheckRecord config revision record = .ok (record.restored revision) := by
  obtain ⟨hfits, hlength, _⟩ := hrestorable.request
  have hattempts : recheckAttempts revision 0 record.attempts =
      .ok (restoredAttempts revision 0 record.attempts) := by
    rw [recheckAttempts_eq_ok]
    refine ⟨rfl, fun attempt hattempt => (hrestorable.storable _ hattempt).unanswered, ?_⟩
    intro restored hrestored
    obtain ⟨_, hindex⟩ := getElem?_of_mem hrestored
    rw [getElem?_restoredAttempts] at hindex
    obtain ⟨attempt, hattempt, rfl⟩ := Option.map_eq_some_iff.mp hindex
    exact (hrestorable.storable _ (mem_of_getElem? hattempt)).restored _ _
  unfold recheckRecord
  rw [refuseIf_of_not (not_not.mpr hrestorable.generation), ok_bind,
    refuseIf_of_not (not_not.mpr hfits), ok_bind,
    refuseIf_of_not (fun hempty => hrestorable.nonempty (length_eq_zero_iff.mp hempty)),
    ok_bind, refuseIf_of_not (Nat.not_lt.mpr hrestorable.limit), ok_bind, hattempts, ok_bind,
    refuseIf_of_not (Nat.not_lt.mpr hlength), ok_bind, hrestorable.inspected, ok_bind]
  rfl

/-- Attempts that keep their positions and stay storable. -/
theorem Restorable.edited {attempts : List AttemptEvidence} (hrestorable : Restorable config record)
    (hlength : attempts.length = record.attempts.length)
    (hattempts : ∀ (position : ℕ) attempt, attempts[position]? = some attempt →
      ∃ old, record.attempts[position]? = some old ∧ attempt.attemptIndex = old.attemptIndex ∧
        attempt.retransmission = old.retransmission ∧ attempt.Storable) :
    Restorable config { record with attempts := attempts } := by
  refine ⟨hrestorable.generation, ?_,
    hlength.trans_le hrestorable.limit, ?_, ?_, hrestorable.inspected⟩
  · rintro rfl
    exact hrestorable.nonempty (length_eq_zero_iff.mp hlength.symm)
  · intro position attempt hattempt
    obtain ⟨_, hold, hindex, hretransmission, -⟩ := hattempts _ _ hattempt
    have hposition := hrestorable.positions _ _ hold
    exact ⟨hindex.trans hposition.1, hretransmission.trans hposition.2⟩
  · intro attempt hattempt
    obtain ⟨position, hposition⟩ := getElem?_of_mem hattempt
    obtain ⟨_, _, _, _, hstorable⟩ := hattempts _ _ hposition
    exact hstorable

section

variable (hrestorable : Restorable config record)
  (hplace : ∀ attempt, (edit attempt).attemptIndex = attempt.attemptIndex ∧
    (edit attempt).retransmission = attempt.retransmission)
include hrestorable hplace

theorem Restorable.editAttempt {index : ℕ}
    (hedit : ∀ attempt, record.attempts[index]? = some attempt → (edit attempt).Storable) :
    Restorable config (record.editAttempt index edit) := by
  refine hrestorable.edited (length_modify _ _ _) fun position _ hattempt => ?_
  rw [getElem?_modify] at hattempt
  obtain ⟨old, hold, rfl⟩ := Option.map_eq_some_iff.mp hattempt
  refine ⟨old, hold, ?_⟩
  split
  · next hindex => exact ⟨(hplace _).1, (hplace _).2, hedit _ (hindex ▸ hold)⟩
  · exact ⟨rfl, rfl, hrestorable.storable _ (mem_of_getElem? hold)⟩

theorem Restorable.editAttempts {test : AttemptEvidence → Bool}
    (hedit : ∀ attempt ∈ record.attempts, test attempt = true → (edit attempt).Storable) :
    Restorable config (record.editAttempts test edit) := by
  refine hrestorable.edited (length_map _) fun position _ hattempt => ?_
  rw [getElem?_map] at hattempt
  obtain ⟨old, hold, rfl⟩ := Option.map_eq_some_iff.mp hattempt
  have hmem := mem_of_getElem? hold
  refine ⟨old, hold, ?_⟩
  split
  · next htest => exact ⟨(hplace _).1, (hplace _).2, hedit _ hmem htest⟩
  · exact ⟨rfl, rfl, hrestorable.storable _ hmem⟩

end

/-- One more attempt, at the next position. -/
theorem Restorable.push {connection : ConnectionToken} {hopByHopIdentifier : Word 4}
    {now : ℕ} (hrestorable : Restorable config record)
    (hlimit : record.attempts.length < config.maxAttemptsPerTransaction) :
    Restorable config (record.push
      (.prepare record.attempts.length connection hopByHopIdentifier true now)) := by
  refine ⟨hrestorable.generation, by simp [TransactionRecord.push], ?_, ?_, ?_,
    hrestorable.inspected⟩
  · simp only [TransactionRecord.push, length_append, length_singleton]
    omega
  · intro position attempt hattempt
    simp only [TransactionRecord.push] at hattempt
    rw [getElem?_append] at hattempt
    split at hattempt
    · exact hrestorable.positions _ _ hattempt
    · have hpositive := length_pos_of_ne_nil hrestorable.nonempty
      rw [getElem?_singleton] at hattempt
      split at hattempt
      · cases hattempt
        have hposition : position = record.attempts.length := by omega
        subst hposition
        exact ⟨rfl, by simp [AttemptEvidence.prepare, hpositive]⟩
      · cases hattempt
  · intro attempt hattempt
    rcases mem_append.mp hattempt with hattempt | hattempt
    · exact hrestorable.storable _ hattempt
    · rw [mem_singleton] at hattempt
      subst hattempt
      exact AttemptEvidence.storable_prepare _ _ _ _ _

end Records

end PacketCore.Diameter
