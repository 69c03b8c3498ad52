import PacketCore.Audit.Replay

/-!
# The validator accepts replayed ledgers

The index answers as a scan of the operations derived so far would, since these
are the operations of the first intents.  So the validator follows `Replays`.
-/

namespace PacketCore.Audit

open List

variable {δ : Type} [LinearOrder δ]

namespace ValidationIndex

variable {entries : List (LedgerEntry δ)} {index : ValidationIndex δ}

theorem new_of_length (hlength : entries.length ≤ maxLedgerEvents) :
    ∃ index, new entries = .ok index := by
  unfold new
  rw [refuseIf_of_not (not_lt.mpr hlength)]
  exact ⟨_, rfl⟩

theorem length_byMac (hnew : new entries = .ok index) :
    index.byMac.length = (intents entries).length := by
  obtain ⟨_, -, hbuilt⟩ := bind_eq_ok hnew
  cases hbuilt
  rw [(SortedIndex.perm_sortBy _).length_eq, (SortedIndex.perm_sortBy _).length_eq, length_zipIdx]

theorem duplicateRequest_of_fresh (hnew : new entries = .ok index)
    (before after : List (AuditOperationHandle δ)) (handle : AuditOperationHandle δ)
    (hintents : intents entries = before ++ handle :: after)
    (hfresh : ∀ earlier ∈ before, earlier.request ≠ handle.request) :
    index.duplicateRequest before.length = .ok false := by
  have hlength : ¬ index.byMac.length ≤ before.length := by
    rw [length_byMac hnew, hintents, length_append, length_cons]
    omega
  have hnot : before.length ∉ index.duplicateRequests := by
    obtain ⟨_, -, hbuilt⟩ := bind_eq_ok hnew
    cases hbuilt
    rw [SortedIndex.mem_repeats_sortBy]
    rintro ⟨_, hitem, earlier, hearlier, hsame⟩
    rw [hintents] at hitem hearlier
    rw [getElem?_append_right le_rfl, Nat.sub_self] at hitem
    rw [take_left] at hearlier
    cases hitem
    exact hfresh _ hearlier hsame
  unfold duplicateRequest
  rw [refuseIf_of_not hlength, ok_bind, pure_eq_ok, decide_eq_false hnot]

/-- The first intent with a tag is found once it has been replayed. -/
theorem priorOperation_of_first (hnew : new entries = .ok index)
    {before after : List (LedgerOperation δ)} {operation : LedgerOperation δ}
    {later : List (AuditOperationHandle δ)}
    (hintents : intents entries =
      (before ++ operation :: after).map LedgerOperation.handle ++ later)
    (hfirst : ∀ earlier ∈ before, earlier.handle.mac ≠ operation.handle.mac) :
    index.priorOperation operation.handle.mac (before ++ operation :: after).length =
      some before.length := by
  obtain ⟨_, -, hbuilt⟩ := bind_eq_ok hnew
  cases hbuilt
  unfold priorOperation
  rw [SortedIndex.lookup_sortBy _ _ (SortedIndex.perm_sortBy _), hintents]
  have hnone : (before.map LedgerOperation.handle).findIdx?
      (fun item => decide (item.mac = operation.handle.mac)) = none := by
    rw [findIdx?_eq_none_iff]
    rintro handle hmem
    obtain ⟨earlier, hearlier, rfl⟩ := mem_map.mp hmem
    exact decide_eq_false (hfirst _ hearlier)
  rw [map_append, append_assoc, findIdx?_append, hnone]
  simp [findIdx?_cons]

end ValidationIndex

variable {mac : Authenticator δ} {key : AuditKey} {identity : ConfigConsensusIdentity}
  {projection : AuditToken} {ledger : LedgerState δ}

variable {derived : List (LedgerOperation δ)} {entries : List (LedgerEntry δ)}
  {index : ValidationIndex δ} {sequence : ℕ}

/-- The validator derives what a row means. -/
theorem Derives.accepted {derived' : List (LedgerOperation δ)} {payload : EntryPayload δ}
    (hderives : Derives mac key identity projection derived sequence payload derived')
    (hprojection : ledger.projection = projection) (hcontinuity : ledger.continuity.isSome)
    (hindex : ValidationIndex.new entries = .ok index)
    {later : List (AuditOperationHandle δ)} (hintents : intents entries =
      derived.map LedgerOperation.handle ++ (payload.handle?.toList ++ later)) :
    ledger.deriveOperations mac key identity index derived sequence payload = .ok derived' := by
  subst hprojection
  cases hderives with
  | intent handle hauthentic hprojection hfresh =>
    have hduplicate := ValidationIndex.duplicateRequest_of_fresh hindex
      _ _ handle
      (by simpa [EntryPayload.handle?] using hintents)
      (by simpa using hfresh)
    rw [length_map] at hduplicate
    unfold LedgerState.deriveOperations
    dsimp only
    rw [show handle.verify mac key identity handle.body.binding.caller = .ok
      () from hauthentic, hduplicate, refuseIf_of_not (by simpa using hprojection)]
    rfl
  | outcome _ _ _ _ hfirst hintent hcloses =>
    have hposition := ValidationIndex.priorOperation_of_first hindex hintents hfirst
    unfold LedgerState.deriveOperations
    dsimp only
    rw [hposition]
    simp [okOr, hintent, hcloses, refuseIf, modify_middle]
  | terminal _ _ _ hfirst hclosed hopen =>
    have hposition := ValidationIndex.priorOperation_of_first hindex hintents hfirst
    unfold LedgerState.deriveOperations
    dsimp only
    rw [hposition]
    simp [okOr, hclosed, hopen, refuseIf, modify_middle]
  | keyTransition =>
    unfold LedgerState.deriveOperations
    rw [refuseIf_of_not (by simpa [Option.isSome_iff_ne_none] using hcontinuity)]
    rfl
  | event _ hprojection =>
    unfold LedgerState.deriveOperations
    dsimp only
    rw [refuseIf_of_not (by simpa using hprojection)]
    rfl

/-- The validator's loop reaches what the rows mean. -/
theorem Replays.accepted {start final : Replay δ} {rest : List (LedgerEntry δ)}
    (hrun : Replays mac key identity projection start rest final)
    (hidentity : ledger.identity = identity) (hprojection : ledger.projection = projection)
    (hcontinuity : ledger.continuity.isSome) (hbound : final.sequence ≤ lastSequence)
    (hindex : ValidationIndex.new entries = .ok index)
    (hintents : intents entries = start.derived.map LedgerOperation.handle ++ intents rest) :
    rest.foldlM (ledger.replayEntry mac key identity index) start = .ok final := by
  induction hrun with
  | nil => rfl
  | @cons replay payload derived rest final hderives hrest ih =>
    have hsplit : intents (replay.row mac key identity payload :: rest) =
        payload.handle?.toList ++ intents rest := by
      rw [intents, filterMap_cons]
      have hpayload : (replay.row mac key identity payload).payload = payload := rfl
      rw [hpayload]
      cases payload.handle? <;> rfl
    rw [hsplit] at hintents
    have hnext : checkedAdd replay.sequence 1 = some (replay.sequence + 1) := by
      have hlength := hrest.sequence_eq
      unfold lastSequence at hbound
      exact if_pos (by dsimp only at hlength; omega)
    have hstep : ledger.replayEntry mac key identity index replay
        (replay.row mac key identity payload) =
        .ok ⟨replay.sequence + 1, (replay.row mac key identity payload).mac, derived⟩ := by
      unfold LedgerState.replayEntry verify
      rw [hnext, okOr, ok_bind, refuseIf_of_not (by simp [Replay.row]), ok_bind,
        refuseIf_of_not (by simp [Replay.row, hidentity]), ok_bind]
      change ledger.deriveOperations mac key identity index replay.derived _ payload >>= _ = _
      rw [hderives.accepted hprojection hcontinuity hindex hintents]
      rfl
    rw [foldlM_cons, hstep]
    apply ih hbound
    rw [hintents, hderives.map_handle, append_assoc]

/-- A stored operation passes its checks. -/
theorem Consistent.accepted {floor : ℕ}
    (hconsistent : Consistent mac key identity floor sequence derived)
    (hfloor : ledger.floor = floor) (hsequence : ledger.sequence = sequence)
    (hindex : ValidationIndex.new entries = .ok index)
    (hintents : intents entries = derived.map LedgerOperation.handle)
    {operation : LedgerOperation δ} {position : ℕ} (hplace : derived[position]? = some operation) :
    ledger.checkOperation mac key identity index operation position = .ok () := by
  have hsettled := hconsistent.settled _ (mem_of_getElem? hplace)
  obtain ⟨before, after, rfl, rfl⟩ : ∃ before after, derived = before ++
      operation :: after ∧ before.length = position := by
    obtain ⟨hbound, hoperation⟩ := List.getElem?_eq_some_iff.mp hplace
    refine ⟨derived.take position, derived.drop (position + 1), ?_, ?_⟩
    · rw [← hoperation, getElem_cons_drop, take_append_drop]
    · exact length_take_of_le hbound.le
  have hduplicate := ValidationIndex.duplicateRequest_of_fresh hindex
    _ _ _
    (by rw [hintents, map_append, map_cons]) (by
      intro _ hmem hsame
      obtain ⟨_, hother, rfl⟩ := mem_map.mp hmem
      have hnodup := hconsistent.requests
      rw [map_append] at hnodup
      exact (nodup_append'.mp hnodup).2.2 (mem_map_of_mem hother)
        (by rw [hsame]; exact mem_cons_self))
  rw [length_map] at hduplicate
  unfold LedgerState.checkOperation
  rw [show operation.handle.verify mac key identity operation.handle.body.binding.caller = .ok ()
    from hsettled.authentic, hsettled.reserved, hduplicate]
  have hbounds : ¬ (operation.reserved ≠ operation.reserved ∨
      operation.firstSequence ≤ ledger.floor ∨ ledger.sequence < operation.lastSequence ∨
      operation.lastSequence < operation.firstSequence) := by
    have hlow := hsettled.floor_lt
    have hmiddle := hsettled.first_le
    have hhigh := hsettled.last_le
    omega
  rw [ok_bind, ok_bind, refuseIf_of_not hbounds]
  rfl

/-- A ledger whose rows mean its operations is valid. -/
theorem LedgerState.validate_of_replays (hlimits : ledger.limits.validate = .ok ())
    (hversion : ledger.version = 1) (hcontinuity : ledger.continuity.isSome)
    (hcount : ledger.operations.length ≤ ledger.limits.maxOperations)
    (hused : ledger.usedCapacity ≤ ledger.limits.maxEvents)
    (hbound : ledger.sequence ≤ lastSequence)
    (hrun : Replays mac key ledger.identity ledger.projection
      ⟨ledger.floor, ledger.predecessor, []⟩ ledger.entries
      ⟨ledger.sequence, ledger.terminal, ledger.operations⟩) :
    ledger.validate mac key ledger.identity = .ok () := by
  have hlength : ledger.entries.length ≤ ledger.limits.maxEvents :=
    (Nat.le_add_right _ _).trans hused
  have hevents : ledger.limits.maxEvents ≤ maxLedgerEvents := by
    have hbounds := refuseIf_eq_ok.mp hlimits
    push Not at hbounds
    exact hbounds.1.2
  obtain ⟨_, hindex⟩ := ValidationIndex.new_of_length (hlength.trans hevents)
  have hconsistent : Consistent mac key ledger.identity ledger.floor ledger.sequence
      ledger.operations := hrun.consistent le_rfl .nil
  have hhandles : ledger.operations.map LedgerOperation.handle = intents ledger.entries := by
    simpa using hrun.map_handle
  have hchecks : ¬ (ledger.version ≠ 1 ∨ ledger.identity ≠ ledger.identity ∨
      ledger.limits.maxOperations < ledger.operations.length ∨
      ledger.limits.maxEvents < ledger.usedCapacity ∨
      ledger.limits.maxEvents < ledger.entries.length) := by
    push Not
    exact ⟨hversion, rfl, hcount, hused, hlength⟩
  unfold LedgerState.validate
  rw [hlimits, ok_bind, refuseIf_of_not hchecks, ok_bind, hindex, ok_bind,
    hrun.accepted rfl rfl hcontinuity hbound hindex (by simp), ok_bind,
    refuseIf_of_not (by simp), ok_bind, refuseIf_of_not (by simp), ok_bind, forM_eq_ok]
  rintro ⟨_, _⟩ hmem
  exact hconsistent.accepted rfl rfl hindex hhandles.symm (SortedIndex.mem_zipIdx_iff.mp hmem)

end PacketCore.Audit
