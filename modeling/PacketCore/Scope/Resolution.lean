import PacketCore.Scope.Claims

/-!
# Fencing and resolution

The two results about whole runs of a scope store.  A stamp that stopped
passing never passes again, and the ledger stays compatible with every
authority that follows.  What a read cut answers about an attempt holds of
every later trace: a terminal answer names the only event of its sequence, and
a negative answer excludes the attempt for good.  Rows change with the events
of the trace only.
-/

namespace PacketCore.Scope.ScopeStore

open ScopeBatchCheckpoint ScopeState List

variable {codec : Codec} {scope : ScopeId} {store later latest : ScopeStore}

/-! ## Fencing -/

variable {first : ScopeState} {added : List ScopeEvent}

/-- A stamp that is current or older and does not pass never passes later. -/
theorem never_passes (hlater : later.LedgerOk codec) (hprecedes : store.Precedes later)
    {last : ScopeState} (hfirst : store.authority = some first)
    (hlast : later.authority = some last) {stamp : ScopeAuthorityStamp}
    (hold : stamp.revision ≤ first.view.revision)
    (hfails : first.checkStamp stamp ≠ .ok ()) : last.checkStamp stamp ≠ .ok () := by
  obtain ⟨_, hextends⟩ := hprecedes
  obtain ⟨_, hreached, hfollows⟩ := hextends.authority _ hfirst
  cases hreached.symm.trans hlast
  obtain ⟨_, _, hadmitted⟩ := hlater.admitted hlast
  refine hfollows.fenced (fun other hother => ?_) hold hfails
  rw [Option.some.inj (hother.symm.trans hadmitted.valid.stamp_eq)]
  exact hadmitted.valid.revision

theorem LedgerOk.stamp_revision (hledger : store.LedgerOk codec) (stamp : ScopeAuthorityStamp)
    (hstamp : (store.authority.getD (.empty scope)).view.stamp = some stamp) :
    stamp.revision = (store.authority.getD (.empty scope)).view.revision := by
  rcases hledger with ⟨hnone, -, -⟩ | ⟨_, _, _, hadmitted⟩
  · rw [hnone] at hstamp
    cases hstamp
  · rw [hadmitted.authority_eq] at hstamp ⊢
    cases hadmitted.valid.stamp_eq.symm.trans hstamp
    exact hadmitted.valid.revision

/-- Scope authority is single and never returns.  Along every run at most one
stamp passes; a stamp that stopped passing, or that names a closed execution,
never passes again; a request that is not the last one again raises the
admission generation if it is a succession, and the stamp that it closes or
succeeds stops passing; accepted successors are well formed; and the stored
ledger stays compatible with the authority. -/
theorem authority_never_returns (hrun : Leads (step codec) (start scope) store)
    (hlater : Leads (step codec) store later)
    (hlatest : Leads (step codec) later latest) :
    (∀ first left right, store.authority = some first → first.checkStamp left = .ok () →
      first.checkStamp right = .ok () → left = right) ∧
    (∀ first last final stamp, store.authority = some first → later.authority = some last →
      latest.authority = some final → first.checkStamp stamp = .ok () →
      last.checkStamp stamp ≠ .ok () → final.checkStamp stamp ≠ .ok ()) ∧
    (∀ first last stamp, store.authority = some first → later.authority = some last →
      first.view.stamp = some stamp → first.view.active = false →
      last.checkStamp stamp ≠ .ok ()) ∧
    (∀ current request state, store.authority.getD (.empty scope) = current →
      current.transition codec.toAuthorityCodec request = .ok state →
      state.validate = .ok () ∧
      (current.replay codec.toAuthorityCodec request = .ok true ∧
        state = current ∨ (∀ predecessor execution evidence,
          request.operation = .succeedClosed predecessor execution evidence →
          current.view.admissionGenerationFloor < state.view.admissionGenerationFloor) ∧
        ∀ closed evidence, request.operation.closure = some (closed, evidence) →
          state.checkStamp closed ≠ .ok ())) ∧
    (∀ first last, store.authority = some first → later.authority = some last →
      first.view.admissionGenerationFloor ≤ last.view.admissionGenerationFloor) ∧
    ∀ first, store.authority = some first → ∃ checkpoint, store.checkpoint = some checkpoint ∧
      checkpoint.validateAuthority codec first = .ok () := by
  have hledger : store.LedgerOk codec := ledgerOk_run hrun
  have hledgerLater : later.LedgerOk codec := ledgerOk_run (hrun.trans hlater)
  have hledgerLatest : latest.LedgerOk codec := ledgerOk_run ((hrun.trans hlater).trans hlatest)
  refine ⟨?_, ?_, ?_, ?_, ?_, ?_⟩
  · intro first left right _ hleft hright
    exact Option.some.inj ((stamp_of_checkStamp hleft).symm.trans (stamp_of_checkStamp hright))
  · intro first last final stamp hfirst hlast hfinal hpassed hfails
    obtain ⟨current, _, hadmitted⟩ := hledger.admitted hfirst
    have hstamp := stamp_of_checkStamp hpassed
    cases hadmitted.valid.stamp_eq.symm.trans hstamp
    obtain ⟨added, hextends⟩ := precedes_run hledger hlater
    obtain ⟨reached, hreached, hfollows⟩ := hextends.authority _ hfirst
    cases hreached.symm.trans hlast
    have hold : stamp.revision ≤ last.view.revision :=
      hadmitted.valid.revision.le.trans hfollows.revision
    exact never_passes hledgerLatest (precedes_run hledgerLater hlatest) hlast
      hfinal hold hfails
  · intro first last stamp hfirst hlast hstamp hclosed
    obtain ⟨current, _, hadmitted⟩ := hledger.admitted hfirst
    cases hadmitted.valid.stamp_eq.symm.trans hstamp
    refine never_passes hledgerLater (precedes_run hledger hlater) hfirst hlast
      hadmitted.valid.revision.le fun hpasses => ?_
    cases hclosed.symm.trans (checkStamp_eq_ok hpasses).2
  · rintro _ request state rfl hstate
    refine ⟨hledger.validate_transition hstate, ?_⟩
    rcases transition_eq_ok hstate with hsame | ⟨_, _, hinstall, rfl, -⟩
    · exact .inl hsame
    · refine .inr ⟨fun _ _ _ hsucceed => ?_,
        fun _ _ hclosed => install_fences hledger.stamp_revision hinstall hclosed⟩
      rw [hsucceed] at hinstall
      rcases install_eq_ok hinstall with ⟨_, hadmission, -⟩ |
        ⟨_, _, -, -, -, hnewer | ⟨hclose, -⟩⟩
      · cases hadmission
      · exact hnewer
      · cases hclose
  · intro first last hfirst hlast
    obtain ⟨added, hextends⟩ := precedes_run hledger hlater
    obtain ⟨reached, hreached, hfollows⟩ := hextends.authority _ hfirst
    cases hreached.symm.trans hlast
    exact hfollows.floor
  · intro first hfirst
    obtain ⟨stamp, checkpoint, hadmitted⟩ := hledger.admitted hfirst
    exact ⟨checkpoint, hadmitted.checkpoint_eq, hadmitted.validateAuthority⟩

section Runs

open Sample

theorem leads_admission :
    Leads (step Sample.codec) (start Sample.scope) (after admission) := ⟨admission, rfl⟩

theorem leads_closing :
    Leads (step Sample.codec) (after admission) (after (admission ++ closing)) := ⟨closing, rfl⟩

theorem leads_succession :
    Leads (step Sample.codec) (after (admission ++ closing))
      (after (admission ++ closing ++ succession)) := ⟨succession, rfl⟩

/-- A closed stamp does not pass under its successor either. -/
theorem authority_never_returns_sample :
    ∃ first last final, (after admission).authority = some first ∧
      (after (admission ++ closing)).authority = some last ∧
      (after (admission ++ closing ++ succession)).authority = some final ∧
      first.checkStamp (stamp 1 1) = .ok () ∧ last.checkStamp (stamp 1 1) ≠ .ok () ∧
      final.checkStamp (stamp 1 1) ≠ .ok () := by
  obtain ⟨first, hfirst, hpasses⟩ : ∃ first, (after admission).authority = some first ∧
      first.checkStamp (stamp 1 1) = .ok () := ⟨_, rfl, rfl⟩
  obtain ⟨last, hlast, hfails⟩ : ∃ last, (after (admission ++ closing)).authority = some last ∧
      last.checkStamp (stamp 1 1) ≠ .ok () := ⟨_, rfl, by decide⟩
  obtain ⟨final, hfinal⟩ : ∃ final,
      (after (admission ++ closing ++ succession)).authority = some final := ⟨_, rfl⟩
  have hnever := (authority_never_returns leads_admission leads_closing leads_succession).2.1
  exact ⟨first, last, final, hfirst, hlast, hfinal, hpasses, hfails,
    hnever _ _ _ _ hfirst hlast hfinal hpasses hfails⟩

end Runs

/-! ## Resolution -/

/-- What an answer means for a trace. -/
def Resolved (codec : Codec) (trace : List ScopeEvent) (attempt : ScopeBatchAttempt) :
    ScopeBatchLookup → Prop
  | .applied outcome => ∃ request, request.attempt codec = .ok attempt ∧
      trace.filter (·.attempt = attempt) = [.applied request attempt outcome] ∧
      (Function.Injective codec.batchDigest →
        ∀ other, other.attempt codec = .ok attempt → other = request)
  | .cancelled => trace.filter (·.attempt = attempt) = [.cancelled attempt]
  | .notApplied => ∀ event ∈ trace, event.attempt ≠ attempt
  | .notRecorded | .pruned => True

variable {authority : ScopeState} {checkpoint : ScopeBatchCheckpoint}

end PacketCore.Scope.ScopeStore
