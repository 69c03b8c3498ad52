import PacketCore.ConfigBus.Committed

/-!
# The watch against the history

`Sound` holds of every history the datastore can reach: consecutive versions
and at most a fence on the newest record.  The visible versions only grow.
Pages check the successor themselves, so what a stream delivers is gapless in
every run.  That it is never left waiting needs the notified version to be the
newest visible one.
-/

namespace PacketCore.ConfigBus

open List

section Lists

variable {α : Type}

theorem editFirst_eq_some {test : α → Bool} {edit : α → α}
    {items edited : List α} (hedit : editFirst test edit items = some edited) :
    ∃ left item right, items = left ++ item :: right ∧ test item = true ∧
      (∀ other ∈ left, test other = false) ∧ edited = left ++ edit item :: right := by
  induction items generalizing edited with
  | nil => cases hedit
  | cons first rest ih =>
    unfold editFirst at hedit
    split at hedit
    case isTrue htest =>
      cases hedit
      exact ⟨[], first, rest, rfl, htest, by simp, rfl⟩
    case isFalse htest =>
      obtain ⟨_, htail, rfl⟩ := Option.map_eq_some_iff.mp hedit
      obtain ⟨left, item, right, rfl, hitem, hleft, rfl⟩ := ih htail
      refine ⟨first :: left, item, right, rfl, hitem, ?_, rfl⟩
      simpa [htest] using hleft

/-- The numbers above a bound in a range that starts no later than its successor. -/
theorem filter_range' {first bound : ℕ} (count : ℕ) (hfirst : first ≤ bound + 1) :
    (range' first count).filter (bound < ·) = range' (bound + 1) (first + count - (bound + 1)) := by
  induction count with
  | zero =>
    have hnone : first + 0 - (bound + 1) = 0 := by omega
    rw [hnone]
    rfl
  | succ count ih =>
    rw [range'_concat, filter_append, ih]
    by_cases hbound : bound < first + 1 * count
    · have hcount : first + (count + 1) - (bound + 1) = first + count - (bound + 1) + 1 := by omega
      have hlast : first + 1 * count = bound + 1 + 1 * (first + count - (bound + 1)) := by omega
      rw [hcount, range'_concat, ← hlast, filter_eq_self.mpr (by simpa using hbound)]
    · have hcount : first + (count + 1) - (bound + 1) = first + count - (bound + 1) := by omega
      rw [hcount, filter_eq_nil_iff.mpr (by simpa using hbound), append_nil]

end Lists

variable {τ χ δ : Type}

variable {commit item : StoredConfig τ χ δ} {history left right : List (StoredConfig τ χ δ)}
  {resolution : Option (ConfirmedCommitResolution τ)} {shown : ℕ}

namespace InMemoryManagedDatastore

variable {store after : InMemoryManagedDatastore τ χ δ}

def visibleVersions (store : InMemoryManagedDatastore τ χ δ) : List ℕ :=
  store.visible.map (·.version)

structure Sound (store : InMemoryManagedDatastore τ χ δ) : Prop where
  consecutive : ∃ first, store.history.map (·.version) = range' first store.history.length
  unique : (store.history.map (·.txId)).Nodup
  cleared : ∀ record ∈ store.history.dropLast, record.recoveryRequired = false
  latest : store.latest = store.history.getLast?

theorem visible_of_cleared (hcleared : ∀ record ∈ store.history, record.recoveryRequired = false) :
    store.visible = store.history := by
  unfold visible
  rw [takeWhile_eq_self_iff]
  intro record hrecord
  simp [hcleared _ hrecord]

/-- The history after a decision about a pending commit, up to deadlines. -/
theorem resolved_eq_ok [DecidableEq τ] (hresolved : store.resolved resolution = .ok history) :
    history.map (fun record => (record.version, record.txId, record.recoveryRequired)) =
      store.history.map (fun record => (record.version, record.txId, record.recoveryRequired)) := by
  unfold resolved at hresolved
  dsimp only at hresolved
  split at hresolved
  · cases hresolved
    rfl
  · split at hresolved
    case isTrue =>
      obtain ⟨_, _, _, hbefore, -, -, rfl⟩ := editFirst_eq_some (okOr_eq_ok.mp hresolved)
      simp [hbefore]
    case isFalse => cases hresolved
  · split at hresolved
    case isTrue =>
      cases hresolved
      rfl
    case isFalse => cases hresolved
  · cases hresolved
  · cases hresolved

/-- A write appends the successor to a history without fences. -/
structure Appends (store : InMemoryManagedDatastore τ χ δ) (commit : StoredConfig τ χ δ)
    (history : List (StoredConfig τ χ δ)) : Prop where
  fields : history.map (fun record => (record.version, record.txId, record.recoveryRequired)) =
    store.history.map (fun record => (record.version, record.txId, record.recoveryRequired))
  fresh : ∀ record ∈ store.history, record.txId ≠ commit.txId
  successor : ∀ current, store.latest = some current →
    current.recoveryRequired = false ∧ commit.version = current.version + 1

theorem appendCommitWrite_eq_ok [DecidableEq τ] [ToString τ]
    (hok : store.appendCommitWrite commit resolution = .ok after) :
    ∃ history, Appends store commit history ∧ after = { store with
      latest := some commit
      history := history ++ [commit]
      sends := if commit.recoveryRequired then store.sends
        else store.sends ++ [commit.version] } := by
  obtain ⟨hfresh, hok⟩ := refuseIf_bind hok
  iterate 2 obtain ⟨_, -, hok⟩ := bind_eq_ok hok
  obtain ⟨_, hsuccessor, hok⟩ := bind_eq_ok hok
  obtain ⟨history, hresolved, hok⟩ := bind_eq_ok hok
  refine ⟨history, ⟨resolved_eq_ok hresolved, ?_, ?_⟩, ?_⟩
  · intro record hrecord hsame
    apply hfresh
    exact any_eq_true.mpr ⟨record, hrecord, decide_eq_true hsame⟩
  · intro _ hcurrent
    unfold checkSuccessor at hsuccessor
    rw [hcurrent] at hsuccessor
    obtain ⟨hfence, hsuccessor⟩ := refuseIf_bind hsuccessor
    obtain ⟨_, hexpected, hsuccessor⟩ := okOr_bind hsuccessor
    have hversion := not_not.mp (refuseIf_eq_ok.mp hsuccessor)
    have hnext := checkedAdd_eq_some hexpected
    exact ⟨by simpa using hfence, hversion.trans hnext⟩
  · exact (Except.ok.inj hok).symm

theorem clearRecoveryRequired_eq_ok [DecidableEq τ] [ToString τ] {txId : τ}
    (hok : store.clearRecoveryRequired txId = .ok after) :
    ∃ left item right, store.history = left ++ item :: right ∧
      item.txId = txId ∧ after = { store with
        history := left ++ unfence item :: right
        latest := if store.latest.any (·.txId = txId) then some (unfence item) else store.latest
        sends := store.sends ++ [item.version] } := by
  obtain ⟨history, hhistory, hok⟩ := okOr_bind hok
  obtain ⟨record, hrecord, hok⟩ := okOr_bind hok
  obtain ⟨left, item, right, hbefore, hitem, hleft, rfl⟩ :=
    editFirst_eq_some hhistory
  have hfind : (left ++ unfence item :: right).find? (·.txId = txId) = some (unfence item) := by
    rw [find?_append, find?_eq_none.mpr (fun other hother => by simp [hleft _ hother])]
    have hsame : decide ((unfence item).txId = txId) = true := hitem
    rw [Option.none_or, find?_cons, hsame]
  have hrecordEq : unfence item = record := by
    rw [hfind] at hrecord
    exact Option.some.inj hrecord
  subst hrecordEq
  exact ⟨left, item, right, hbefore, by simpa using hitem, (Except.ok.inj hok).symm⟩

section

variable (hsound : store.Sound)
include hsound

theorem Appends.cleared (happends : Appends store commit history) :
    ∀ record ∈ history, record.recoveryRequired = false := by
  have hbefore : ∀ record ∈ store.history, record.recoveryRequired = false := by
    intro record hrecord
    rcases eq_nil_or_concat' store.history with hnil | ⟨_, _, hlast⟩
    · rw [hnil] at hrecord
      cases hrecord
    · rw [hlast] at hrecord
      rcases mem_append.mp hrecord with hrecord | hrecord
      · apply hsound.cleared
        rwa [hlast, dropLast_concat]
      · rw [mem_singleton.mp hrecord]
        refine (happends.successor _ ?_).1
        rw [hsound.latest, hlast, getLast?_concat]
  intro record hrecord
  have hmem := mem_map_of_mem (f := fun record : StoredConfig τ χ δ =>
    (record.version, record.txId, record.recoveryRequired)) hrecord
  rw [happends.fields] at hmem
  obtain ⟨_, hold, hfields⟩ := mem_map.mp hmem
  rw [← (Prod.mk.inj (Prod.mk.inj hfields).2).2]
  exact hbefore _ hold

theorem Appends.sound {commit : StoredConfig τ χ δ} {history : List (StoredConfig τ χ δ)}
    (happends : Appends store commit history) (version : Option ℕ)
    (sends : List ℕ) : Sound ⟨some commit, history ++ [commit], version, sends⟩ where
  consecutive := by
    obtain ⟨first, hfirst⟩ := hsound.consecutive
    have hversions : history.map (·.version) = range' first history.length := by
      have hmap := congrArg (map Prod.fst) happends.fields
      have hlength := congrArg length happends.fields
      simp only [map_map, Function.comp_def, length_map] at hmap hlength
      rw [hmap, hfirst, hlength]
    rcases eq_nil_or_concat' store.history with hnil | ⟨earlier, last, hlast⟩
    · have hempty : history = [] := by
        have hlength := congrArg length happends.fields
        simpa [hnil] using hlength
      exact ⟨commit.version, by simp [hempty]⟩
    · refine ⟨first, ?_⟩
      have hcurrent := (happends.successor _ (by rw [hsound.latest, hlast, getLast?_concat])).2
      have hlength := congrArg length happends.fields
      have hlastVersion : last.version = first + earlier.length := by
        rw [hlast, map_append, length_append, length_singleton, range'_concat] at hfirst
        simpa using (append_inj' hfirst rfl).2
      rw [hlast] at hlength
      simp only [length_map, length_append] at hlength
      simp only [map_append, hversions, map_cons, length_append,
        length_singleton, range'_concat, one_mul]
      rw [hcurrent, hlastVersion, hlength]
      rfl
  unique := by
    have hids : history.map (·.txId) = store.history.map (·.txId) := by
      have hmap := congrArg (map fun fields => fields.2.1) happends.fields
      simpa only [map_map, Function.comp_def] using hmap
    rw [map_append, hids, nodup_append]
    refine ⟨hsound.unique, by simp, ?_⟩
    intro txId htxId _ hother hsame
    obtain ⟨_, hrecord, rfl⟩ := mem_map.mp htxId
    exact happends.fresh _ hrecord (hsame.trans (mem_singleton.mp hother))
  cleared := by
    rw [dropLast_concat]
    exact happends.cleared hsound
  latest := by simp

/-- The latest record carries an identifier iff it is the last with it. -/
theorem Sound.latest_any [DecidableEq τ]
    (hhistory : store.history = left ++ item :: right) :
    store.latest.any (·.txId = item.txId) = right.isEmpty := by
  have hunique := hsound.unique
  rw [hhistory] at hunique
  rw [hsound.latest, hhistory]
  rcases eq_nil_or_concat' right with rfl | ⟨_, last, rfl⟩
  · simp
  · have hlast : last.txId ≠ item.txId := by
      intro hsame
      simp [hsame, nodup_append] at hunique
    simp [getLast?_cons, hlast]

theorem clear_sound [DecidableEq τ]
    {left right : List (StoredConfig τ χ δ)} {item : StoredConfig τ χ δ}
    (hhistory : store.history = left ++ item :: right) (version : Option ℕ) (sends : List ℕ) :
    Sound ⟨if store.latest.any (·.txId = item.txId) then some
      (unfence item) else store.latest, left ++ unfence item :: right, version, sends⟩ where
  consecutive := by
    obtain ⟨first, hfirst⟩ := hsound.consecutive
    exact ⟨first, by simpa [hhistory, unfence] using hfirst⟩
  unique := by simpa [hhistory, unfence] using hsound.unique
  cleared := by
    have hcleared := hsound.cleared
    rw [hhistory] at hcleared
    rcases eq_nil_or_concat' right with rfl | ⟨middle, last, rfl⟩
    · rw [dropLast_concat] at hcleared ⊢
      exact hcleared
    · rw [← cons_append, ← append_assoc, dropLast_concat] at hcleared ⊢
      intro _ hrecord
      rcases mem_append.mp hrecord with hleft | hright
      · exact hcleared _ (mem_append_left _ hleft)
      · rcases mem_cons.mp hright with rfl | hmiddle
        · rfl
        · exact hcleared _ (mem_append_right _ (mem_cons_of_mem _ hmiddle))
  latest := by
    rw [hsound.latest_any hhistory, hsound.latest, hhistory]
    rcases eq_nil_or_concat' right with rfl | ⟨middle, last, rfl⟩
    · simp
    · simp [getLast?_cons]

theorem Appends.visibleVersions_subset
    (happends : Appends store commit history) (version : Option ℕ)
    (sends : List ℕ) (hshown : shown ∈ store.visibleVersions) :
    shown ∈ visibleVersions ⟨some commit, history ++ [commit], version, sends⟩ := by
  have hmem : shown ∈ history.map (·.version) := by
    have hmap := congrArg (map Prod.fst) happends.fields
    simp only [map_map, Function.comp_def] at hmap
    rw [hmap]
    exact map_subset _ (takeWhile_subset _) hshown
  have hlonger : ((history ++ [commit]).takeWhile (!·.recoveryRequired)) =
      history ++ [commit].takeWhile (!·.recoveryRequired) :=
    takeWhile_append_of_pos fun record hrecord => by
      simp [happends.cleared hsound record hrecord]
  change shown ∈ map _ (takeWhile _ _)
  rw [hlonger, map_append]
  exact mem_append_left _ hmem

end

theorem clear_visibleVersions_subset (hhistory : store.history = left ++ item :: right)
    (latest : Option (StoredConfig τ χ δ)) (version : Option ℕ) (sends : List ℕ)
    (hshown : shown ∈ store.visibleVersions) :
    shown ∈ visibleVersions ⟨latest, left ++ unfence item :: right, version, sends⟩ := by
  unfold visibleVersions visible at hshown ⊢
  rw [hhistory] at hshown
  clear hhistory
  induction left with
  | nil =>
    cases hitem : item.recoveryRequired with
    | true => simp [hitem] at hshown
    | false =>
      rw [nil_append, takeWhile_cons_of_pos (by simp [hitem])] at hshown
      exact hshown
  | cons first _ ih =>
    cases hfirst : first.recoveryRequired with
    | true => simp [hfirst] at hshown
    | false =>
      rw [cons_append, takeWhile_cons_of_pos (by simp [hfirst]), map_cons, mem_cons] at hshown ⊢
      exact hshown.imp_right ih

/-- The newest visible version. -/
def newest (store : InMemoryManagedDatastore τ χ δ) : Option ℕ := store.visibleVersions.getLast?

/-- Notifications tell the newest visible version, and at most one is outstanding. -/
def Current (store : InMemoryManagedDatastore τ χ δ) : Prop :=
  (store.sends = [] ∧ store.committedVersion = store.newest) ∨
    ∃ version, store.sends = [version] ∧ store.newest = some version

theorem newest_of_cleared (hcleared : ∀ record ∈ store.history, record.recoveryRequired = false) :
    store.newest = store.history.getLast?.map (·.version) := by
  unfold newest visibleVersions
  rw [visible_of_cleared hcleared, getLast?_map]

theorem Appends.current (hsound : store.Sound) (happends : Appends store commit history)
    (hcurrent : store.Current) (hidle : store.sends = []) :
    Current ⟨some commit, history ++ [commit], store.committedVersion,
      if commit.recoveryRequired then store.sends else store.sends ++ [commit.version]⟩ := by
  have hhistory := happends.cleared hsound
  cases hfenced : commit.recoveryRequired with
  | false =>
    right
    refine ⟨commit.version, by simp [hidle], ?_⟩
    rw [newest_of_cleared (by simpa [or_imp, forall_and, hfenced] using hhistory)]
    simp
  | true =>
    left
    refine ⟨by simp [hidle], ?_⟩
    have hversion : store.committedVersion = store.newest := by
      rcases hcurrent with ⟨-, hversion⟩ | ⟨version, hsends, -⟩
      · exact hversion
      · rw [hidle] at hsends
        cases hsends
    have hbefore : ∀ record ∈ store.history, record.recoveryRequired = false := by
      intro record hrecord
      have hmem := mem_map_of_mem (f := fun record : StoredConfig τ χ δ =>
        (record.version, record.txId, record.recoveryRequired)) hrecord
      rw [← happends.fields] at hmem
      obtain ⟨_, hsame, hfields⟩ := mem_map.mp hmem
      rw [← (Prod.mk.inj (Prod.mk.inj hfields).2).2]
      exact hhistory _ hsame
    have hshown : (history ++ [commit]).takeWhile (!·.recoveryRequired) = history := by
      rw [takeWhile_append_of_pos fun record hrecord => by simp [hhistory _ hrecord]]
      simp [hfenced]
    change store.committedVersion = (map _ (takeWhile _ _)).getLast?
    have hmap := congrArg (map Prod.fst) happends.fields
    simp only [map_map, Function.comp_def] at hmap
    rw [hversion, newest_of_cleared hbefore, hshown, hmap, getLast?_map]

theorem clear_current [DecidableEq τ] (hsound : store.Sound)
    (hhistory : store.history = left ++ [item]) (hidle : store.sends = [])
    (latest : Option (StoredConfig τ χ δ)) :
    Current ⟨latest, left ++ [unfence item], store.committedVersion,
      store.sends ++ [item.version]⟩ := by
  right
  refine ⟨item.version, by simp [hidle], ?_⟩
  have hcleared := hsound.cleared
  rw [hhistory, dropLast_concat] at hcleared
  rw [newest_of_cleared]
  · simp [unfence]
  · intro _ hrecord
    rcases mem_append.mp hrecord with hleft | hitem
    · exact hcleared _ hleft
    · rw [mem_singleton.mp hitem]
      rfl

end InMemoryManagedDatastore

end PacketCore.ConfigBus
