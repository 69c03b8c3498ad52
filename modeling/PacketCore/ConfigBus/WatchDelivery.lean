import PacketCore.ConfigBus.WatchRuns

/-!
# Delivery

When the notified version is the newest visible one, a stream that is behind is
never parked, and three polls hand over the next revision.
-/

namespace PacketCore.ConfigBus

open InMemoryManagedDatastore List

variable {τ χ δ : Type}

theorem take_range' (first taken count : ℕ) :
    (range' first count).take taken = range' first (min taken count) :=
  ext_getElem (by simp) (by intros; simp)

variable {cursor version : ℕ}

section Reads

variable {store : InMemoryManagedDatastore τ χ δ}

/-- The visible versions are consecutive too. -/
theorem visibleVersions_eq_range' (hsound : store.Sound) :
    ∃ first, store.history.map (·.version) = range' first store.history.length ∧
      store.visibleVersions = range' first store.visible.length := by
  obtain ⟨first, hfirst⟩ := hsound.consecutive
  refine ⟨first, hfirst, ?_⟩
  have hvisible : store.visible <+: store.history := takeWhile_prefix _
  have htake := (prefix_iff_eq_take.mp hvisible)
  have hlength := hvisible.length_le
  unfold visibleVersions
  conv_lhs => rw [htake]
  rw [map_take, hfirst, take_range', min_eq_left hlength]

/-- A visible version has nothing fenced at or below it. -/
theorem unfenced_of_visible (hsound : store.Sound) (hversion : version ∈ store.visibleVersions) :
    ∀ record ∈ store.history, record.version ≤ version → record.recoveryRequired = false := by
  obtain ⟨_, hfirst, hvisible⟩ := visibleVersions_eq_range' hsound
  intro record hrecord _
  have hshown : record ∈ store.visible := by
    have hsplit : store.history = store.visible ++ store.history.dropWhile (!·.recoveryRequired) :=
      (takeWhile_append_dropWhile).symm
    rw [hsplit] at hrecord
    refine (mem_append.mp hrecord).resolve_right fun hrest => ?_
    rw [hsplit, map_append, length_append, range'_append_1.symm] at hfirst
    have hlater := (append_inj hfirst (by simp)).2
    have hmem := mem_map_of_mem (f := (·.version)) hrest
    rw [hlater, mem_range'_1] at hmem
    rw [hvisible, mem_range'_1] at hversion
    omega
  simpa using mem_takeWhile_imp hshown

theorem le_newest (hsound : store.Sound) (hversion : version ∈ store.visibleVersions) :
    ∃ newest, store.newest = some newest ∧ version ≤ newest := by
  obtain ⟨_, -, hvisible⟩ := visibleVersions_eq_range' hsound
  unfold newest
  rw [hvisible] at hversion ⊢
  cases hlength : store.visible.length with
  | zero =>
    rw [hlength] at hversion
    cases hversion
  | succ =>
    rw [mem_range'_1] at hversion
    rw [range'_concat, getLast?_concat]
    exact ⟨_, rfl, by omega⟩

theorem mapM_ok {α β ε : Type} {read : α → Except ε β} {value : α → β}
    {items : List α} (hread : ∀ item ∈ items, read item = .ok (value item)) :
    items.mapM read = .ok (items.map value) := by
  induction items with
  | nil => rfl
  | cons _ _ ih =>
    rw [mapM_cons, hread _ (by simp), ih fun other hother => hread _ (by simp [hother])]
    rfl

theorem advanceCursor_ok {entries : List (CommittedConfigHistoryEntry τ χ)}
    (hversions : entries.map (·.version) = range' (cursor + 1) entries.length)
    (hfits : ∀ entry ∈ entries, entry.version < 2 ^ 64) :
    advanceCursor cursor entries = .ok (cursor + entries.length) := by
  induction entries generalizing cursor with
  | nil => rfl
  | cons entry _ ih =>
    rw [map_cons, length_cons, range'_succ, cons.injEq] at hversions
    obtain ⟨hentry, hrest⟩ := hversions
    have hnext : nextVersion cursor = some entry.version := by
      have hlt := hfits entry (by simp)
      rw [hentry] at hlt ⊢
      exact if_pos hlt
    rw [advanceCursor, if_neg (by simp [hnext]), hentry,
      ih hrest fun other hother => hfits _ (by simp [hother]), length_cons]
    congr 1
    omega

variable [DecidableEq δ] {schemaDigest : χ → δ}

theorem loadCommittedPage_behind (hsound : store.Sound)
    (hreach : ∃ low ∈ store.visibleVersions, low ≤ cursor + 1)
    (hversion : version ∈ store.visibleVersions) (hbehind : cursor < version)
    (hdigest : ∀ record ∈ store.visible, record.schemaDigest = schemaDigest record.config) :
    ∃ entry rest next, loadCommittedPage schemaDigest store cursor = .ok (entry :: rest, next) ∧
      entry.version = cursor + 1 := by
  obtain ⟨first, -, hvisible⟩ := visibleVersions_eq_range' hsound
  obtain ⟨low, hlow, _⟩ := hreach
  have hfits : ∀ shown ∈ store.visibleVersions, shown < 2 ^ 64 := by
    intro shown hshown
    obtain ⟨record, -, rfl⟩ := mem_map.mp hshown
    exact record.version_lt
  have hnext : (nextVersion cursor).isNone = false := by
    have hlt : cursor + 1 < 2 ^ 64 := lt_of_le_of_lt hbehind (hfits _ hversion)
    rw [nextVersion, checkedAdd, if_pos hlt]
    rfl
  generalize hrecords : store.loadSince cursor maxConfigHistoryPageEntries = records
  have hsubset : ∀ record ∈ records, record ∈ store.visible := by
    intro record hrecord
    rw [← hrecords] at hrecord
    unfold loadSince at hrecord
    split at hrecord
    · cases hrecord
    · exact mem_of_mem_filter (mem_of_mem_take hrecord)
  have hversions : records.map (·.version) = range' (cursor + 1) records.length ∧
      0 < records.length := by
    have hfilter : (store.visible.filter (cursor < ·.version)).map (·.version) =
        range' (cursor + 1) (first + store.visible.length - (cursor + 1)) := by
      rw [hvisible, mem_range'_1] at hlow
      have hmap : (store.visible.filter (cursor < ·.version)).map (·.version) =
          store.visibleVersions.filter (cursor < ·) := by
        unfold visibleVersions
        rw [filter_map]
        rfl
      rw [hmap, hvisible, filter_range' _ (by omega)]
    have hcount : (store.visible.filter (cursor < ·.version)).length =
        first + store.visible.length - (cursor + 1) := by
      simpa using congrArg length hfilter
    rw [hvisible, mem_range'_1] at hversion
    rw [← hrecords]
    unfold loadSince
    rw [if_neg (by simp [maxConfigHistoryPageEntries, hnext])]
    constructor
    · rw [map_take, hfilter, take_range', length_take, hcount]
    · rw [length_take, maxConfigHistoryPageEntries]
      omega
  have hload : loadCommittedPage schemaDigest store cursor =
      .ok (records.map fun record => ⟨record.txId, record.version, record.config⟩,
        cursor + records.length) := by
    unfold loadCommittedPage
    have hread : records.mapM (tryFromStored schemaDigest) =
        .ok (records.map fun record => ⟨record.txId, record.version, record.config⟩) := by
      apply mapM_ok
      intro record hrecord
      have hvisible := hsubset _ hrecord
      have hfence : ¬ record.recoveryRequired = true := by
        simpa using mem_takeWhile_imp hvisible
      unfold tryFromStored validatePublicationSafeRecord
      rw [refuseIf_of_not (not_not.mpr (hdigest _ hvisible)), refuseIf_of_not hfence]
      rfl
    rw [hrecords, hread, ok_bind, advanceCursor_ok, length_map]
    · rfl
    · simpa [Function.comp_def] using hversions.1
    · intro entry hentry
      obtain ⟨record, -, rfl⟩ := mem_map.mp hentry
      exact record.version_lt
  cases records with
  | nil => exact absurd hversions.2 (lt_irrefl 0)
  | cons =>
    refine ⟨_, _, _, hload, ?_⟩
    simpa [range'_succ] using (cons.inj hversions.1).1

end Reads

section Delivery

variable [DecidableEq δ] {schemaDigest : χ → δ} {request : Request} {sys : Sys τ χ δ}

/-- Polls in a row, with no store action between them. -/
def pollTimes (schemaDigest : χ → δ) : ℕ → Sys τ χ δ → Sys τ χ δ
  | 0, sys => sys
  | count + 1, sys => pollTimes schemaDigest count (pollSys schemaDigest sys).2

omit [DecidableEq δ] in
theorem notified_of_current (hsound : sys.store.Sound) (hcurrent : sys.store.Current)
    (hidle : sys.store.sends = []) (hversion : version ∈ sys.store.visibleVersions) :
    ∃ newest, sys.store.committedVersion = some newest ∧ version ≤ newest := by
  rcases hcurrent with ⟨-, hnotified⟩ | ⟨_, hsends, -⟩
  · rw [hnotified]
    exact le_newest hsound hversion
  · rw [hidle] at hsends
    cases hsends

/-- A parked stream has seen every visible revision. -/
theorem not_behind_of_parked (hsound : SysSound request sys) (hcurrent : sys.store.Current)
    (hidle : sys.store.sends = []) (hparked : (pollSys schemaDigest sys).1 = .parked) :
    ∃ state, sys.watcher = .streaming state ∧
      ∀ version ∈ sys.store.visibleVersions, version ≤ state.cursor := by
  obtain ⟨store, watcher, _, _⟩ := sys
  change (poll schemaDigest store watcher).1 = .parked at hparked
  cases watcher with
  | streaming state =>
    refine ⟨state, rfl, fun version hversion => ?_⟩
    obtain ⟨_, hnewest, hle⟩ := notified_of_current hsound.store hcurrent hidle hversion
    change (pollStream schemaDigest store state).1 = .parked at hparked
    unfold pollStream at hparked
    split at hparked
    · cases hparked
    · split_ifs at hparked with hready hnotified
      · split at hparked <;> cases hparked
      · rw [hnewest, Option.any_some, decide_eq_true_eq] at hnotified
        exact hle.trans (not_lt.mp hnotified)
  | recovering | paging =>
    simp only [poll] at hparked
    split at hparked <;> cases hparked
  | opening =>
    simp only [poll] at hparked
    split at hparked
    · split_ifs at hparked
    · cases hparked
  | ended => cases hparked

/-- A stream with a backlog hands over its first entry. -/
theorem pollSys_backlog {store : InMemoryManagedDatastore τ χ δ} {delivered : List ℕ}
    {snapshot : Option (PublishedSnapshot τ χ)} {entry : CommittedConfigHistoryEntry τ χ}
    {rest : List (CommittedConfigHistoryEntry τ χ)} {repageImmediately woken : Bool} :
    (pollTimes schemaDigest 1
      ⟨store, .streaming ⟨cursor, entry :: rest, repageImmediately, woken⟩,
        snapshot, delivered⟩).delivered = delivered ++ [entry.version] := rfl

/-- A stream that is behind receives the next revision within three polls. -/
theorem delivered_of_behind (hsound : SysSound request sys) (hcurrent : sys.store.Current)
    (hidle : sys.store.sends = []) {state : CommittedWatchState τ χ}
    (hwatcher : sys.watcher = .streaming state) {origin : ℕ}
    (horigin : request.origin sys.snapshot = some origin)
    (hdigest : ∀ record ∈ sys.store.visible, record.schemaDigest = schemaDigest record.config)
    (hversion : version ∈ sys.store.visibleVersions)
    (hbehind : origin + sys.delivered.length < version) :
    ∃ count ≤ 3, (pollTimes schemaDigest count sys).delivered =
      sys.delivered ++ [origin + sys.delivered.length + 1] := by
  obtain ⟨_, hnewest, hle⟩ := notified_of_current hsound.store hcurrent hidle hversion
  obtain ⟨store, watcher, snapshot, delivered⟩ := sys
  obtain ⟨cursor, backlog, repageImmediately, woken⟩ := state
  subst hwatcher
  obtain ⟨hstore, -, -, _, hplace, -, hbacklog, hcursor, -, hreach⟩ := hsound
  cases hplace.symm.trans horigin
  cases backlog with
  | cons entry =>
    have hentry : entry.version = origin + delivered.length + 1 := by
      simpa [range'_succ] using (cons.inj hbacklog).1
    exact ⟨1, by omega, hentry ▸ pollSys_backlog⟩
  | nil =>
    obtain rfl : cursor = origin + delivered.length := by simpa using hcursor
    obtain ⟨entry, rest, next, hload, hentry⟩ :=
      loadCommittedPage_behind hstore hreach hversion hbehind hdigest
    let waiting (repageImmediately woken : Bool) : Sys τ χ δ :=
      ⟨store, .streaming ⟨origin + delivered.length, [], repageImmediately, woken⟩,
        snapshot, delivered⟩
    -- once the stream may read its page, the second poll hands over its first entry
    have hready : ∀ repageImmediately woken, (repageImmediately || woken) = true →
        (pollTimes schemaDigest 2 (waiting repageImmediately woken)).delivered =
          delivered ++ [origin + delivered.length + 1] := by
      intro repageImmediately woken hready
      have hpage : (pollSys schemaDigest (waiting repageImmediately woken)).2 =
          ⟨store, .streaming (streamFrom (entry :: rest, next)), snapshot, delivered⟩ := by
        simp only [waiting, pollSys, poll, pollStream, hready, if_true, hload,
          Polled.deliver, Polled.recover]
      rw [pollTimes, hpage, ← hentry]
      exact pollSys_backlog
    cases hflags : repageImmediately || woken with
    | true => exact ⟨2, by omega, hready _ _ hflags⟩
    | false =>
      refine ⟨3, le_rfl, ?_⟩
      have hwoken : (pollSys schemaDigest (waiting repageImmediately woken)).2 =
          waiting repageImmediately true := by
        have hnotified : store.committedVersion.any (origin + delivered.length < ·) = true := by
          rw [hnewest]
          simpa using lt_of_lt_of_le hbehind hle
        simp only [waiting, pollSys, poll, pollStream, hflags, hnotified,
          Bool.false_eq_true, if_false, if_true, Polled.deliver, Polled.recover]
      change (pollTimes schemaDigest 2 (pollSys schemaDigest (waiting _ _)).2).delivered = _
      rw [hwoken]
      exact hready _ _ (Bool.or_true _)

/-- What a consumer can rely on in a state; `orderly` says that no notification
was overtaken or is outstanding and that clears named the newest record. -/
structure Delivers (schemaDigest : χ → δ) (request : Request) (orderly : Prop)
    (sys : Sys τ χ δ) : Prop where
  /-- The successive versions after the one that was asked for or the snapshot. -/
  gapless : Gapless request sys.snapshot sys.delivered
  /-- A snapshot is visible and not below the known version. -/
  recovered : Recovered request sys.store.visibleVersions sys.snapshot
  unfenced : ∀ version ∈ sys.delivered, version ∈ sys.store.visibleVersions ∧
    ∀ record ∈ sys.store.history, record.version ≤ version → record.recoveryRequired = false
  parked : orderly → (pollSys schemaDigest sys).1 = .parked →
    ∃ state, sys.watcher = .streaming state ∧
      ∀ version ∈ sys.store.visibleVersions, version ≤ state.cursor
  delivered : orderly → ∀ state, sys.watcher = .streaming state →
    ∃ origin, request.origin sys.snapshot = some origin ∧
      ((∀ record ∈ sys.store.visible, record.schemaDigest = schemaDigest record.config) →
      ∀ version ∈ sys.store.visibleVersions, origin + sys.delivered.length < version →
      ∃ count ≤ 3, (pollTimes schemaDigest count sys).delivered =
        sys.delivered ++ [origin + sys.delivered.length + 1])

variable [DecidableEq τ] [ToString τ]

/-- In every interleaving the deliveries are the successive versions after the
place of the stream, all of them visible and unfenced.  Where the run was orderly
and no notification is outstanding, no stream waits for a visible revision, and
the next one is handed over within three polls. -/
theorem watch_gapless (schemaDigest : χ → δ) (request : Request)
    (actions : List (Action τ χ δ)) :
    Delivers schemaDigest request (OrderlyRun request schemaDigest actions ∧
        (run request schemaDigest actions).store.sends = [])
      (run request schemaDigest actions) := by
  have hsound := run_sound schemaDigest request actions
  exact
    { gapless := hsound.watcher.gapless
      recovered := hsound.snapshot
      unfenced := fun version hversion =>
        ⟨hsound.delivered _ hversion,
          unfenced_of_visible hsound.store (hsound.delivered _ hversion)⟩
      parked := fun horderly => not_behind_of_parked hsound (run_current horderly.1) horderly.2
      delivered := by
        intro horderly state hwatcher
        obtain ⟨origin, horigin, -⟩ := hwatcher ▸ hsound.watcher
        exact ⟨origin, horigin, fun hdigest version =>
          delivered_of_behind hsound (run_current horderly.1) horderly.2 hwatcher horigin hdigest⟩ }

/-- A published revision of an empty configuration. -/
def revision (version : Fin 8) (parent : Option ℕ) : StoredConfig ℕ Unit Unit :=
  ⟨version, parent, version, lt_trans version.isLt (by decide), (), (), false, none⟩

/-- A recovery takes the first revision as its snapshot; the second one is
published while it reads its first page. -/
def racingAppend : List (Action ℕ Unit Unit) :=
  [.append (revision 1 none) none, .send 1, .poll, .poll,
    .append (revision 2 (some 1)) none, .poll, .send 2]

theorem watch_gapless_racing :
    (run (.recoverFrom (some 1)) id racingAppend).snapshot.map (·.version) = some 1 ∧
      ∃ count ≤ 3,
        (pollTimes id count (run (.recoverFrom (some 1)) id racingAppend)).delivered = [2] := by
  refine ⟨rfl, ?_⟩
  have horderly : OrderlyRun (.recoverFrom (some 1)) id racingAppend :=
    ⟨rfl, trivial, trivial, trivial, rfl, trivial, trivial, trivial⟩
  obtain ⟨_, horigin, hdelivered⟩ :=
    (watch_gapless id _ racingAppend).delivered ⟨horderly, rfl⟩ _ rfl
  cases horigin
  exact hdelivered (fun _ _ => rfl) 2 (by decide +kernel) (by decide)

/-- The second revision is published, then the first one is cleared again. -/
def staleClear : List (Action ℕ Unit Unit) :=
  [.append (revision 1 none) none, .send 1, .poll, .poll, .poll,
    .append (revision 2 (some 1)) none, .send 2, .clear 1, .send 1]

/-- The notified version goes back, and the stream stays parked below a visible revision. -/
theorem parked_below_visible :
    2 ∈ (run (.watchCommitted 1) id staleClear).store.visibleVersions ∧
      (run (.watchCommitted 1) id staleClear).store.sends = [] ∧
      (pollSys id (run (.watchCommitted 1) id staleClear)).1 = .parked ∧
      (pollTimes id 9 (run (.watchCommitted 1) id staleClear)).delivered = [] := by
  refine ⟨by decide +kernel, by decide +kernel, rfl, by decide +kernel⟩

end Delivery

end PacketCore.ConfigBus
