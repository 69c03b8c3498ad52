import PacketCore.ConfigBus.CommittedWatch

/-!
# Interleavings of the datastore and a watch

Every action is atomic: a store call up to its unlock, one notification, or one
read of the consumer.  Delivery is gapless in every interleaving.  A consumer
is left waiting only for revisions that are not there yet, provided no
notification is overtaken and clears name the newest record; otherwise the
notified version goes back and a visible revision waits for the next change.
-/

namespace PacketCore.ConfigBus

open InMemoryManagedDatastore List

variable {τ χ δ : Type}

/-- The snapshot and the versions handed to the consumer so far are kept with it. -/
structure Sys (τ χ δ : Type) where
  store : InMemoryManagedDatastore τ χ δ
  watcher : Watcher τ χ
  snapshot : Option (PublishedSnapshot τ χ)
  delivered : List ℕ

inductive Action (τ χ δ : Type)
  | append (commit : StoredConfig τ χ δ) (resolution : Option (ConfirmedCommitResolution τ))
  | clear (txId : τ)
  | send (version : ℕ)
  | poll

/-- What the consumer has been handed after a poll. -/
def Polled.deliver (delivered : List ℕ) : Polled τ χ → List ℕ
  | .yielded entry => delivered ++ [entry.version]
  | _ => delivered

/-- The snapshot that the consumer has after a poll. -/
def Polled.recover (snapshot : Option (PublishedSnapshot τ χ)) :
    Polled τ χ → Option (PublishedSnapshot τ χ)
  | .opened snapshot => snapshot
  | _ => snapshot

/-- A poll of the consumer. -/
def pollSys [DecidableEq δ] (schemaDigest : χ → δ) (sys : Sys τ χ δ) : Polled τ χ × Sys τ χ δ :=
  let (result, watcher) := poll schemaDigest sys.store sys.watcher
  (result, { sys with
    watcher, snapshot := result.recover sys.snapshot, delivered := result.deliver sys.delivered })

def step [DecidableEq τ] [ToString τ] [DecidableEq δ] (schemaDigest : χ → δ)
    (sys : Sys τ χ δ) : Action τ χ δ → Sys τ χ δ
  | .append commit resolution =>
    match sys.store.appendCommitWrite commit resolution with
    | .ok store => { sys with store }
    | .error _ => sys
  | .clear txId =>
    match sys.store.clearRecoveryRequired txId with
    | .ok store => { sys with store }
    | .error _ => sys
  | .send version => { sys with store := sys.store.send version }
  | .poll => (pollSys schemaDigest sys).2

/-- The request that opens a stream. -/
inductive Request
  | watchCommitted (since : ℕ)
  | recoverFrom (known : Option ℕ)

namespace Request

def watcher : Request → Watcher τ χ
  | .watchCommitted since => .opening none since
  | .recoverFrom known => .recovering known

/-- The version after which the stream of a request begins: the one that was
asked for, or the one of the snapshot that came with the stream. -/
def origin (snapshot : Option (PublishedSnapshot τ χ)) : Request → Option ℕ
  | .watchCommitted since => some since
  | .recoverFrom _ => snapshot.map (·.version)

end Request

variable (request : Request)

def run [DecidableEq τ] [ToString τ] [DecidableEq δ] (schemaDigest : χ → δ)
    (actions : List (Action τ χ δ)) : Sys τ χ δ :=
  actions.foldl (step schemaDigest) ⟨.new, request.watcher, none, []⟩

/-- The versions delivered after a snapshot. -/
def Gapless (snapshot : Option (PublishedSnapshot τ χ)) (delivered : List ℕ) : Prop :=
  delivered = [] ∨ ∃ origin, request.origin snapshot = some origin ∧
    delivered = range' (origin + 1) delivered.length

/-- A snapshot shows a visible version that is not below the known one. -/
def Recovered (shown : List ℕ) (snapshot : Option (PublishedSnapshot τ χ)) : Prop :=
  ∀ recovered ∈ snapshot, recovered.version ∈ shown ∧
    ∃ known, request = .recoverFrom known ∧ ∀ floor ∈ known, floor ≤ recovered.version

/-- What holds of a consumer at each of its reads. -/
def WatcherSound (snapshot : Option (PublishedSnapshot τ χ)) (shown delivered : List ℕ) :
    Watcher τ χ → Prop
  | .recovering known => request = .recoverFrom known ∧ delivered = []
  | .opening pending since => Recovered request shown pending ∧
      request.origin pending = some since ∧ delivered = []
  | .paging pending since => Recovered request shown pending ∧
      request.origin pending = some since ∧ delivered = [] ∧ (nextVersion since).isSome ∧
      ∃ version ∈ shown, since ≤ version
  | .streaming state => ∃ origin, request.origin snapshot = some origin ∧
      delivered = range' (origin + 1) delivered.length ∧
      state.backlog.map (·.version) =
        range' (origin + delivered.length + 1) state.backlog.length ∧
      state.cursor = origin + delivered.length + state.backlog.length ∧
      (∀ entry ∈ state.backlog, entry.version ∈ shown) ∧
      ∃ version ∈ shown, version ≤ state.cursor + 1
  | .ended => Gapless request snapshot delivered

structure SysSound (sys : Sys τ χ δ) : Prop where
  store : sys.store.Sound
  snapshot : Recovered request sys.store.visibleVersions sys.snapshot
  delivered : ∀ version ∈ sys.delivered, version ∈ sys.store.visibleVersions
  watcher : WatcherSound request sys.snapshot sys.store.visibleVersions sys.delivered sys.watcher

variable {request} {shown : List ℕ} {snapshot : Option (PublishedSnapshot τ χ)}
  {cursor : ℕ} {entries : List (CommittedConfigHistoryEntry τ χ)}
  {page : List (CommittedConfigHistoryEntry τ χ) × ℕ} {sys : Sys τ χ δ}
  {watcher : Watcher τ χ} {delivered : List ℕ}

theorem WatcherSound.gapless
    (hsound : WatcherSound request snapshot shown delivered watcher) :
    Gapless request snapshot delivered := by
  cases watcher with
  | recovering => exact .inl hsound.2
  | opening => exact .inl hsound.2.2
  | paging => exact .inl hsound.2.2.1
  | streaming =>
    obtain ⟨origin, horigin, hdelivered, _⟩ := hsound
    exact .inr ⟨origin, horigin, hdelivered⟩
  | ended => exact hsound

section Growth

variable {later : List ℕ} (hgrow : ∀ version ∈ shown, version ∈ later)
include hgrow

theorem Recovered.grow (hrecovered : Recovered request shown snapshot) :
    Recovered request later snapshot :=
  fun recovered hmem => (hrecovered recovered hmem).imp_left (hgrow _)

theorem WatcherSound.grow
    (hsound : WatcherSound request snapshot shown delivered watcher) :
    WatcherSound request snapshot later delivered watcher := by
  cases watcher with
  | recovering | ended => exact hsound
  | opening => exact ⟨hsound.1.grow hgrow, hsound.2⟩
  | paging =>
    obtain ⟨hrecovered, horigin, hempty, hnext, version, hversion, hle⟩ := hsound
    exact ⟨hrecovered.grow hgrow, horigin, hempty, hnext, version, hgrow _ hversion, hle⟩
  | streaming =>
    obtain ⟨origin, horigin, hdelivered, hbacklog, hcursor, hshown, version, hversion, hle⟩ :=
      hsound
    exact ⟨origin, horigin, hdelivered, hbacklog, hcursor,
      fun entry hentry => hgrow _ (hshown _ hentry), version, hgrow _ hversion, hle⟩

end Growth

section Pages

variable {schemaDigest : χ → δ} {store : InMemoryManagedDatastore τ χ δ}

theorem advanceCursor_eq_ok {next : ℕ} (hadvance : advanceCursor cursor entries = .ok next) :
    entries.map (·.version) = range' (cursor + 1) entries.length ∧
      next = cursor + entries.length := by
  induction entries generalizing cursor with
  | nil =>
    cases hadvance
    exact ⟨rfl, rfl⟩
  | cons _ _ ih =>
    unfold advanceCursor at hadvance
    split at hadvance
    case isTrue => cases hadvance
    case isFalse hnext =>
      have hversion := checkedAdd_eq_some (not_not.mp hnext)
      obtain ⟨hrest, _⟩ := ih hadvance
      constructor
      · simp [hversion, hrest, range'_succ]
      · simp only [length_cons]
        omega

theorem mapM_tryFromStored [DecidableEq δ] {records : List (StoredConfig τ χ δ)}
    (hentries : records.mapM (tryFromStored schemaDigest) = .ok entries) :
    entries.map (·.version) = records.map (·.version) := by
  have hall := mapM_eq_ok hentries
  clear hentries
  induction hall with
  | nil => rfl
  | cons hrecord _ ih =>
    obtain ⟨_, -, hrecord⟩ := bind_eq_ok hrecord
    cases hrecord
    rw [map_cons, map_cons, ih]

/-- A page is the exact continuation of its cursor within the visible history. -/
theorem loadCommittedPage_eq_ok [DecidableEq δ]
    (hok : loadCommittedPage schemaDigest store cursor = .ok page) :
    page.1.map (·.version) = range' (cursor + 1) page.1.length ∧
      page.2 = cursor + page.1.length ∧
      page.1.map (·.version) =
        (store.loadSince cursor maxConfigHistoryPageEntries).map (·.version) := by
  obtain ⟨_, hentries, hok⟩ := bind_eq_ok hok
  obtain ⟨_, hnext, hok⟩ := bind_eq_ok hok
  cases hok
  obtain ⟨hversions, hcursor⟩ := advanceCursor_eq_ok hnext
  exact ⟨hversions, hcursor, mapM_tryFromStored hentries⟩

theorem loadSince_subset {limit version : ℕ}
    (hversion : version ∈ (store.loadSince cursor limit).map (·.version)) :
    version ∈ store.visibleVersions := by
  unfold loadSince at hversion
  split at hversion
  · cases hversion
  · obtain ⟨_, hrecord, rfl⟩ := mem_map.mp hversion
    exact mem_map_of_mem (mem_of_mem_filter (mem_of_mem_take hrecord))

theorem streamFrom_sound [DecidableEq δ] {origin : ℕ}
    (horigin : request.origin snapshot = some origin)
    (hdelivered : delivered = range' (origin + 1) delivered.length)
    (hcursor : cursor = origin + delivered.length)
    (hload : loadCommittedPage schemaDigest store cursor = .ok page)
    (hreach : page.1 = [] → ∃ version ∈ store.visibleVersions, version ≤ cursor + 1) :
    WatcherSound request snapshot store.visibleVersions delivered
      (.streaming (streamFrom page)) := by
  obtain ⟨hversions, _, hrecords⟩ := loadCommittedPage_eq_ok hload
  have hshown : ∀ entry ∈ page.1, entry.version ∈ store.visibleVersions := by
    intro entry hentry
    apply loadSince_subset
    rw [← hrecords]
    exact mem_map_of_mem hentry
  refine ⟨origin, horigin, hdelivered, ?_, ?_, hshown, ?_⟩
  · rw [hcursor] at hversions
    exact hversions
  · change page.2 = origin + delivered.length + page.1.length
    omega
  · change ∃ version ∈ store.visibleVersions, version ≤ page.2 + 1
    cases hpage : page.1 with
    | nil =>
      obtain ⟨version, hversion, _⟩ := hreach hpage
      exact ⟨version, hversion, by omega⟩
    | cons entry =>
      have hfirst : entry.version = cursor + 1 := by
        rw [hpage] at hversions
        simpa [range'_succ] using (cons.inj hversions).1
      exact ⟨entry.version, hshown _ (by simp [hpage]), by omega⟩

theorem head_mem_visibleVersions [DecidableEq δ] {head : StoredConfig τ χ δ}
    (hok : committedHead schemaDigest store = .ok head) :
    head.version ∈ store.visibleVersions := by
  obtain ⟨_, hfound, hok⟩ := okOr_bind hok
  obtain ⟨_, -, hok⟩ := bind_eq_ok hok
  cases hok
  exact mem_map_of_mem (mem_of_getLast? hfound)

theorem reach_of_empty_page [DecidableEq δ] {since : ℕ} (hnext : (nextVersion since).isSome)
    (hload : loadCommittedPage schemaDigest store since = .ok page)
    (hreach : ∃ version ∈ store.visibleVersions, since ≤ version) (hempty : page.1 = []) :
    ∃ version ∈ store.visibleVersions, version ≤ since + 1 := by
  obtain ⟨version, hversion, _⟩ := hreach
  refine ⟨version, hversion, ?_⟩
  by_contra hlater
  obtain ⟨-, -, hrecords⟩ := loadCommittedPage_eq_ok hload
  rw [hempty] at hrecords
  obtain ⟨record, hrecord, rfl⟩ := mem_map.mp hversion
  have hmem : record ∈ store.visible.filter (since < ·.version) := by
    rw [mem_filter]
    exact ⟨hrecord, by simp; omega⟩
  unfold loadSince at hrecords
  rw [if_neg (by simp [maxConfigHistoryPageEntries,
    Option.isSome_iff_ne_none.mp hnext])] at hrecords
  cases hfilter : store.visible.filter (since < ·.version) with
  | nil => simp [hfilter] at hmem
  | cons =>
    rw [hfilter] at hrecords
    cases hrecords

end Pages

section Safety

variable [DecidableEq δ] {schemaDigest : χ → δ}

/-- The consumer after a poll, and where its deliveries come from. -/
structure PollSound (request : Request) (snapshot : Option (PublishedSnapshot τ χ))
    (shown delivered : List ℕ) (outcome : Polled τ χ × Watcher τ χ) : Prop where
  watcher : WatcherSound request (outcome.1.recover snapshot) shown
    (outcome.1.deliver delivered) outcome.2
  snapshot : Recovered request shown (outcome.1.recover snapshot)
  delivered : ∀ version ∈ outcome.1.deliver delivered, version ∈ delivered ∨ version ∈ shown

/-- A poll that yields nothing. -/
theorem PollSound.quiet {result : Polled τ χ}
    (hresult : result.deliver delivered = delivered)
    (hrecovered : Recovered request shown (result.recover snapshot))
    (hwatcher : WatcherSound request (result.recover snapshot) shown delivered watcher) :
    PollSound request snapshot shown delivered (result, watcher) :=
  ⟨hresult.symm ▸ hwatcher, hrecovered, fun _ hversion => .inl (hresult ▸ hversion)⟩

variable {store : InMemoryManagedDatastore τ χ δ}

theorem pollStream_sound {state : CommittedWatchState τ χ}
    (hrecovered : Recovered request store.visibleVersions snapshot)
    (hsound : WatcherSound request snapshot store.visibleVersions delivered (.streaming state)) :
    PollSound request snapshot store.visibleVersions delivered
      (pollStream schemaDigest store state) := by
  have hsame := hsound
  obtain ⟨origin, horigin, hdelivered, hbacklog, hcursor, hshown, hreach⟩ := hsound
  obtain ⟨cursor, backlog, _, _⟩ := state
  dsimp only at hdelivered hbacklog hcursor hshown hreach
  cases backlog with
  | cons entry rest =>
    rw [map_cons, length_cons, range'_succ, cons.injEq] at hbacklog
    obtain ⟨hentry, hrest⟩ := hbacklog
    refine ⟨⟨origin, horigin, ?_, ?_, ?_, ?_, hreach⟩, hrecovered, ?_⟩
    · change delivered ++ [entry.version] =
        range' (origin + 1) (delivered ++ [entry.version]).length
      rw [length_append, length_singleton, range'_concat, ← hdelivered, hentry,
        one_mul, Nat.add_right_comm]
    · change rest.map (·.version) =
        range' (origin + (delivered ++ [entry.version]).length + 1) rest.length
      rw [length_append]
      exact hrest
    · change cursor = origin + (delivered ++ [entry.version]).length + rest.length
      rw [length_append, length_singleton]
      rw [length_cons] at hcursor
      omega
    · exact fun other hother => hshown _ (mem_cons_of_mem _ hother)
    · intro version hversion
      refine (mem_append.mp hversion).imp_right fun hnew => ?_
      rw [mem_singleton.mp hnew]
      exact hshown _ (by simp)
  | nil =>
    unfold pollStream
    split_ifs
    · cases hload : loadCommittedPage schemaDigest store cursor with
      | ok =>
        exact .quiet rfl hrecovered
          (streamFrom_sound horigin hdelivered (by simpa using hcursor) hload fun _ => hreach)
      | error =>
        have hended : WatcherSound request snapshot store.visibleVersions delivered .ended :=
          .inr ⟨origin, horigin, hdelivered⟩
        exact .quiet rfl hrecovered hended
    · exact .quiet rfl hrecovered hsame
    · exact .quiet rfl hrecovered hsame

theorem poll_sound
    (hrecovered : Recovered request store.visibleVersions snapshot)
    (hsound : WatcherSound request snapshot store.visibleVersions delivered watcher) :
    PollSound request snapshot store.visibleVersions delivered
      (poll schemaDigest store watcher) := by
  have hended {snapshot : Option (PublishedSnapshot τ χ)} : delivered = [] →
      WatcherSound request snapshot store.visibleVersions delivered .ended := .inl
  cases watcher with
  | recovering known =>
    cases hrecover : recoverFrom schemaDigest store known with
    | error =>
      simp only [poll, hrecover]
      exact .quiet rfl hrecovered (hended hsound.2)
    | ok =>
      simp only [poll, hrecover]
      obtain ⟨head, hhead, hrecover⟩ := bind_eq_ok hrecover
      obtain ⟨hfloor, hrecover⟩ := refuseIf_bind hrecover
      cases hrecover
      obtain ⟨rfl, hempty⟩ := hsound
      let taken : PublishedSnapshot τ χ := ⟨some head.txId, head.version, head.config⟩
      have hplace : Recovered (.recoverFrom known) store.visibleVersions (some taken) := by
        rintro _ ⟨⟩
        refine ⟨head_mem_visibleVersions hhead, known, rfl, fun floor hknown => ?_⟩
        rw [Option.mem_def.mp hknown] at hfloor
        simpa using hfloor
      have hopening : WatcherSound (.recoverFrom known) snapshot store.visibleVersions delivered
          (.opening (some taken) head.version) := ⟨hplace, rfl, hempty⟩
      exact .quiet rfl hrecovered hopening
  | opening pending since =>
    obtain ⟨hpending, horigin, hempty⟩ := hsound
    cases hhead : watchHead schemaDigest store since with
    | error =>
      simp only [poll, hhead]
      exact .quiet rfl hrecovered (hended hempty)
    | ok =>
      simp only [poll, hhead]
      split_ifs with hnext
      · exact .quiet rfl hpending (hended hempty)
      · obtain ⟨head, hfound, hhead⟩ := bind_eq_ok hhead
        have hpaging : WatcherSound request snapshot store.visibleVersions delivered
            (.paging pending since) :=
          ⟨hpending, horigin, hempty, by simpa [Option.isSome_iff_ne_none] using hnext,
            head.version, head_mem_visibleVersions hfound, not_lt.mp (refuseIf_eq_ok.mp hhead)⟩
        exact .quiet rfl hrecovered hpaging
  | paging pending since =>
    obtain ⟨hpending, horigin, rfl, hnext, hreach⟩ := hsound
    cases hload : loadCommittedPage schemaDigest store since with
    | error =>
      simp only [poll, hload]
      exact .quiet rfl hrecovered (hended rfl)
    | ok =>
      simp only [poll, hload]
      exact .quiet rfl hpending
        (streamFrom_sound horigin rfl rfl hload (reach_of_empty_page hnext hload hreach))
  | streaming => exact pollStream_sound hrecovered hsound
  | ended => exact .quiet rfl hrecovered hsound

theorem pollSys_sound (hsound : SysSound request sys) :
    SysSound request (pollSys schemaDigest sys).2 := by
  obtain ⟨hwatcher, hsnapshot, hdelivered⟩ :=
    @poll_sound _ _ _ _ _ _ _ _ schemaDigest _ hsound.snapshot hsound.watcher
  refine ⟨hsound.store, hsnapshot, ?_, hwatcher⟩
  intro _ hversion
  exact (hdelivered _ hversion).elim (hsound.delivered _) id

variable [DecidableEq τ] [ToString τ]

theorem step_sound (hsound : SysSound request sys) (action : Action τ χ δ) :
    SysSound request (step schemaDigest sys action) := by
  have hsame := hsound
  obtain ⟨hstore, hsnapshot, hdelivered, hwatcher⟩ := hsound
  -- a store call only adds visible versions
  have hgrown : ∀ after : InMemoryManagedDatastore τ χ δ, after.Sound →
      (∀ version ∈ sys.store.visibleVersions, version ∈ after.visibleVersions) →
      SysSound request { sys with store := after } := fun after hafter hgrow =>
    ⟨hafter, hsnapshot.grow hgrow,
      fun version hversion => hgrow _ (hdelivered _ hversion), hwatcher.grow hgrow⟩
  cases action with
  | append commit resolution =>
    cases happend : sys.store.appendCommitWrite commit resolution with
    | error =>
      simp only [step, happend]
      exact hsame
    | ok =>
      simp only [step, happend]
      obtain ⟨_, happends, rfl⟩ := appendCommitWrite_eq_ok happend
      exact hgrown _ (happends.sound hstore _ _)
        fun _ hversion => happends.visibleVersions_subset hstore _ _ hversion
  | clear txId =>
    cases hclear : sys.store.clearRecoveryRequired txId with
    | error =>
      simp only [step, hclear]
      exact hsame
    | ok =>
      simp only [step, hclear]
      obtain ⟨_, _, _, hhistory, rfl, rfl⟩ := clearRecoveryRequired_eq_ok hclear
      exact hgrown _ (clear_sound hstore hhistory _ _)
        fun _ hversion => clear_visibleVersions_subset hhistory _ _ _ hversion
  | send =>
    simp only [step, send]
    split
    · exact hgrown _ { hstore with } fun _ hversion => hversion
    · exact hsame
  | poll => exact pollSys_sound hsame

end Safety

section Notifications

variable [DecidableEq δ] [DecidableEq τ] [ToString τ] {schemaDigest : χ → δ}

/-- No store call starts while a notification is outstanding, and a clear names
the newest record. -/
def Orderly (sys : Sys τ χ δ) : Action τ χ δ → Prop
  | .append _ _ => sys.store.sends = []
  | .clear txId => sys.store.sends = [] ∧
      ∀ record ∈ sys.store.history, record.txId = txId → sys.store.latest.any (·.txId = txId)
  | .send _ | .poll => True

/-- Every action is orderly in the state it meets. -/
def OrderlyFrom (schemaDigest : χ → δ) : Sys τ χ δ → List (Action τ χ δ) → Prop
  | _, [] => True
  | sys, action :: rest =>
    Orderly sys action ∧ OrderlyFrom schemaDigest (step schemaDigest sys action) rest

theorem step_current (hsound : SysSound request sys) (hcurrent : sys.store.Current)
    {action : Action τ χ δ} (horderly : Orderly sys action) :
    (step schemaDigest sys action).store.Current := by
  cases action with
  | append commit resolution =>
    cases happend : sys.store.appendCommitWrite commit resolution with
    | error => simpa only [step, happend] using hcurrent
    | ok =>
      simp only [step, happend]
      obtain ⟨_, happends, rfl⟩ := appendCommitWrite_eq_ok happend
      exact happends.current hsound.store hcurrent horderly
  | clear txId =>
    obtain ⟨hidle, hlatest⟩ := horderly
    cases hclear : sys.store.clearRecoveryRequired txId with
    | error => simpa only [step, hclear] using hcurrent
    | ok =>
      simp only [step, hclear]
      obtain ⟨_, _, _, hhistory, rfl, rfl⟩ := clearRecoveryRequired_eq_ok hclear
      have hlast := hlatest _ (by simp [hhistory]) rfl
      rw [hsound.store.latest_any hhistory, List.isEmpty_iff] at hlast
      subst hlast
      exact clear_current hsound.store hhistory hidle _
  | send =>
    simp only [step, send]
    split
    case isTrue hmem =>
      rcases hcurrent with ⟨hidle, -⟩ | ⟨_, hsends, hnewest⟩
      · rw [hidle] at hmem
        cases hmem
      · rw [hsends, mem_singleton] at hmem
        subst hmem
        exact .inl ⟨by simp [hsends], hnewest.symm⟩
    case isFalse => exact hcurrent
  | poll => exact hcurrent

theorem run_sound (schemaDigest : χ → δ) (request : Request) (actions : List (Action τ χ δ)) :
    SysSound request (run request schemaDigest actions) := by
  induction actions using reverseRecOn with
  | nil =>
    refine ⟨⟨⟨0, rfl⟩, nodup_nil, by rintro _ ⟨⟩, rfl⟩, by rintro _ ⟨⟩, by rintro _ ⟨⟩, ?_⟩
    cases request with
    | watchCommitted => exact ⟨by rintro _ ⟨⟩, rfl, rfl⟩
    | recoverFrom => exact ⟨rfl, rfl⟩
  | append_singleton earlier action ih =>
    have hrun : run request schemaDigest (earlier ++ [action]) =
        step schemaDigest (run request schemaDigest earlier) action := by simp [run]
    rw [hrun]
    exact step_sound ih _

/-- Every action of the run was orderly in the state it met. -/
def OrderlyRun (request : Request) (schemaDigest : χ → δ) (actions : List (Action τ χ δ)) :
    Prop :=
  OrderlyFrom schemaDigest (run request schemaDigest []) actions

theorem foldl_current {actions : List (Action τ χ δ)} (hsound : SysSound request sys)
    (hcurrent : sys.store.Current) (horderly : OrderlyFrom schemaDigest sys actions) :
    (actions.foldl (step schemaDigest) sys).store.Current := by
  induction actions generalizing sys with
  | nil => exact hcurrent
  | cons action _ ih =>
    exact ih (step_sound hsound action) (step_current hsound hcurrent horderly.1) horderly.2

theorem run_current {actions : List (Action τ χ δ)}
    (horderly : OrderlyRun request schemaDigest actions) :
    (run request schemaDigest actions).store.Current :=
  foldl_current (run_sound schemaDigest request []) (.inl ⟨rfl, rfl⟩) horderly

end Notifications

end PacketCore.ConfigBus
