import PacketCore.Library.Loop
import PacketCore.Library.Word

/-!
# Committed revisions and their watch

The in-memory datastore shows the prefix of its history before the first
fenced record.  A call changes the history under its lock and sends its change
notification after it released the lock.  A watch reads the head, a first page
and further pages, and waits for a notification when a page was empty.
-/

namespace PacketCore.ConfigBus

inductive StoreErrorKind
  | internal
  | unavailable
  | notFound
  | historyPageTooLarge
  | invalidHistorySequence
  | historyCursorAhead
  | restoreSchemaMismatch
  | restoreRecoveryRequired

structure StoreError where
  kind : StoreErrorKind
  message : String

/-- The successor of a version that still fits its counter. -/
def nextVersion (version : ℕ) : Option ℕ := checkedAdd version 1

structure StoredConfig (τ χ δ : Type) where
  txId : τ
  parentTxId : Option τ
  version : ℕ
  version_lt : version < 2 ^ 64
  schemaDigest : δ
  config : χ
  recoveryRequired : Bool
  confirmedDeadline : Option ℕ

inductive ConfirmedCommitResolution (τ : Type)
  | confirm (pendingTxId : τ)
  | rollback (pendingTxId : τ)

/-- `sends` holds the notifications of calls that have released the lock. -/
structure InMemoryManagedDatastore (τ χ δ : Type) where
  latest : Option (StoredConfig τ χ δ)
  history : List (StoredConfig τ χ δ)
  committedVersion : Option ℕ
  sends : List ℕ

/-- Edit the first item that passes a test. -/
def editFirst {α : Type} (test : α → Bool) (edit : α → α) : List α → Option (List α)
  | [] => none
  | item :: rest =>
    if test item then some (edit item :: rest) else (editFirst test edit rest).map (item :: ·)

namespace InMemoryManagedDatastore

variable {τ χ δ : Type} [DecidableEq τ] [ToString τ] [DecidableEq δ]

def new : InMemoryManagedDatastore τ χ δ := ⟨none, [], none, []⟩

variable (store : InMemoryManagedDatastore τ χ δ)

def visible : List (StoredConfig τ χ δ) := store.history.takeWhile (!·.recoveryRequired)

def loadCommittedLatest : Option (StoredConfig τ χ δ) := store.visible.getLast?

def loadSince (after limit : ℕ) : List (StoredConfig τ χ δ) :=
  if limit = 0 ∨ (nextVersion after).isNone then []
  else (store.visible.filter (after < ·.version)).take limit

/-- The history once the write has confirmed, or rolled back, a pending commit. -/
def resolved (resolution : Option (ConfirmedCommitResolution τ)) :
    Except StoreError (List (StoredConfig τ χ δ)) :=
  let pending := store.latest.any (·.confirmedDeadline.isSome)
  let current := store.latest.map (·.txId)
  match pending, resolution with
  | false, none => .ok store.history
  | true, some (.confirm pendingTxId) =>
    if some pendingTxId = current then
      okOr (editFirst (·.txId = pendingTxId) ({ · with confirmedDeadline := none }) store.history)
        ⟨.internal, "pending config transaction is absent from history"⟩
    else .error ⟨.unavailable, "confirmed commit decision targets a stale transaction"⟩
  | true, some (.rollback pendingTxId) =>
    if some pendingTxId = current then .ok store.history
    else .error ⟨.unavailable, "confirmed commit decision targets a stale transaction"⟩
  | true, none => .error ⟨.unavailable, "pending confirmed commit requires an atomic decision"⟩
  | false, some _ => .error ⟨.unavailable, "confirmed commit decision is no longer current"⟩

/-- The write must follow the latest record, which must not be fenced. -/
def checkSuccessor (version : ℕ) : Except StoreError Unit :=
  match store.latest with
  | none => .ok ()
  | some current => do
    refuseIf (current.recoveryRequired = true)
      ⟨.unavailable, "config publication fence must clear before another append"⟩
    let expected ← okOr (nextVersion current.version)
      ⟨.internal, "config version counter is exhausted"⟩
    refuseIf (version ≠ expected) ⟨.internal, "config write version is not the applied successor"⟩

def appendCommitWrite (commit : StoredConfig τ χ δ)
    (resolution : Option (ConfirmedCommitResolution τ)) :
    Except StoreError (InMemoryManagedDatastore τ χ δ) := do
  let txId := toString commit.txId
  let version := commit.version
  refuseIf (store.history.any (·.txId = commit.txId) = true)
    ⟨.internal, s!"duplicate transaction {txId} rejected by in-memory store"⟩
  refuseIf (store.history.any (·.version = commit.version) = true)
    ⟨.internal, s!"duplicate config version {version} rejected by in-memory store"⟩
  refuseIf (store.latest.map (·.txId) ≠ commit.parentTxId)
    ⟨.unavailable, "config write parent is not the applied latest transaction"⟩
  store.checkSuccessor commit.version
  let history ← store.resolved resolution
  return { store with
    latest := some commit
    history := history ++ [commit]
    sends := if commit.recoveryRequired then store.sends else store.sends ++ [commit.version] }

def unfence (record : StoredConfig τ χ δ) : StoredConfig τ χ δ :=
  { record with recoveryRequired := false }

def clearRecoveryRequired (txId : τ) : Except StoreError (InMemoryManagedDatastore τ χ δ) := do
  let name := toString txId
  let absent : StoreError :=
    ⟨.notFound, s!"transaction {name} not present in in-memory store for recovery update"⟩
  let history ← okOr (editFirst (·.txId = txId) unfence store.history) absent
  let record ← okOr (history.find? (·.txId = txId)) absent
  return { store with
    history
    latest := if store.latest.any (·.txId = txId) then some record else store.latest
    sends := store.sends ++ [record.version] }

/-- One outstanding notification reaches the watch channel. -/
def send (version : ℕ) : InMemoryManagedDatastore τ χ δ :=
  if version ∈ store.sends then
    { store with committedVersion := some version, sends := store.sends.erase version }
  else store

end InMemoryManagedDatastore

structure CommittedConfigHistoryEntry (τ χ : Type) where
  txId : τ
  version : ℕ
  config : χ

def maxConfigHistoryPageEntries : ℕ := 64

section Pages

variable {τ χ δ : Type} [DecidableEq τ] [ToString τ] [DecidableEq δ] (schemaDigest : χ → δ)

def validatePublicationSafeRecord (record : StoredConfig τ χ δ) : Except StoreError Unit := do
  refuseIf (record.schemaDigest ≠ schemaDigest record.config)
    ⟨.restoreSchemaMismatch, "stored running config schema digest mismatch"⟩
  refuseIf (record.recoveryRequired = true)
    ⟨.restoreRecoveryRequired, "committed config revision remains fenced from publication"⟩

def tryFromStored (record : StoredConfig τ χ δ) :
    Except StoreError (CommittedConfigHistoryEntry τ χ) := do
  validatePublicationSafeRecord schemaDigest record
  return ⟨record.txId, record.version, record.config⟩

/-- The cursor after a page whose entries are the exact successors of `cursor`. -/
def advanceCursor (cursor : ℕ) : List (CommittedConfigHistoryEntry τ χ) → Except StoreError ℕ
  | [] => .ok cursor
  | entry :: rest =>
    if nextVersion cursor ≠ some entry.version then
      .error ⟨.invalidHistorySequence, "committed config history is not the exact cursor successor"⟩
    else advanceCursor entry.version rest

/-- One page after `cursor`, with the cursor after it. -/
def loadCommittedPage (store : InMemoryManagedDatastore τ χ δ) (cursor : ℕ) :
    Except StoreError (List (CommittedConfigHistoryEntry τ χ) × ℕ) := do
  let entries ← (store.loadSince cursor maxConfigHistoryPageEntries).mapM
    (tryFromStored schemaDigest)
  let next ← advanceCursor cursor entries
  return (entries, next)

/-- The state of an open stream; `woken` holds between the end of a wait and the
page it leads to. -/
structure CommittedWatchState (τ χ : Type) where
  cursor : ℕ
  backlog : List (CommittedConfigHistoryEntry τ χ)
  repageImmediately : Bool
  woken : Bool

structure PublishedSnapshot (τ χ : Type) where
  txId : Option τ
  version : ℕ
  config : χ

/-- A consumer between two of its reads.  A recovery keeps its snapshot until
the stream behind it is open. -/
inductive Watcher (τ χ : Type)
  | recovering (known : Option ℕ)
  | opening (snapshot : Option (PublishedSnapshot τ χ)) (since : ℕ)
  | paging (snapshot : Option (PublishedSnapshot τ χ)) (since : ℕ)
  | streaming (state : CommittedWatchState τ χ)
  | ended

/-- What a read gives the consumer; the open stream of a recovery comes with its
snapshot. -/
inductive Polled (τ χ : Type)
  | opened (snapshot : Option (PublishedSnapshot τ χ))
  | yielded (entry : CommittedConfigHistoryEntry τ χ)
  | failed (error : StoreError)
  | finished
  | parked
  | working

variable (store : InMemoryManagedDatastore τ χ δ)

/-- The published head, if there is one. -/
def committedHead : Except StoreError (StoredConfig τ χ δ) := do
  let head ← okOr store.loadCommittedLatest
    ⟨.notFound, "committed config history has no applied head"⟩
  validatePublicationSafeRecord schemaDigest head
  return head

/-- The snapshot of a recovery. -/
def recoverFrom (known : Option ℕ) : Except StoreError (PublishedSnapshot τ χ) := do
  let head ← committedHead schemaDigest store
  let version := head.version
  refuseIf (known.any (version < ·) = true) ⟨.historyCursorAhead,
    s!"known config version is newer than local committed head {version}"⟩
  return ⟨some head.txId, version, head.config⟩

/-- The head check of a watch. -/
def watchHead (since : ℕ) : Except StoreError Unit := do
  let head ← committedHead schemaDigest store
  let version := head.version
  refuseIf (version < since) ⟨.historyCursorAhead,
    s!"watch cursor {since} is newer than local committed head {version}"⟩

/-- The stream at the end of a page. -/
def streamFrom (page : List (CommittedConfigHistoryEntry τ χ) × ℕ) : CommittedWatchState τ χ :=
  ⟨page.2, page.1, !page.1.isEmpty, false⟩

/-- One step of an open stream. -/
def pollStream (state : CommittedWatchState τ χ) : Polled τ χ × Watcher τ χ :=
  match state.backlog with
  | entry :: rest => (.yielded entry, .streaming { state with backlog := rest })
  | [] =>
    if state.repageImmediately || state.woken then
      match loadCommittedPage schemaDigest store state.cursor with
      | .ok page => (.working, .streaming (streamFrom page))
      | .error error => (.failed error, .ended)
    else if store.committedVersion.any (state.cursor < ·) then
      (.working, .streaming { state with woken := true })
    else (.parked, .streaming state)

/-- The next atomic action of a consumer. -/
def poll : Watcher τ χ → Polled τ χ × Watcher τ χ
  | .recovering known =>
    match recoverFrom schemaDigest store known with
    | .ok snapshot => (.working, .opening (some snapshot) snapshot.version)
    | .error error => (.failed error, .ended)
  | .opening snapshot since =>
    match watchHead schemaDigest store since with
    | .ok () =>
      if (nextVersion since).isNone then (.opened snapshot, .ended)
      else (.working, .paging snapshot since)
    | .error error => (.failed error, .ended)
  | .paging snapshot since =>
    match loadCommittedPage schemaDigest store since with
    | .ok page => (.opened snapshot, .streaming (streamFrom page))
    | .error error => (.failed error, .ended)
  | .streaming state => pollStream schemaDigest store state
  | .ended => (.finished, .ended)

end Pages

end PacketCore.ConfigBus
