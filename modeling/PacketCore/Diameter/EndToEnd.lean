import PacketCore.Library.Loop
import PacketCore.Library.Table

/-!
# End-to-End identifiers

One authority allocates the End-to-End identifiers of one Origin-Host.  An
identifier is the low twelve bits of the wall-clock second followed by a twenty
bit sequence; identifiers of the last four minutes are kept in an ordered queue
and in a map, and a candidate that is still protected is skipped.
-/

namespace PacketCore.Diameter

/-- Four minutes, in nanoseconds of the monotonic clock. -/
def identifierFence : ℕ := 240 * 10 ^ 9

/-- One coherent observation of the clock. -/
structure IdentifierTime where
  unixSeconds : ℕ
  monotonic : ℕ

inductive IdentifierError
  | clockUnavailable
  | monotonicClockMovedBackward
  | wallClockMovedBackward
  | restartFenceActive
  | recentWindowExhausted
  | stateUnavailable
deriving DecidableEq

/-- The bound on retained identifiers. -/
structure IdentifierConfig where
  maxRecentIdentifiers : ℕ
  positive : 0 < maxRecentIdentifiers
  bounded : maxRecentIdentifiers ≤ 2 ^ 20

structure RecentIdentifier where
  identifier : ℕ
  allocatedAt : ℕ

/-- The entry no longer protects its identifier. -/
def RecentIdentifier.expired (entry : RecentIdentifier) (now : ℕ) : Bool :=
  identifierFence ≤ now - entry.allocatedAt

structure AuthorityState where
  lastUnixSeconds : ℕ
  lastMonotonic : ℕ
  sequenceSecond : ℕ
  nextSequence : Fin (2 ^ 20)
  restartAfterSecond : Option ℕ
  recentOrder : List RecentIdentifier
  recent : Table ℕ ℕ

/-- The identifier of a second and a sequence number. -/
def candidate (unixSeconds : ℕ) (sequence : Fin (2 ^ 20)) : ℕ :=
  unixSeconds % 2 ^ 12 * 2 ^ 20 + sequence.val

/-- Try candidates one after the other; gives the first free one and the
sequence number after it. -/
def selectCandidate (isProtected : ℕ → Bool) (unixSeconds : ℕ) :
    ℕ → Fin (2 ^ 20) → Option (ℕ × Fin (2 ^ 20))
  | 0, _ => none
  | attempts + 1, sequence =>
    if isProtected (candidate unixSeconds sequence) then
      selectCandidate isProtected unixSeconds attempts (sequence + 1)
    else some (candidate unixSeconds sequence, sequence + 1)

/-- Pop expired entries off the front of the queue and drop them from the map. -/
def expireRecent (now : ℕ) : List RecentIdentifier → Table ℕ ℕ → List RecentIdentifier × Table ℕ ℕ
  | [], recent => ([], recent)
  | entry :: rest, recent =>
    if entry.expired now then expireRecent now rest (recent.erase entry.identifier)
    else (entry :: rest, recent)

namespace AuthorityState

def new (now : IdentifierTime) : AuthorityState where
  lastUnixSeconds := now.unixSeconds
  lastMonotonic := now.monotonic
  sequenceSecond := now.unixSeconds
  nextSequence := 0
  restartAfterSecond := some now.unixSeconds
  recentOrder := []
  recent := .empty

/-- Keep every coherent observation, whatever the later checks say. -/
def observeTime (state : AuthorityState) (now : IdentifierTime) :
    Except IdentifierError AuthorityState := do
  refuseIf (now.monotonic < state.lastMonotonic) .monotonicClockMovedBackward
  refuseIf (now.unixSeconds < state.lastUnixSeconds) .wallClockMovedBackward
  return { state with lastUnixSeconds := now.unixSeconds, lastMonotonic := now.monotonic }

def expiredCount (state : AuthorityState) (now : ℕ) : ℕ :=
  (state.recentOrder.takeWhile (·.expired now)).length

def isProtected (state : AuthorityState) (now identifier : ℕ) : Bool :=
  (state.recent.find identifier).any fun allocatedAt => now - allocatedAt < identifierFence

/-- Entries that still protect an identifier. -/
def effectiveRecentCount (state : AuthorityState) (now : ℕ) : ℕ :=
  state.recentOrder.length - state.expiredCount now

/-- The part of `allocate` after the observation. -/
def grant (config : IdentifierConfig) (state : AuthorityState)
    (now : IdentifierTime) : Except IdentifierError (AuthorityState × ℕ) := do
  refuseIf (∃ second ∈ state.restartAfterSecond, now.unixSeconds ≤ second) .restartFenceActive
  let recentCount := state.effectiveRecentCount now.monotonic
  refuseIf (config.maxRecentIdentifiers ≤ recentCount) .recentWindowExhausted
  let sequence := if state.sequenceSecond = now.unixSeconds then state.nextSequence else 0
  let selected ← okOr (selectCandidate (state.isProtected now.monotonic) now.unixSeconds
    (recentCount + 1) sequence) .stateUnavailable
  let kept := expireRecent now.monotonic state.recentOrder state.recent
  return ({ state with
    restartAfterSecond := none
    sequenceSecond := now.unixSeconds
    nextSequence := selected.2
    recent := kept.2.insert selected.1 now.monotonic
    recentOrder := kept.1 ++ [⟨selected.1, now.monotonic⟩] }, selected.1)

/-- One call under the lock; the clock may be unavailable. -/
def allocate (config : IdentifierConfig) (state : AuthorityState)
    (clock : Option IdentifierTime) : AuthorityState × Except IdentifierError ℕ :=
  match clock with
  | none => (state, .error .clockUnavailable)
  | some now =>
    match state.observeTime now with
    | .error fault => (state, .error fault)
    | .ok observed =>
      match observed.grant config now with
      | .error fault => (observed, .error fault)
      | .ok (next, identifier) => (next, .ok identifier)

end AuthorityState

end PacketCore.Diameter
