import PacketCore.Library.Loop
import PacketCore.Library.Table
import PacketCore.PeerDiscovery.Answers

/-!
# The DNS cache

One entry mixes the last good answer, its effective expiry, the last failure
with its own lifetime, a retry time and the refresh in flight.  Operations
settle an entry first: a flight past its budget becomes a timeout, and an
answer past its stale limit is dropped.
-/

namespace PacketCore.PeerDiscovery

def millis (duration : Duration) : ℕ := min (asMillis duration) (2 ^ 64 - 1)

structure DnsRetryPolicy where
  baseMs : ℕ
  maxMs : ℕ
  random : UInt64

namespace DnsRetryPolicy

def new (base most : Duration) (seed : UInt64) : DnsRetryPolicy :=
  let baseMs := min (max (millis base) 1) 300000
  { baseMs, maxMs := min (max (millis most) baseMs) 300000, random := seed }

/-- Half to all of `cap`, by the next SplitMix64 output. -/
def jitter (policy : DnsRetryPolicy) (cap : ℕ) : Duration × DnsRetryPolicy :=
  let random := policy.random + 0x9e3779b97f4a7c15
  let value := (random ^^^ (random >>> 30)) * 0xbf58476d1ce4e5b9
  let value := (value ^^^ (value >>> 27)) * 0x94d049bb133111eb
  let value := value ^^^ (value >>> 31)
  let floor := max (cap / 2) 1
  ((floor + value.toNat % (cap - floor + 1)) * 1000000, { policy with random })

def delay (policy : DnsRetryPolicy) (failures : ℕ) : Duration × DnsRetryPolicy :=
  let multiplier := 2 ^ min (failures - 1) 63
  policy.jitter (min (min (policy.baseMs * multiplier) (2 ^ 64 - 1)) policy.maxMs)

end DnsRetryPolicy

/-- The identity is the allocation that tells two refreshes apart. -/
structure Flight where
  identity : ℕ
  deadline : Time

structure Entry where
  answer : Option DnsAnswer
  expiresAt : Option Time
  lastError : Option DnsError
  retryAt : Option Time
  negativeExpiresAt : Option Time
  failures : ℕ
  flight : Option Flight

namespace Entry

/-- The entry of a key that was never refreshed. -/
def cold : Entry := ⟨none, none, none, none, none, 0, none⟩

variable (entry : Entry)

def fresh (now : Time) : Bool :=
  entry.answer.isSome && entry.expiresAt.any (now < ·)

def retained (now : Time) (maxStale : Duration) : Bool :=
  entry.answer.isSome && entry.expiresAt.any (now < deadline · maxStale)

def expireStale (now : Time) (maxStale : Duration) : Entry :=
  if !entry.fresh now && !entry.retained now maxStale then
    { entry with answer := none, expiresAt := none }
  else entry

def due (now : Time) : Bool :=
  entry.flight.isNone && !entry.fresh now && entry.retryAt.all (· ≤ now)

/-- The lifetime of a denial that is live at its publication. -/
def negativeUntil (error : DnsError) (now : Time) (maxNegativeTtl : Duration) : Option Time :=
  (error.negativeDeadline.map (min · (deadline now maxNegativeTtl))).filter (now < ·)

/-- A failed refresh.  Only an authoritative one drops the answer. -/
def failure (error : DnsError) (now : Time) (policy : DnsRetryPolicy)
    (maxNegativeTtl : Duration) : Entry × DnsRetryPolicy :=
  let answer := if error.authoritative then none else entry.answer
  let expiresAt := if error.authoritative then none else entry.expiresAt
  match negativeUntil error now maxNegativeTtl with
  | some expiry =>
    (⟨answer, expiresAt, some error, some expiry, some expiry, 0, none⟩, policy)
  | none =>
    let failures := min (entry.failures + 1) (2 ^ 32 - 1)
    let (delay, policy) := policy.delay failures
    (⟨answer, expiresAt, some error, some (deadline now delay), none, failures, none⟩, policy)

def expireFlight (now : Time) (policy : DnsRetryPolicy)
    (maxNegativeTtl : Duration) : Entry × DnsRetryPolicy :=
  match entry.flight with
  | some flight =>
    if flight.deadline ≤ now then entry.failure .timeout flight.deadline policy maxNegativeTtl
    else (entry, policy)
  | none => (entry, policy)

end Entry

inductive DnsCachedResult
  | fresh (answer : DnsAnswer)
  | stale (answer : DnsAnswer) (age : ℕ)
  | negative (error : DnsError)
  | miss
deriving DecidableEq

structure DnsCacheStatus where
  result : DnsCachedResult
  freshUntil : Option Time
  lastError : Option DnsError
  retryAt : Option Time
  refreshing : Bool

structure DnsRefreshToken (κ : Type) where
  key : κ
  identity : ℕ

inductive DnsRefresh (κ : Type)
  | start (token : DnsRefreshToken κ)
  | pending
  | suppressed

inductive DnsCacheError
  | capacity

/-- The limits stay as they were built; `allocated` counts the identities handed out. -/
structure DnsCache (κ : Type) [LinearOrder κ] where
  entries : Table κ Entry
  capacity : ℕ
  retry : DnsRetryPolicy
  maxTtl : Duration
  maxNegativeTtl : Duration
  maxStale : Duration
  refreshInterval : Duration
  allocated : ℕ

/-- The result served from an entry. -/
def Entry.served (entry : Entry) (maxStale : Duration) (now : Time) : DnsCachedResult :=
  match entry.answer.filter fun _ => entry.fresh now || entry.retained now maxStale with
  | some answer =>
    if entry.fresh now then .fresh answer
    else .stale answer (now - entry.expiresAt.getD now)
  | none =>
    match entry.lastError.filter fun _ => entry.negativeExpiresAt.any (now < ·) with
    | some error => .negative error
    | none => .miss

/-- The entry after a successful refresh.  A zero lifetime is for its own transaction only. -/
def Entry.publish (entry : Entry) (answer : DnsAnswer) (now : Time) (policy : DnsRetryPolicy)
    (maxTtl maxNegativeTtl maxStale refreshInterval : Duration) : Entry × DnsRetryPolicy :=
  let expiresAt :=
    (answer.cappedExpiresAt (deadline now maxTtl) (deadline now maxNegativeTtl)).getD now
  let cacheable := maxTtl ≠ 0 &&
    !answer.allRecords.any fun record => record.ttl = 0 || record.ttl.testBit 31
  let entry := { entry with
    answer := if cacheable then some answer else none
    expiresAt := if cacheable then some expiresAt else none }
  let entry := entry.expireStale now maxStale
  if expiresAt ≤ now then
    let (pace, policy) := policy.jitter (millis refreshInterval)
    (⟨entry.answer, entry.expiresAt, none, some (deadline now pace), none, 0, none⟩, policy)
  else (⟨entry.answer, entry.expiresAt, none, none, none, 0, none⟩, policy)

namespace DnsCache

variable {κ : Type} [LinearOrder κ]

def new (capacity : ℕ) (retry : DnsRetryPolicy) : DnsCache κ where
  entries := .empty
  capacity := max capacity 1
  retry := retry
  maxTtl := seconds (7 * 24 * 60 * 60)
  maxNegativeTtl := seconds (3 * 60 * 60)
  maxStale := seconds (24 * 60 * 60)
  refreshInterval := seconds 5
  allocated := 0

def maximalTtl : Duration := seconds 0x7fffffff

variable (cache : DnsCache κ)

def withTtlCaps (maxTtl maxNegativeTtl : Duration) : DnsCache κ :=
  let maxTtl := min maxTtl maximalTtl
  { cache with maxTtl, maxNegativeTtl := min maxNegativeTtl maxTtl }

def withStaleLimit (maxStale : Duration) : DnsCache κ :=
  { cache with maxStale := min maxStale (seconds (7 * 24 * 60 * 60)) }

def withRefreshInterval (interval : Duration) : DnsCache κ :=
  { cache with refreshInterval := min (max interval 1000000) maximalTtl }

def remove (key : κ) : Bool × DnsCache κ :=
  ((cache.entries.find key).isSome, { cache with entries := cache.entries.erase key })

def lookup (key : κ) (now : Time) : DnsCacheStatus :=
  match cache.entries.find key with
  | none => ⟨.miss, none, none, none, false⟩
  | some entry =>
    let result := entry.served cache.maxStale now
    { result
      freshUntil := match result with
        | .fresh _ | .stale _ _ => entry.expiresAt
        | _ => none
      lastError := entry.lastError
      retryAt := entry.retryAt
      refreshing := entry.flight.any (now < ·.deadline) }

/-- Both lazy expiries of one entry, in the order every mutation applies them. -/
def settle (entry : Entry) (now : Time) : Entry × DnsRetryPolicy :=
  let (entry, retry) := entry.expireFlight now cache.retry cache.maxNegativeTtl
  (entry.expireStale now cache.maxStale, retry)

def put (key : κ) (entry : Entry) (retry : DnsRetryPolicy) : DnsCache κ :=
  { cache with entries := cache.entries.insert key entry, retry }

/-- Settle the entry of one key and drop it unless `keep` holds. -/
def sweepKey (keep : Entry → Bool) (now : Time) (cache : DnsCache κ) (key : κ) : DnsCache κ :=
  match cache.entries.find key with
  | none => cache
  | some entry =>
    let (entry, retry) := cache.settle entry now
    if keep entry then cache.put key entry retry
    else { cache with entries := cache.entries.erase key, retry }

def sweep (keep : Entry → Bool) (now : Time) : DnsCache κ :=
  (ascending cache.entries.keys).foldl (sweepKey keep now) cache

/-- What stays when room is made. -/
def occupied (now : Time) (entry : Entry) : Bool :=
  entry.answer.isSome || entry.flight.isSome || entry.retryAt.any (now < ·)

/-- The admission of a refresh once there is room for the key. -/
def startRefresh (key : κ) (now : Time) (timeout : Duration) : DnsRefresh κ × DnsCache κ :=
  let (entry, retry) := cache.settle ((cache.entries.find key).getD .cold) now
  if entry.flight.isSome then (.pending, cache.put key entry retry)
  else if !entry.due now then (.suppressed, cache.put key entry retry)
  else
    let flight := ⟨cache.allocated, deadline now (max timeout 1000000)⟩
    (.start ⟨key, cache.allocated⟩,
      { cache.put key { entry with flight := some flight } retry with
        allocated := cache.allocated + 1 })

def beginRefresh (key : κ) (now : Time) (timeout : Duration) :
    Except DnsCacheError (DnsRefresh κ) × DnsCache κ :=
  let full : Bool :=
    (cache.entries.find key).isNone && decide (cache.capacity ≤ cache.entries.keys.card)
  let cache := if full then cache.sweep (occupied now) now else cache
  if full && decide (cache.capacity ≤ cache.entries.keys.card) then (.error .capacity, cache)
  else
    let (admission, cache) := cache.startRefresh key now timeout
    (.ok admission, cache)

def finishRefresh (query : κ → DnsQuery) (cache : DnsCache κ) (token : DnsRefreshToken κ)
    (result : Except DnsError DnsAnswer) (now : Time) : Bool × DnsCache κ :=
  match cache.entries.find token.key with
  | none => (false, cache)
  | some entry =>
    if !entry.flight.any (·.identity = token.identity) then (false, cache)
    else
      let (entry, retry) := cache.settle entry now
      if entry.flight.isNone then (false, cache.put token.key entry retry)
      else
        match publishedResult (query token.key) now result with
        | .ok answer =>
          let (entry, retry) := entry.publish answer now retry cache.maxTtl cache.maxNegativeTtl
            cache.maxStale cache.refreshInterval
          (true, cache.put token.key entry retry)
        | .error error =>
          let (entry, retry) := entry.failure error now retry cache.maxNegativeTtl
          (true, cache.put token.key entry retry)

def refreshDue (now : Time) : List κ × DnsCache κ :=
  let cache := cache.sweep (fun _ => true) now
  ((ascending cache.entries.keys).filter fun key =>
    (cache.entries.find key).any (·.due now), cache)

end DnsCache

end PacketCore.PeerDiscovery
