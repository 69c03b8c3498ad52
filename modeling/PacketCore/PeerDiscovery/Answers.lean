import PacketCore.Library.Word

/-!
# Answers and failures of a DNS refresh

Times are milliseconds of one monotonic clock, durations are nanoseconds.  An
absolute deadline that does not fit the clock falls back to its start, so
overflow never makes an answer immortal.
-/

namespace PacketCore.PeerDiscovery

abbrev Time := ℕ

abbrev Duration := ℕ

def asMillis (duration : Duration) : ℕ := duration / 1000000

def seconds (count : ℕ) : Duration := count * 1000000000

def deadline (now : Time) (duration : Duration) : Time :=
  (checkedAdd now (asMillis duration)).getD now

theorem deadline_le (now : Time) (duration : Duration) :
    deadline now duration ≤ now + asMillis duration := by
  unfold deadline
  cases hadd : checkedAdd now (asMillis duration) with
  | none => exact Nat.le_add_right _ _
  | some => exact (checkedAdd_eq_some hadd).le

inductive AddressFamilyPolicy
  | dualStack
  | ipv4Only
  | ipv6Only

inductive IpAddr
  | v4 (address : Fin (2 ^ 32))
  | v6 (address : Fin (2 ^ 128))
deriving DecidableEq

def IpAddr.isIpv4 : IpAddr → Bool
  | .v4 _ => true
  -- the mapped block ::ffff:0:0/96
  | .v6 address => address.val / 2 ^ 32 = 0xffff

def AddressFamilyPolicy.accepts : AddressFamilyPolicy → IpAddr → Bool
  | .dualStack, _ => true
  | .ipv4Only, address => address.isIpv4
  | .ipv6Only, address => !address.isIpv4

inductive ServiceDiscoveryMode
  | address
  | service
  | snaptr
deriving DecidableEq

inductive PeerTransport
  | udp
  | tcp
  | sctp
deriving DecidableEq

inductive SnaptrOrdering
  | rfc3958
  | threeGpp
deriving DecidableEq

structure SnaptrFilter where
  service : String
  protocol : String
  ordering : SnaptrOrdering
deriving DecidableEq

/-- The parts of a query that a publication is checked against. -/
structure DnsQuery where
  name : String
  mode : ServiceDiscoveryMode
  transport : PeerTransport
  addressFamily : AddressFamilyPolicy
  snaptrFilter : Option SnaptrFilter

structure DnsRecord where
  ttl : ℕ
  observedAt : Time
deriving DecidableEq

/-- A lifetime with its high bit set counts as zero. -/
def recordTtl (ttl : ℕ) : Duration := if ttl.testBit 31 then 0 else seconds ttl

def DnsRecord.expiresAt (record : DnsRecord) : Time :=
  deadline record.observedAt (recordTtl record.ttl)

structure SnaptrProvenance where
  origin : String
  filter : SnaptrFilter
  paths : List (List DnsRecord)
deriving DecidableEq

structure SrvProvenance where
  origin : String
  paths : List (List DnsRecord)
deriving DecidableEq

structure DnsCandidate where
  endpoint : IpAddr
  transport : PeerTransport
  records : Option (List DnsRecord)
  snaptr : Option SnaptrProvenance
  srv : Option SrvProvenance
deriving DecidableEq

/-- The chain in use and every alternate path. -/
def DnsCandidate.allRecords (candidate : DnsCandidate) : List DnsRecord :=
  candidate.records.getD [] ++ (candidate.snaptr.toList.flatMap (·.paths)).flatten ++
    (candidate.srv.toList.flatMap (·.paths)).flatten

structure DnsAnswer where
  candidates : List DnsCandidate
  freshnessBound : Option Time
  negativeFreshnessBound : Option Time
deriving DecidableEq

namespace DnsAnswer

def allRecords (answer : DnsAnswer) : List DnsRecord :=
  answer.candidates.flatMap (·.allRecords)

/-- The earliest record expiry under the resolver's bounds; unknown as soon as one candidate
carries no records. -/
def expiresAt (answer : DnsAnswer) : Option Time :=
  if answer.candidates.any (·.records.isNone) then none
  else
    ((answer.allRecords.map DnsRecord.expiresAt).min?).map fun expiry =>
      (answer.freshnessBound.toList ++ answer.negativeFreshnessBound.toList).foldl min expiry

def cappedExpiresAt (answer : DnsAnswer) (positiveCap negativeCap : Time) : Option Time :=
  answer.expiresAt.map fun expiry =>
    if answer.negativeFreshnessBound.isSome then min (min expiry positiveCap) negativeCap
    else min expiry positiveCap

theorem foldl_min_le (bounds : List Time) (expiry : Time) : bounds.foldl min expiry ≤ expiry := by
  induction bounds generalizing expiry with
  | nil => exact le_rfl
  | cons _ _ ih => exact (ih _).trans (min_le_left _ _)

variable {answer : DnsAnswer} {expiry : Time}

theorem expiresAt_le (hexpires : answer.expiresAt = some expiry) {record : DnsRecord}
    (hrecord : record ∈ answer.allRecords) : expiry ≤ record.expiresAt := by
  unfold expiresAt at hexpires
  split at hexpires
  case isTrue => cases hexpires
  case isFalse =>
    obtain ⟨_, hmin, rfl⟩ := Option.map_eq_some_iff.mp hexpires
    have hle := (List.min?_eq_some_iff.mp hmin).2 _ (List.mem_map_of_mem hrecord)
    exact (foldl_min_le _ _).trans hle

theorem cappedExpiresAt_le {positiveCap negativeCap : Time}
    (hexpires : answer.cappedExpiresAt positiveCap negativeCap = some expiry) :
    expiry ≤ positiveCap ∧ ∀ record ∈ answer.allRecords, expiry ≤ record.expiresAt := by
  obtain ⟨uncapped, huncapped, rfl⟩ := Option.map_eq_some_iff.mp hexpires
  have hrecords : ∀ record ∈ answer.allRecords, uncapped ≤ record.expiresAt :=
    fun record hrecord => expiresAt_le huncapped hrecord
  have hle : ∀ capped, capped ≤ min uncapped positiveCap →
      capped ≤ positiveCap ∧ ∀ record ∈ answer.allRecords, capped ≤ record.expiresAt := by
    intro capped hcapped
    refine ⟨hcapped.trans (min_le_right _ _), ?_⟩
    intro record hrecord
    exact (hcapped.trans (min_le_left _ _)).trans (hrecords _ hrecord)
  split
  · exact hle _ (min_le_left _ _)
  · exact hle _ le_rfl

end DnsAnswer

structure NegativeSoa where
  recordTtl : ℕ
  minimum : ℕ
  observedAt : Time
  chainExpiresAt : Option Time
deriving DecidableEq

def NegativeSoa.ttl (soa : NegativeSoa) : Duration :=
  min (PeerDiscovery.recordTtl soa.recordTtl) (PeerDiscovery.recordTtl soa.minimum)

def NegativeSoa.expiresAt (soa : NegativeSoa) : Time :=
  let expiresAt := deadline soa.observedAt soa.ttl
  soa.chainExpiresAt.elim expiresAt (min · expiresAt)

inductive SnaptrNoMatch
  | extendedPresentNoMatch
  | legacyOnly
  | notAdvertised
  | serviceNotOffered
  | malformedRequestedService
deriving DecidableEq

inductive SnaptrFailure
  | unsupportedFlag
  | regexpNotEmpty
  | malformedService
  | invalidReplacement
  | loop
  | depthLimit
  | provenanceLimit
  | noMatchingService (kind : SnaptrNoMatch)
  | noUsablePath
deriving DecidableEq

inductive DnsError
  | invalidQuery
  | nxDomain (soa : Option NegativeSoa)
  | noData (soa : Option NegativeSoa)
  | timeout
  | servFail
  | refused
  | busy
  | serviceUnavailable (expiresAt : Time)
  | snaptr (reason : SnaptrFailure) (expiresAt : Option Time)
  | limitExceeded
  | transport
  | malformedAnswer
  | sourceUnavailable
  | unavailable
  | legacyNotFound
deriving DecidableEq

namespace DnsError

def soa : DnsError → Option NegativeSoa
  | .nxDomain soa | .noData soa => soa
  | _ => none

def negativeDeadline : DnsError → Option Time
  | .serviceUnavailable expiresAt => some expiresAt
  | .snaptr (.noMatchingService kind) expiresAt =>
    if kind ≠ .malformedRequestedService then expiresAt else none
  | error => error.soa.map NegativeSoa.expiresAt

/-- A denial that replaces a positive answer. -/
def authoritative : DnsError → Bool
  | .nxDomain _ | .noData _ | .serviceUnavailable _ => true
  | .snaptr (.noMatchingService kind) _ => kind ≠ .malformedRequestedService
  | _ => false

end DnsError

/-- A candidate that no resolver working for this query could have produced by `now`. -/
def DnsCandidate.malformed (candidate : DnsCandidate) (query : DnsQuery) (now : Time) : Bool :=
  !query.addressFamily.accepts candidate.endpoint ||
    candidate.allRecords.any (fun record => now < record.observedAt) ||
    candidate.snaptr.any (fun provenance =>
      provenance.origin ≠ query.name || some provenance.filter ≠ query.snaptrFilter ||
        candidate.transport ≠ query.transport) ||
    candidate.srv.any (fun provenance =>
      provenance.origin ≠ query.name || query.mode ≠ .service ||
        candidate.transport ≠ query.transport)

/-- What is published for the result of a refresh. -/
def publishedResult (query : DnsQuery) (now : Time) :
    Except DnsError DnsAnswer → Except DnsError DnsAnswer
  | .error error =>
    if error.soa.any (fun soa => now < soa.observedAt) then .error .malformedAnswer
    else .error error
  | .ok answer =>
    if answer.candidates.any (·.malformed query now) then .error .malformedAnswer
    else .ok answer

end PacketCore.PeerDiscovery
