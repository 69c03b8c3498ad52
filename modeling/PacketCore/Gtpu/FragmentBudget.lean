import PacketCore.Gtpu.SessionBuckets

/-!
# Identifications of inner fragments

Each destination has a budget of fragmented datagrams and a sequence of
Identifications for the atomic ones.  A sliding count of one-second bins bounds
the admissions of a destination over every replacement of the limit.
-/

namespace PacketCore.Gtpu

def u16Max : ℕ := 2 ^ 16 - 1

/-! ## Limits -/

/-- A limit that admits at most 65,535 packets within a datagram's lifetime. -/
structure GtpuInnerFragmentRateLimit where
  burst : ℕ
  refillInterval : ℕ
  burst_pos : burst ≠ 0
  interval_pos : refillInterval ≠ 0
  admits_le : burst + maximumDatagramLifetime ⌈/⌉ refillInterval ≤ u16Max

namespace GtpuInnerFragmentRateLimit

def new (burst refillInterval : ℕ) : Option GtpuInnerFragmentRateLimit :=
  if hzero : burst = 0 ∨ refillInterval = 0 then none
  else if hadmits : burst + maximumDatagramLifetime ⌈/⌉ refillInterval ≤ u16Max then
    some ⟨burst, refillInterval, fun h => hzero (.inl h), fun h => hzero (.inr h), hadmits⟩
  else none

/-- The default limit: 64 packets, and one more every 4 ms. -/
def default : GtpuInnerFragmentRateLimit :=
  ⟨64, 4 * 10 ^ 6, by decide, by decide, by decide⟩

end GtpuInnerFragmentRateLimit

/-! ## The sliding count -/

/-- Admissions by the second since `origin`, for the last 256 seconds. -/
structure FragmentLifetimeBudget where
  origin : ℕ
  second : ℕ
  bins : Fin 256 → ℕ
  total : ℕ

namespace FragmentLifetimeBudget

def new (now : ℕ) : FragmentLifetimeBudget := ⟨now, 0, fun _ => 0, 0⟩

/-- Clear the bin that the second `elapsed` reuses. -/
def expireBin (budget : FragmentLifetimeBudget) (elapsed : ℕ) : FragmentLifetimeBudget :=
  { budget with
    bins := Function.update budget.bins (Fin.ofNat 256 elapsed) 0
    total := budget.total - budget.bins (Fin.ofNat 256 elapsed) }

def expire (budget : FragmentLifetimeBudget) (second : ℕ) : FragmentLifetimeBudget :=
  if 256 ≤ second - budget.second then
    { budget with second := second, bins := fun _ => 0, total := 0 }
  else
    { (List.range' (budget.second + 1) (second - budget.second)).foldl expireBin budget with
      second := second }

def admission (budget : FragmentLifetimeBudget) (now : ℕ) : Bool × FragmentLifetimeBudget :=
  let expired := budget.expire (max ((now - budget.origin) / 10 ^ 9) budget.second)
  if u16Max ≤ expired.total then (false, expired)
  else
    (true, { expired with
      bins := Function.update expired.bins (Fin.ofNat 256 expired.second)
        (expired.bins (Fin.ofNat 256 expired.second) + 1)
      total := expired.total + 1 })

end FragmentLifetimeBudget

/-! ## Sequences -/

structure FragmentSequence where
  next : ℕ
  lifetime : FragmentLifetimeBudget

/-- `some` is the newly assigned Identification of an atomic datagram. -/
inductive InnerFragmentAdmission where
  | admitted (identification : Option ℕ)
  | rateLimited
  | capacityExhausted

namespace FragmentSequence

/-- A sequence that starts at a hashed value; zero is never assigned. -/
def seeded (hashed now : ℕ) : FragmentSequence := ⟨hashed % u16Max + 1, .new now⟩

/-- The successor of a 16-bit value, without zero. -/
def following (identification : ℕ) : ℕ :=
  if (identification + 1) % 2 ^ 16 = 0 then 1 else (identification + 1) % 2 ^ 16

def assign (sequence : FragmentSequence) (now : ℕ) (atomic : Bool) :
    FragmentSequence × InnerFragmentAdmission :=
  let counted := sequence.lifetime.admission now
  if !counted.1 then (⟨sequence.next, counted.2⟩, .rateLimited)
  else if atomic then (⟨following sequence.next, counted.2⟩, .admitted (some sequence.next))
  else (⟨sequence.next, counted.2⟩, .admitted none)

end FragmentSequence

/-! ## The budget of an attachment -/

structure InnerFragmentBudget where
  buckets : SessionBuckets FragmentSequence
  seeded : ℕ

namespace InnerFragmentBudget

def new (limit : GtpuInnerFragmentRateLimit) : InnerFragmentBudget :=
  ⟨.new limit.burst limit.refillInterval maximumDatagramLifetime, 0⟩

/-- Install another limit; sequences and counts stay. -/
def setLimit (budget : InnerFragmentBudget) (limit : GtpuInnerFragmentRateLimit) (now : ℕ) :
    InnerFragmentBudget :=
  if limit.burst = budget.buckets.burst ∧
      limit.refillInterval = budget.buckets.refillInterval then budget
  else
    { budget with
      buckets := budget.buckets.replaceLimit limit.burst limit.refillInterval now }

/-- What an admission returns; an admitted datagram goes on to the sequence that
the table handed out. -/
def handOut (seeded : ℕ) (buckets : SessionBuckets FragmentSequence) (now : ℕ) (atomic : Bool) :
    BucketAdmission → InnerFragmentBudget × InnerFragmentAdmission
  | .rateLimited => (⟨buckets, seeded⟩, .rateLimited)
  | .capacityExhausted => (⟨buckets, seeded⟩, .capacityExhausted)
  | .admitted slot =>
    match buckets.entryAt slot with
    | none => (⟨buckets, seeded⟩, .capacityExhausted)
    | some entry =>
      let assigned := entry.state.assign now atomic
      (⟨buckets.use slot fun _ => assigned.1, seeded⟩, assigned.2)

/-- Take a token for `destination` and, for an atomic datagram, its next
Identification.  `hash` is the keyed hash of the registration. -/
def admission (hash : BucketKey → ℕ → ℕ) (budget : InnerFragmentBudget) (destination : BucketKey)
    (now : ℕ) (atomic : Bool) : InnerFragmentBudget × InnerFragmentAdmission :=
  let seeded := (budget.seeded + 1) % 2 ^ 64
  let result := budget.buckets.admission destination now (.seeded (hash destination seeded) now)
  handOut seeded result.1 now atomic result.2

end InnerFragmentBudget

end PacketCore.Gtpu
