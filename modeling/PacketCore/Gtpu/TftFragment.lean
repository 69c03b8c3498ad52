import PacketCore.Gtpu.TftPacket

/-!
# Affinity of inner uplink fragments

A bucket of four slots remembers which bearer the first fragment of a datagram
selected, so that its later fragments follow.  Slots are reused once they have
expired, never before, and keep the bytes of their former datagram.  Times are
nanoseconds of the boot clock.
-/

namespace PacketCore.Gtpu

open List

def tftFragmentMaxRanges : ℕ := 64

def tftFragmentLifetimeNs : ℕ := 2000000000

/-! ## Keys -/

/-- Interface, subscriber address, addresses, Identification, protocol and a
reserved byte. -/
abbrev TftFragmentKey := List.Vector Byte 20

/-- The five little-endian words of a key. -/
def TftFragmentKey.words (key : TftFragmentKey) : List ℕ :=
  (range 5).map fun index => fromBigEndian ((key.toList.drop (4 * index)).take 4).reverse

/-- Whether two words differ anywhere, by accumulated differences. -/
def differences (left right : List ℕ) : ℕ :=
  (zipWith (fun left right => left ^^^ right) left right).foldl (fun difference word =>
    difference ||| word) 0

def TftFragmentKey.matches (left right : TftFragmentKey) : Bool :=
  differences left.words right.words == 0

/-! ## Fragments -/

/-- An interval of the original payload.  Only a fragment with more to follow
starts at zero. -/
structure TftIpv4Fragment where
  start : ℕ
  stop : ℕ
  headerLen : ℕ
  more : Bool
  header_le : headerLen ≤ 60
  start_lt : start < stop
  stop_le : stop ≤ 65535 - headerLen
  more_of_first : start = 0 → more = true

namespace TftIpv4Fragment

/-- Validate one exact envelope: version 4, at least five header words, no
trailing bytes, no reserved or don't-fragment flag, and not a whole datagram. -/
def fromHeader (versionIhl : Byte) (totalLen : Fin (2 ^ 16)) (available : ℕ)
    (fragment : Fin (2 ^ 16)) : Option TftIpv4Fragment :=
  let headerLen := versionIhl.val % 16 * 4
  -- bits 15 and 14 are reserved and don't-fragment, bit 13 is more-fragments
  if henvelope : versionIhl.val / 16 ≠ 4 ∨ headerLen < 20 ∨ totalLen.val ≠ available ∨
      totalLen.val ≤ headerLen ∨ fragment.val / 2 ^ 14 ≠ 0 ∨ fragment.val % 2 ^ 14 = 0 then none
  else
    let payloadLen := totalLen.val - headerLen
    let more := decide (fragment.val / 2 ^ 13 % 2 = 1)
    if more ∧ payloadLen % 8 ≠ 0 then none
    else
      let start := fragment.val % 2 ^ 13 * 8
      if hstop : start + payloadLen < 2 ^ 16 ∧ start + payloadLen ≤ 65535 - headerLen then
        some
          { start := start
            stop := start + payloadLen
            headerLen := headerLen
            more := more
            header_le := by omega
            start_lt := by omega
            stop_le := hstop.2
            more_of_first := by
              intro hstart
              apply decide_eq_true
              omega }
      else none

def isFirst (fragment : TftIpv4Fragment) : Bool := fragment.start == 0

end TftIpv4Fragment

/-! ## Slots -/

inductive TftFragmentDisposition where
  | absent
  | selected (mark : ℕ)
  | malformed
  | drop
  | capacity
deriving DecidableEq

/-- One packet of a run: the metadata and the classified first fragment are there
only if the caller has them. -/
structure TftFragmentPacket where
  key : TftFragmentKey
  fragment : Option TftIpv4Fragment
  classifier : Option TftClassifierMeta
  first : Option (TftClassifierIpv4Packet × ℕ)
  now : ℕ

/-- A slot; ranges from `rangeCount` on are left from earlier datagrams. -/
structure TftFragmentEntry where
  key : TftFragmentKey
  identity : List ℕ
  firstPacket : List ℕ
  expiresAt : ℕ
  mark : ℕ
  firstEnd : ℕ
  finalEnd : ℕ
  rangeCount : ℕ
  poisoned : Bool
  firstHeaderLen : ℕ
  ranges : Fin 64 → ℕ × ℕ

def identityWords (classifier : TftClassifierMeta) : List ℕ :=
  (range 9).map classifier.fragmentIdentityWord

def packetWords (packet : TftClassifierIpv4Packet) : List ℕ :=
  (range 6).map packet.fragmentPacketWord

/-- Subtraction in a 32-bit register. -/
def wrappingSub (left right : ℕ) : ℕ := (left + 2 ^ 32 - right) % 2 ^ 32

/-- The high bit of a 32-bit difference. -/
def borrow (left right : ℕ) : ℕ := wrappingSub left right / 2 ^ 31

namespace TftFragmentEntry

def empty : TftFragmentEntry where
  key := List.Vector.replicate 20 0
  identity := replicate 9 0
  firstPacket := replicate 6 0
  expiresAt := 0
  mark := 0
  firstEnd := 0
  finalEnd := 0
  rangeCount := 0
  poisoned := false
  firstHeaderLen := 0
  ranges := fun _ => (0, 0)

variable (entry : TftFragmentEntry)

def poison : TftFragmentEntry := { entry with poisoned := true }

/-- Whether the fragment clashes with a recorded range, by masks: a range counts
if it is in use, and clashes if it overlaps or ends beyond a final fragment. -/
def conflict (entry : TftFragmentEntry) (fragment : TftIpv4Fragment) : ℕ :=
  (finRange 64).foldl (fun conflict index =>
    let range := entry.ranges index
    let active := borrow index.val entry.rangeCount
    let overlap := borrow fragment.start range.2 &&& borrow range.1 fragment.stop
    let beyondFinal := borrow fragment.stop range.2
    conflict ||| (active &&& (overlap ||| ((!fragment.more).toNat &&& beyondFinal)))) 0

/-- Whether a fragment breaks the bounds that are known so far. -/
def outside (fragment : TftIpv4Fragment) : Bool :=
  let transport := entry.firstPacket.getD 4 0
  let udpEnd := transport / 2 ^ 16
  let isUdp := transport / 2 ^ 8 % 2 ^ 8 == 17
  decide (tftFragmentMaxRanges ≤ entry.rangeCount) ||
    decide (65535 - entry.firstHeaderLen < fragment.stop) ||
    (entry.finalEnd != 0 && (decide (entry.finalEnd < fragment.stop) || !fragment.more)) ||
    (isUdp && (decide (udpEnd < fragment.stop) || (fragment.more && fragment.stop == udpEnd) ||
      (!fragment.more && fragment.stop != udpEnd)))

/-- A later copy of the first fragment. -/
def repeatsFirst (fragment : TftIpv4Fragment) (first : Option (TftClassifierIpv4Packet × ℕ)) :
    Bool :=
  match first with
  | some (packet, candidate) =>
    candidate == entry.mark && differences entry.firstPacket (packetWords packet) == 0 &&
      fragment.stop == entry.firstEnd && fragment.headerLen == entry.firstHeaderLen
  | none => false

/-- Record the range of a later fragment. -/
def record (fragment : TftIpv4Fragment) : TftFragmentEntry :=
  { entry with
    ranges := Function.update entry.ranges (Fin.ofNat 64 entry.rangeCount)
      (fragment.start, fragment.stop)
    rangeCount := entry.rangeCount + 1
    finalEnd := if fragment.more then entry.finalEnd else fragment.stop }

/-- One packet of the datagram that holds the slot. -/
def accept (packet : TftFragmentPacket) : TftFragmentEntry × TftFragmentDisposition :=
  match packet.fragment with
  | none => (entry.poison, .malformed)
  | some fragment =>
    if packet.now < entry.expiresAt - tftFragmentLifetimeNs then (entry.poison, .drop)
    else
      match packet.classifier with
      | none => (entry.poison, .drop)
      | some classifier =>
        if entry.poisoned || differences entry.identity (identityWords classifier) != 0 then
          (entry.poison, .drop)
        else if fragment.isFirst then
          if entry.repeatsFirst fragment packet.first then (entry, .selected entry.mark)
          else (entry.poison, .drop)
        else if entry.outside fragment then (entry.poison, .drop)
        else if entry.conflict fragment ≠ 0 then (entry.poison, .drop)
        else (entry.record fragment, .selected entry.mark)

end TftFragmentEntry

/-- What the first fragment of a datagram writes. -/
structure TftFragmentOpening where
  key : TftFragmentKey
  identity : List ℕ
  firstPacket : List ℕ
  expiresAt : ℕ
  mark : ℕ
  firstEnd : ℕ
  firstHeaderLen : ℕ

/-- The checks of a packet that no slot knows. -/
def TftFragmentPacket.opening (packet : TftFragmentPacket) :
    Except TftFragmentDisposition TftFragmentOpening :=
  match packet.classifier with
  | none => .error .absent
  | some classifier =>
    match packet.fragment with
    | none => .error .malformed
    | some fragment =>
      if !fragment.isFirst then .error .drop
      else
        match packet.first with
        | none => .error .malformed
        | some (parsed, mark) =>
          if parsed.udpLength.any fun stop =>
              decide (stop ≤ fragment.stop ∨ 65535 - fragment.headerLen < stop) then
            .error .malformed
          else
            match checkedAdd packet.now tftFragmentLifetimeNs with
            | none => .error .drop
            | some expiresAt => .ok
              { key := packet.key
                identity := identityWords classifier
                firstPacket := packetWords parsed
                expiresAt := expiresAt
                mark := mark
                firstEnd := fragment.stop
                firstHeaderLen := fragment.headerLen }

/-- Write the live fields and the first range; the other ranges stay. -/
def TftFragmentEntry.reopen (entry : TftFragmentEntry)
    (opening : TftFragmentOpening) : TftFragmentEntry where
  key := opening.key
  identity := opening.identity
  firstPacket := opening.firstPacket
  expiresAt := opening.expiresAt
  mark := opening.mark
  firstEnd := opening.firstEnd
  finalEnd := 0
  rangeCount := 1
  poisoned := false
  firstHeaderLen := opening.firstHeaderLen
  ranges := Function.update entry.ranges 0 (0, opening.firstEnd)

/-! ## Buckets -/

structure TftFragmentBucket where
  entries : Fin 4 → TftFragmentEntry

namespace TftFragmentBucket

def new : TftFragmentBucket := ⟨fun _ => .empty⟩

variable (bucket : TftFragmentBucket)

def set (index : Fin 4) (entry : TftFragmentEntry) : TftFragmentBucket :=
  ⟨Function.update bucket.entries index entry⟩

/-- Look at one slot: remember the first expired one, and the one of the key. -/
def look (key : TftFragmentKey) (now : ℕ) (found : Option (Fin 4) × Option (Fin 4))
    (index : Fin 4) : Option (Fin 4) × Option (Fin 4) :=
  if (bucket.entries index).expiresAt ≤ now then
    (found.1, if found.2.isNone then some index else found.2)
  else if (bucket.entries index).key.matches key then (some index, found.2)
  else found

/-- The live slot of the key, and the first expired slot. -/
def scan (key : TftFragmentKey) (now : ℕ) : Option (Fin 4) × Option (Fin 4) :=
  (finRange 4).foldl (bucket.look key now) (none, none)

def apply (packet : TftFragmentPacket) : TftFragmentBucket × TftFragmentDisposition :=
  match bucket.scan packet.key packet.now with
  | (some index, _) =>
    let result := (bucket.entries index).accept packet
    (bucket.set index result.1, result.2)
  | (none, available) =>
    match packet.opening with
    | .error disposition => (bucket, disposition)
    | .ok opening =>
      match available with
      | none => (bucket, .capacity)
      | some index => (bucket.set index ((bucket.entries index).reopen opening),
          .selected opening.mark)

end TftFragmentBucket

end PacketCore.Gtpu
