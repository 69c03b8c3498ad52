import PacketCore.Library.Links
import PacketCore.Library.Table
import PacketCore.Library.Word

/-!
# Token buckets of tracked sessions

Each tracked key has a lazily refilled token bucket and a piece of state in a
reusable slot.  The slots are threaded by use, and only the least recently used
one is reclaimed, once it is past its grace and has refilled completely.  Times
are nanoseconds of one monotonic clock.
-/

namespace PacketCore.Gtpu

def u32Max : ℕ := 2 ^ 32 - 1

/-! ## Buckets -/

structure TokenBucket where
  tokens : ℕ
  lastRefill : ℕ

namespace TokenBucket

variable (bucket : TokenBucket)

/-- Restore one token for each whole interval since the last refill. -/
def refill (burst refillInterval now : ℕ) : TokenBucket :=
  let intervals := (now - bucket.lastRefill) / max refillInterval 1
  if 0 < intervals then
    -- the conversion to 32 bits saturates; the advance never exceeds the time elapsed
    let restored := min intervals u32Max
    { tokens := min (min (bucket.tokens + restored) u32Max) burst
      lastRefill := min (bucket.lastRefill + refillInterval * restored) now }
  else bucket

/-- Take one token, if there is one. -/
def admission (burst refillInterval now : ℕ) : Bool × TokenBucket :=
  let refilled := bucket.refill burst refillInterval now
  if refilled.tokens = 0 then (false, refilled)
  else (true, { refilled with tokens := refilled.tokens - 1 })

/-- Carry the bucket over to another burst: it keeps what it earned, up to the new
burst, and time already elapsed earns nothing at the new rate. -/
def reshape (burst refillInterval newBurst now : ℕ) : TokenBucket :=
  let refilled := bucket.refill burst refillInterval now
  ⟨min refilled.tokens newBurst, max refilled.lastRefill now⟩

end TokenBucket

/-! ## The table -/

/-- A TEID or an IPv4 address. -/
abbrev BucketKey := List.Vector Byte 4

structure BucketEntry (T : Type*) where
  key : BucketKey
  bucket : TokenBucket
  lastUse : ℕ
  state : T
  older : Option ℕ
  newer : Option ℕ

def packetTooBigTrackedSessions : ℕ := 4096

/-- How long a datagram may live, and so how long an idle key is kept. -/
def maximumDatagramLifetime : ℕ := 255 * 10 ^ 9

/-- `free` is a stack; its last pushed slot comes first. -/
structure SessionBuckets (T : Type*) where
  burst : ℕ
  refillInterval : ℕ
  evictionGrace : ℕ
  entries : List (Option (BucketEntry T))
  free : List ℕ
  index : Table BucketKey ℕ
  head : Option ℕ
  tail : Option ℕ

/-- An admitted key is returned by its slot, through which its state is changed. -/
inductive BucketAdmission where
  | admitted (slot : ℕ)
  | rateLimited
  | capacityExhausted

namespace SessionBuckets

variable {T : Type*}

def new (burst refillInterval evictionGrace : ℕ) : SessionBuckets T where
  burst := burst
  refillInterval := refillInterval
  evictionGrace := evictionGrace
  entries := []
  free := []
  index := .empty
  head := none
  tail := none

variable (table : SessionBuckets T)

def entryAt (slot : ℕ) : Option (BucketEntry T) :=
  table.entries[slot]?.join

def modifyEntry (slot : ℕ) (change : BucketEntry T → BucketEntry T) : SessionBuckets T :=
  { table with entries := table.entries.modify slot (Option.map change) }

def mapEntries (change : BucketEntry T → BucketEntry T) : SessionBuckets T :=
  { table with entries := table.entries.map (Option.map change) }

def tracked : ℕ := table.index.keys.card

/-- Let the newer neighbour, or else the head, point to `older`. -/
def pointOlder (newer older : Option ℕ) : SessionBuckets T :=
  match newer with
  | some newer => table.modifyEntry newer fun neighbour => { neighbour with older := older }
  | none => { table with head := older }

/-- Let the older neighbour, or else the tail, point to `newer`. -/
def pointNewer (older newer : Option ℕ) : SessionBuckets T :=
  match older with
  | some older => table.modifyEntry older fun neighbour => { neighbour with newer := newer }
  | none => { table with tail := newer }

def setLinks (slot : ℕ) (newer older : Option ℕ) : SessionBuckets T :=
  table.modifyEntry slot fun entry => { entry with newer := newer, older := older }

/-- Detach `slot` from the list of uses. -/
def unlink (slot : ℕ) : SessionBuckets T :=
  match table.entryAt slot with
  | none => table
  | some entry =>
    ((table.setLinks slot none none).pointOlder entry.newer entry.older).pointNewer entry.older
      entry.newer

/-- Let the former head, if any, point back to `slot`. -/
def pointBack (head : Option ℕ) (slot : ℕ) : SessionBuckets T :=
  match head with
  | some head => table.modifyEntry head fun entry => { entry with newer := some slot }
  | none => table

/-- Attach `slot` as the most recently used. -/
def linkFront (slot : ℕ) : SessionBuckets T :=
  let joined := (table.setLinks slot none table.head).pointBack table.head slot
  { joined with head := some slot, tail := joined.tail.or (some slot) }

def touch (slot : ℕ) : SessionBuckets T :=
  (table.unlink slot).linkFront slot

/-- Remove the least recently used slot; its grace was checked. -/
def evictTail : SessionBuckets T :=
  match table.tail with
  | none => table
  | some tail =>
    let unlinked := table.unlink tail
    match unlinked.entryAt tail with
    | none => unlinked
    | some entry =>
      { unlinked with
        entries := unlinked.entries.set tail none
        index := unlinked.index.erase entry.key
        free := tail :: unlinked.free }

/-- Write a new entry into the slot freed last, or else a new one, and index it. -/
def place (entry : BucketEntry T) : ℕ × SessionBuckets T :=
  match table.free with
  | slot :: free =>
    (slot, { table with
      entries := table.entries.set slot (some entry)
      free := free
      index := table.index.insert entry.key slot })
  | [] =>
    (table.entries.length, { table with
      entries := table.entries ++ [some entry]
      index := table.index.insert entry.key table.entries.length })

/-- Track a new key with a full bucket. -/
def insert (key : BucketKey) (now : ℕ) (init : T) : ℕ × SessionBuckets T :=
  let placed := table.place
    { key := key, bucket := ⟨table.burst, now⟩, lastUse := now, state := init,
      older := none, newer := none }
  (placed.1, placed.2.linkFront placed.1)

/-- Whether the oldest key is past its grace and has its whole budget back. -/
def tailIsEvictable (now : ℕ) : Bool × SessionBuckets T :=
  match table.tail with
  | none => (false, table)
  | some tail =>
    match table.entryAt tail with
    | none => (false, table)
    | some entry =>
      if now - entry.lastUse < table.evictionGrace then (false, table)
      else
        let bucket := entry.bucket.refill table.burst table.refillInterval now
        (bucket.tokens == table.burst,
          table.modifyEntry tail fun entry => { entry with bucket := bucket })

/-- Take one token from the bucket in `slot`. -/
def take (slot now : ℕ) (change : BucketEntry T → BucketEntry T) :
    SessionBuckets T × BucketAdmission :=
  match table.entryAt slot with
  | none => (table, .capacityExhausted)
  | some entry =>
    let result := entry.bucket.admission table.burst table.refillInterval now
    (table.modifyEntry slot fun entry => { change entry with bucket := result.2 },
      if result.1 then .admitted slot else .rateLimited)

/-- Track a new key and take its first token. -/
def create (key : BucketKey) (now : ℕ) (init : T) : SessionBuckets T × BucketAdmission :=
  let inserted := table.insert key now init
  inserted.2.take inserted.1 now id

def admission (key : BucketKey) (now : ℕ) (init : T) : SessionBuckets T × BucketAdmission :=
  match table.index.find key with
  | some slot => (table.touch slot).take slot now fun entry =>
    { entry with lastUse := max entry.lastUse now }
  | none =>
    if packetTooBigTrackedSessions ≤ table.tracked then
      let checked := table.tailIsEvictable now
      if checked.1 then checked.2.evictTail.create key now init
      else (checked.2, .capacityExhausted)
    else table.create key now init

/-- Change the state that was handed out for `slot`. -/
def use (slot : ℕ) (change : T → T) : SessionBuckets T :=
  table.modifyEntry slot fun entry => { entry with state := change entry.state }

/-- Apply another bucket shape; no key gains tokens by it. -/
def replaceLimit (burst refillInterval now : ℕ) : SessionBuckets T :=
  if burst = table.burst ∧ refillInterval = table.refillInterval then table
  else
    { table.mapEntries fun entry =>
        { entry with
          bucket := entry.bucket.reshape table.burst table.refillInterval burst now } with
      burst := burst
      refillInterval := refillInterval }

end SessionBuckets

end PacketCore.Gtpu
