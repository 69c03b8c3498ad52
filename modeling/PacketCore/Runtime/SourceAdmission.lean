import PacketCore.Library.Table
import PacketCore.Library.Word

/-!
# Admission by source

Each shard keeps a token bucket for its recent sources and a queue of their
accesses, which is cleaned only as far as an eviction needs it.  The victim is the
source whose last access is oldest, but the queue grows with every call.  Times are
nanoseconds of one monotonic clock.
-/

namespace PacketCore.Runtime

open List

/-- `refillTokens` are added every `refillInterval`, up to `burstTokens`. -/
structure SourceTokenBucketPolicy where
  refillTokens : ℕ
  refillInterval : ℕ
  burstTokens : ℕ
  maxEntries : ℕ
  shardCount : ℕ
  nonzero : 0 < refillTokens ∧ 0 < refillInterval ∧ 0 < burstTokens ∧ 0 < shardCount
  shards_le : shardCount ≤ maxEntries

inductive SourceAdmissionDecision
  | allowed
  | firstThrottled
  | throttled

structure BucketState where
  tokens : ℕ
  lastRefill : ℕ
  lastAccessSequence : ℕ
  throttled : Bool

namespace BucketState

variable (policy : SourceTokenBucketPolicy) (bucket : BucketState) (now : ℕ)

def new : BucketState := ⟨policy.burstTokens, now, 0, false⟩

def refill : BucketState :=
  if now < bucket.lastRefill then bucket
  else
    let intervals := (now - bucket.lastRefill) / policy.refillInterval
    if intervals = 0 then bucket
    else
      -- the products saturate at 128 bits
      let refill := min (min (intervals * policy.refillTokens) (2 ^ 128 - 1)) (2 ^ 32 - 1)
      let advanced := min (intervals * policy.refillInterval) (2 ^ 128 - 1)
      { bucket with
        tokens := min (min (bucket.tokens + refill) (2 ^ 32 - 1)) policy.burstTokens
        lastRefill := if advanced < 2 ^ 64 then bucket.lastRefill + advanced else now }

def admission : BucketState × SourceAdmissionDecision :=
  let bucket := bucket.refill policy now
  if 0 < bucket.tokens then
    ({ bucket with tokens := bucket.tokens - 1, throttled := false }, .allowed)
  else if bucket.throttled then (bucket, .throttled)
  else ({ bucket with throttled := true }, .firstThrottled)

end BucketState

variable {K : Type*} [DecidableEq K]

/-- `accessOrder` keeps earlier accesses of a key beside its last one. -/
structure ShardState (K : Type*) [DecidableEq K] where
  entries : Table K BucketState
  accessOrder : List (K × ℕ)
  nextSequence : ℕ

namespace ShardState

def evictOne (entries : Table K BucketState) : List (K × ℕ) → Table K BucketState × List (K × ℕ)
  | [] => (entries, [])
  | (key, sequence) :: rest =>
    if ∃ bucket ∈ entries.find key, bucket.lastAccessSequence = sequence then
      (entries.erase key, rest)
    else evictOne entries rest

variable (policy : SourceTokenBucketPolicy) (capacity : ℕ) (state : ShardState K)

/-- Drop the victim if a new key finds no room. -/
def makeRoom (key : K) : Table K BucketState × List (K × ℕ) :=
  if state.entries.find key = none ∧ capacity ≤ state.entries.keys.card then
    evictOne state.entries state.accessOrder
  else (state.entries, state.accessOrder)

def admission (key : K) (now : ℕ) : ShardState K × SourceAdmissionDecision :=
  let sequence := saturatingAdd state.nextSequence 1
  let (entries, accessOrder) := state.makeRoom capacity key
  let (bucket, decision) :=
    ((state.entries.find key).getD (.new policy now)).admission policy now
  (⟨entries.insert key { bucket with lastAccessSequence := sequence },
    accessOrder ++ [(key, sequence)], sequence⟩, decision)

/-- Sequence numbers go on. -/
def clear : ShardState K := { state with entries := .empty, accessOrder := [] }

/-- What a shard keeps in memory: its entries and its queue. -/
def retained : ℕ := state.entries.keys.card + state.accessOrder.length

end ShardState

/-- One shard for each remainder of the hash of a key. -/
abbrev SourceTokenBucket (K : Type*) [DecidableEq K] (policy : SourceTokenBucketPolicy) :=
  Fin policy.shardCount → ShardState K

namespace SourceTokenBucket

variable {policy : SourceTokenBucketPolicy} (hash : K → ℕ)

def new : SourceTokenBucket K policy := fun _ => ⟨.empty, [], 0⟩

/-- The remainder of the division goes to the first shards. -/
def capacity (index : Fin policy.shardCount) : ℕ :=
  policy.maxEntries / policy.shardCount +
    if index.val < policy.maxEntries % policy.shardCount then 1 else 0

def shardIndex (key : K) : Fin policy.shardCount :=
  ⟨hash key % policy.shardCount, Nat.mod_lt _ policy.nonzero.2.2.2⟩

def admission (shards : SourceTokenBucket K policy) (key : K) (now : ℕ) :
    SourceTokenBucket K policy × SourceAdmissionDecision :=
  let index := shardIndex hash key
  let (state, decision) := (shards index).admission policy (capacity index) key now
  (Function.update shards index state, decision)

inductive Call (K : Type*)
  | admission (key : K) (now : ℕ)
  | clear

def step (shards : SourceTokenBucket K policy) : Call K → SourceTokenBucket K policy
  | .admission key now => (shards.admission hash key now).1
  | .clear => fun index => (shards index).clear

def run (policy : SourceTokenBucketPolicy) (calls : List (Call K)) : SourceTokenBucket K policy :=
  calls.foldl (step hash) new

/-- The keys admitted to a shard, in the order of the calls. -/
def history (index : Fin policy.shardCount) (calls : List (Call K)) : List K :=
  calls.filterMap fun call => match call with
    | .admission key _ => if shardIndex hash key = index then some key else none
    | .clear => none

end SourceTokenBucket

namespace ShardState

variable {policy : SourceTokenBucketPolicy} {capacity : ℕ} {state : ShardState K}
  {entries : Table K BucketState} {accessOrder : List (K × ℕ)} {past : List K} {key : K}

/-- Every entry has its last access in the queue. -/
def Queued (entries : Table K BucketState) (accessOrder : List (K × ℕ)) : Prop :=
  ∀ key bucket, entries.find key = some bucket → (key, bucket.lastAccessSequence) ∈ accessOrder

/-- The first access in the queue that is the last of an entry decides the victim. -/
theorem evictOne_spec (hqueued : Queued entries accessOrder) (hsome : entries.keys.Nonempty) :
    ∃ stale victim bucket rest, entries.find victim = some bucket ∧
      accessOrder = stale ++ (victim, bucket.lastAccessSequence) :: rest ∧
      evictOne entries accessOrder = (entries.erase victim, rest) ∧
      Queued (entries.erase victim) rest := by
  induction accessOrder with
  | nil =>
    obtain ⟨key, hkey⟩ := hsome
    obtain ⟨bucket, hfind⟩ := Table.mem_keys.mp hkey
    cases hqueued key bucket hfind
  | cons access rest ih =>
    obtain ⟨victim, sequence⟩ := access
    rw [evictOne]
    split
    · next hlive =>
      obtain ⟨bucket, hfind, rfl⟩ := hlive
      refine ⟨[], victim, bucket, rest, hfind, rfl, rfl, ?_⟩
      intro key other hother
      rw [Table.find_erase] at hother
      split at hother
      · cases hother
      · next hkey =>
        refine (mem_cons.mp (hqueued key other hother)).resolve_left fun hhead => ?_
        exact hkey (Prod.mk.inj hhead).1
    · next hstale =>
      have hrest : Queued entries rest := by
        intro key bucket hfind
        refine (mem_cons.mp (hqueued key bucket hfind)).resolve_left fun hhead => hstale ?_
        obtain ⟨rfl, rfl⟩ := Prod.mk.inj hhead
        exact ⟨bucket, hfind, rfl⟩
      obtain ⟨stale, other, bucket, left, hfind, rfl, hevict⟩ := ih hrest
      exact ⟨(victim, sequence) :: stale, other, bucket, left, hfind, rfl, hevict⟩

/-- An access number tells where in the past of a shard a key was last admitted. -/
structure Numbered (past : List K) (state : ShardState K) : Prop where
  next : state.nextSequence = past.length
  sorted : state.accessOrder.Pairwise (·.2 < ·.2)
  bounded : ∀ access ∈ state.accessOrder, access.2 ≤ past.length
  recent : ∀ key bucket, state.entries.find key = some bucket → ∃ index,
    bucket.lastAccessSequence = index + 1 ∧ past[index]? = some key ∧ key ∉ past.drop (index + 1)

/-- The numbers are exact until they saturate. -/
structure Sound (capacity : ℕ) (past : List K) (state : ShardState K) : Prop where
  queued : Queued state.entries state.accessOrder
  fits : state.entries.keys.card ≤ capacity
  numbered : past.length < 2 ^ 64 → state.Numbered past

/-- What making room leaves, and what it takes. -/
theorem makeRoom_spec (hsound : state.Sound capacity past) (hcapacity : 0 < capacity) (key : K) :
    ∃ entries accessOrder, state.makeRoom capacity key = (entries, accessOrder) ∧
      Queued entries accessOrder ∧ accessOrder.Sublist state.accessOrder ∧
      (insert key entries.keys).card ≤ capacity ∧
      (∀ other bucket, entries.find other = some bucket → state.entries.find other = some bucket) ∧
      ∀ victim ∈ state.entries.keys, victim ∉ entries.keys →
        key ∉ state.entries.keys ∧ state.entries.keys.card = capacity ∧
        (past.length < 2 ^ 64 → ∃ count, victim ∉ past.drop count ∧
          ∀ other ∈ state.entries.keys, other ≠ victim → other ∈ past.drop count) := by
  unfold makeRoom
  split
  · next hfull =>
    have hsome : state.entries.keys.Nonempty :=
      Finset.card_pos.mp (hcapacity.trans_le hfull.2)
    obtain ⟨stale, victim, bucket, rest, hfind, horder, hevict, hqueued⟩ :=
      evictOne_spec hsound.queued hsome
    have hcard := Finset.card_erase_of_mem (Table.mem_keys_of_find hfind)
    refine ⟨_, _, hevict, hqueued, ?_, ?_, ?_, ?_⟩
    · rw [horder]
      exact (sublist_cons_self _ _).trans (sublist_append_right _ _)
    · refine (Finset.card_insert_le _ _).trans ?_
      rw [Table.keys_erase, hcard]
      have := hsound.fits
      omega
    · intro other kept hkept
      rw [Table.find_erase] at hkept
      split at hkept
      · cases hkept
      · exact hkept
    · intro other hother hgone
      have hvictim : other = victim := by
        by_contra hne
        exact hgone (Finset.mem_erase.mpr ⟨hne, hother⟩)
      subst hvictim
      refine ⟨Table.not_mem_keys.mpr hfull.1, le_antisymm hsound.fits hfull.2, fun hshort => ?_⟩
      have hnumbered := hsound.numbered hshort
      obtain ⟨index, hindex, -, hlast⟩ := hnumbered.recent other bucket hfind
      refine ⟨index + 1, hlast, fun kept hkept hne => ?_⟩
      obtain ⟨keptBucket, hkeptFind⟩ := Table.mem_keys.mp hkept
      obtain ⟨place, hplace, hat, -⟩ := hnumbered.recent kept keptBucket hkeptFind
      have hsorted := hnumbered.sorted
      rw [horder, pairwise_append, pairwise_cons] at hsorted
      have hrest := hqueued kept keptBucket (by simp [hne, hkeptFind])
      have hless := hsorted.2.1.1 _ hrest
      rw [mem_iff_getElem?]
      refine ⟨place - (index + 1), ?_⟩
      rw [getElem?_drop, Nat.add_sub_cancel' (by dsimp only at hless; omega)]
      exact hat
  · next hroom =>
    refine ⟨_, _, rfl, hsound.queued, .refl _, ?_, fun _ _ hkept => hkept, fun _ hkept hgone =>
      absurd hkept hgone⟩
    by_cases hkey : key ∈ state.entries.keys
    · rw [Finset.insert_eq_of_mem hkey]
      exact hsound.fits
    · rw [Finset.card_insert_of_notMem hkey]
      exact not_le.mp fun hfull => hroom ⟨Table.not_mem_keys.mp hkey, hfull⟩

theorem Sound.admission (hsound : state.Sound capacity past) (hcapacity : 0 < capacity) (key : K)
    (now : ℕ) : (state.admission policy capacity key now).1.Sound capacity (past ++ [key]) := by
  obtain ⟨entries, accessOrder, hroom, hqueued, hsublist, hcard, hkept, -⟩ :=
    makeRoom_spec hsound hcapacity key
  simp only [ShardState.admission, hroom]
  refine ⟨?_, hcard, fun hshort => ?_⟩
  · intro other bucket hfind
    rw [Table.find_insert] at hfind
    split at hfind
    · next hother =>
      cases hfind
      simp [hother]
    · exact mem_append_left _ (hqueued other bucket hfind)
  · rw [length_append, length_singleton] at hshort
    obtain ⟨hnext, hsorted, hbounded, hrecent⟩ := hsound.numbered (by omega)
    have hsequence : saturatingAdd state.nextSequence 1 = past.length + 1 := by
      rw [hnext, saturatingAdd_eq hshort]
    have hsmaller : ∀ access ∈ accessOrder, access.2 ≤ past.length :=
      fun access haccess => hbounded access (hsublist.subset haccess)
    rw [hsequence]
    refine ⟨by simp, ?_, ?_, ?_⟩
    · refine pairwise_append.mpr ⟨hsorted.sublist hsublist, pairwise_singleton _ _, ?_⟩
      intro access haccess
      exact forall_mem_singleton.mpr (Nat.lt_succ_of_le (hsmaller access haccess))
    · rw [length_append, length_singleton, forall_mem_append, forall_mem_singleton]
      exact ⟨fun access hold => (hsmaller access hold).trans (Nat.le_succ _), le_rfl⟩
    · intro other bucket hfind
      rw [Table.find_insert] at hfind
      split at hfind
      · next hother =>
        cases hfind
        exact ⟨past.length, rfl, by simp [hother], by simp⟩
      · next hother =>
        obtain ⟨index, hindex, hat, hlast⟩ := hrecent other bucket (hkept other bucket hfind)
        have hlt := (List.getElem?_eq_some_iff.mp hat).1
        refine ⟨index, hindex, by rw [getElem?_append_left hlt, hat], ?_⟩
        rw [drop_append_of_le_length hlt, mem_append, mem_singleton]
        exact not_or.mpr ⟨hlast, hother⟩

end ShardState

namespace SourceTokenBucket

variable {policy : SourceTokenBucketPolicy} {hash : K → ℕ}

theorem capacity_pos (index : Fin policy.shardCount) : 0 < capacity index :=
  Nat.add_pos_left (Nat.div_pos policy.shards_le policy.nonzero.2.2.2) _

/-- The shards share out the entries of the policy. -/
theorem sum_capacity (policy : SourceTokenBucketPolicy) :
    ∑ index : Fin policy.shardCount, capacity index = policy.maxEntries := by
  have hless := Nat.mod_lt policy.maxEntries policy.nonzero.2.2.2
  have hcount : ∑ index : Fin policy.shardCount,
      (if index.val < policy.maxEntries % policy.shardCount then 1 else 0) =
      policy.maxEntries % policy.shardCount := by
    rw [Finset.sum_boole, Fin.card_filter_val_lt]
    simpa using hless.le
  unfold capacity
  rw [Finset.sum_add_distrib, hcount, Finset.sum_const, Finset.card_univ,
    Fintype.card_fin, smul_eq_mul, Nat.div_add_mod]

theorem run_concat (calls : List (Call K)) (call : Call K) :
    run hash policy (calls ++ [call]) = step hash (run hash policy calls) call := by
  simp [run]

theorem run_sound (hash : K → ℕ) (calls : List (Call K)) (index : Fin policy.shardCount) :
    (run hash policy calls index).Sound (capacity index) (history hash index calls) := by
  induction calls using reverseRecOn with
  | nil =>
    exact ⟨by rintro _ _ ⟨⟩, Nat.zero_le _, fun _ =>
      ⟨rfl, .nil, by rintro _ ⟨⟩, by rintro _ _ ⟨⟩⟩⟩
  | append_singleton calls call ih =>
    have hpast : history hash index (calls ++ [call]) =
        history hash index calls ++ history hash index [call] := filterMap_append
    rw [run_concat, hpast]
    cases call with
    | clear =>
      change ShardState.Sound _ (history hash index calls ++ []) _
      rw [append_nil]
      exact ⟨by rintro _ _ ⟨⟩, Nat.zero_le _, fun hshort =>
        ⟨(ih.numbered hshort).next, .nil, by rintro _ ⟨⟩, by rintro _ _ ⟨⟩⟩⟩
    | admission key now =>
      simp only [step, SourceTokenBucket.admission]
      by_cases hindex : shardIndex hash key = index
      · subst hindex
        simpa [history] using ih.admission (capacity_pos _) key now
      · rw [Function.update_of_ne (Ne.symm hindex)]
        simpa [history, hindex] using ih

/-- Calls from one source only ever add to the queue of its shard. -/
theorem retained_replicate (hash : K → ℕ) (policy : SourceTokenBucketPolicy) (key : K) (count : ℕ) :
    count ≤ (run hash policy (replicate count (.admission key 0))
      (shardIndex hash key)).retained := by
  obtain ⟨index, hindex⟩ : ∃ index : Fin policy.shardCount, shardIndex hash key = index := ⟨_, rfl⟩
  rw [hindex]
  suffices hgrows : ∃ state,
      run hash policy (replicate count (.admission key 0)) index = state ∧
      state.accessOrder.length = count ∧
      ¬ (state.entries.find key = none ∧ capacity index ≤ state.entries.keys.card) by
    obtain ⟨state, rfl, hlength, -⟩ := hgrows
    exact hlength.symm.le.trans (Nat.le_add_left _ _)
  induction count with
  | zero => exact ⟨_, rfl, rfl, fun hfull => absurd hfull.2 (not_le.mpr (capacity_pos _))⟩
  | succ _ ih =>
    obtain ⟨state, hrun, hlength, hroom⟩ := ih
    rw [replicate_succ', run_concat]
    simp only [step, SourceTokenBucket.admission, hindex, Function.update_self,
      hrun, ShardState.admission, ShardState.makeRoom, if_neg hroom]
    exact ⟨_, rfl, by simp [hlength], by simp⟩

/-- For no policy is the memory of a shard bounded.  Its entries are, and the one that makes
room for a new key is the least recently admitted. -/
theorem source_memory_unbounded (hash : K → ℕ) (policy : SourceTokenBucketPolicy) :
    (∀ (key : K) (bound : ℕ), ∃ calls,
      bound < (run hash policy calls (shardIndex hash key)).retained) ∧
    ∑ index : Fin policy.shardCount, capacity index = policy.maxEntries ∧
    ∀ calls (index : Fin policy.shardCount),
      let past := history hash index calls
      let before := (run hash policy calls index).entries.keys
      before.card ≤ capacity index ∧ ∀ key now, ∀ victim ∈ before,
        victim ∉ (run hash policy (calls ++ [.admission key now]) index).entries.keys →
        shardIndex hash key = index ∧ key ∉ before ∧ before.card = capacity index ∧
        (past.length < 2 ^ 64 → ∃ count, victim ∉ past.drop count ∧
          ∀ other ∈ before, other ≠ victim → other ∈ past.drop count) := by
  refine ⟨fun key bound => ⟨_, retained_replicate hash policy key (bound + 1)⟩,
    sum_capacity policy, fun calls index => ?_⟩
  have hsound := run_sound hash calls index
  refine ⟨hsound.fits, fun key now victim hvictim hgone => ?_⟩
  rw [run_concat] at hgone
  simp only [step, SourceTokenBucket.admission] at hgone
  by_cases hindex : shardIndex hash key = index
  · obtain ⟨entries, accessOrder, hroom, -, -, -, -, htakes⟩ :=
      ShardState.makeRoom_spec hsound (capacity_pos index) key
    subst hindex
    rw [Function.update_self] at hgone
    simp only [ShardState.admission, hroom, Table.keys_insert, Finset.mem_insert, not_or] at hgone
    exact ⟨rfl, htakes victim hvictim hgone.2⟩
  · rw [Function.update_of_ne (Ne.symm hindex)] at hgone
    exact absurd hvictim hgone

/-- The third source takes the place of the second, which was admitted before the first came
again. -/
theorem source_memory_evicts :
    let policy : SourceTokenBucketPolicy := ⟨1, 1, 1, 2, 1, by decide, by decide⟩
    let calls : List (Call ℕ) := [.admission 1 0, .admission 2 0, .admission 1 0]
    let past := history id (0 : Fin policy.shardCount) calls
    let before := (run id policy calls 0).entries.keys
    2 ∈ before ∧ 2 ∉ (run id policy (calls ++ [.admission 3 0]) 0).entries.keys ∧
      ∃ count, 2 ∉ past.drop count ∧ ∀ other ∈ before, other ≠ 2 → other ∈ past.drop count := by
  intro policy calls past before
  have hheld : 2 ∈ before := by decide
  have hgone : 2 ∉ (run id policy (calls ++ [.admission 3 0]) 0).entries.keys := by decide
  obtain ⟨-, -, -, hleast⟩ :=
    ((source_memory_unbounded id policy).2.2 calls 0).2 3 0 2 hheld hgone
  exact ⟨hheld, hgone, hleast (by decide)⟩

/-- One entry and one shard, and a queue longer than any bound. -/
theorem source_memory_grows : ¬ ∃ bound, ∀ calls : List (Call ℕ),
    (run id ⟨1, 1, 1, 1, 1, by decide, le_rfl⟩ calls 0).retained ≤ bound := by
  rintro ⟨bound, hbound⟩
  have hgrows := retained_replicate id ⟨1, 1, 1, 1, 1, by decide, le_rfl⟩ 0 (bound + 1)
  exact absurd (hbound _) (Nat.not_le.mpr hgrows)

end SourceTokenBucket

end PacketCore.Runtime
