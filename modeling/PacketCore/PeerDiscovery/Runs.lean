import PacketCore.PeerDiscovery.Serving

/-!
# The serving guarantee over whole runs

A run is any sequence of calls with non-decreasing times.  Tokens are arbitrary
values: late ones, tokens of other keys or of removed entries, and identities
never handed out are all presented.
-/

namespace PacketCore.PeerDiscovery

open List

namespace DnsCache

section Finishing

variable {κ : Type} [LinearOrder κ] {query : κ → DnsQuery} {cache : DnsCache κ}
  {log : List (Event κ)} {token : DnsRefreshToken κ}
  {result : Except DnsError DnsAnswer} {now : Time}

/-- Writing the published entry of one key and logging the publication. -/
theorem published_sound (hsound : cache.Sound log now) {found : Entry}
    (hfind : cache.entries.find token.key = some found)
    {outcome : Except DnsError DnsAnswer} {entry : Entry}
    (hentry : entry.Sound cache.maxTtl cache.maxNegativeTtl
      (log ++ [.published token.key token.identity now outcome]) token.key now)
    (retry : DnsRetryPolicy) :
    (cache.put token.key entry retry).Sound
      (log ++ [.published token.key token.identity now outcome]) now where
  entries other written hwritten := by
    rcases find_put hwritten with ⟨rfl, rfl⟩ | ⟨hother, hbefore⟩
    · exact hentry
    · exact (hsound.entries _ _ hbefore).concat
        (Event.not_replaces_published (Ne.symm hother)) le_rfl
  started _ _ hmem := hsound.started _ _ (by simpa using hmem)
  published other identity time value hmem := by
    rcases mem_append.mp hmem with hmem | hmem
    · exact hsound.published _ _ _ _ hmem
    · cases mem_singleton.mp hmem
      exact le_rfl
  bounded := by
    change (Insert.insert token.key cache.entries.keys).card ≤ cache.capacity
    rw [card_insert_of_find hfind]
    exact hsound.bounded

/-- An accepted token belongs to the current flight of its key, within its budget. -/
structure Accepted (cache : DnsCache κ) (log : List (Event κ))
    (token : DnsRefreshToken κ) (now : Time) : Prop where
  issued : Outstanding log token.key token.identity
  current : ∃ entry flight, cache.entries.find token.key = some entry ∧
    entry.flight = some flight ∧ flight.identity = token.identity ∧ now < flight.deadline

/-- The two outcomes of presenting a token. -/
theorem finishRefresh_cases (hsound : cache.Sound log now) (query : κ → DnsQuery)
    (token : DnsRefreshToken κ) (result : Except DnsError DnsAnswer) :
    let finished := finishRefresh query cache token result now
    (finished.1 = true ∧ Accepted cache log token now ∧ SameLimits cache finished.2 ∧
      finished.2.Sound (log ++ [.published token.key token.identity now
        (publishedResult (query token.key) now result)]) now) ∨
    (finished.1 = false ∧ (∀ other, finishRefresh query cache token other now = finished) ∧
      Quiet cache finished.2 now ∧ finished.2.Sound log now) := by
  dsimp only
  unfold finishRefresh
  cases hfind : cache.entries.find token.key with
  | none => exact .inr ⟨rfl, fun _ => rfl, .refl cache now, hsound⟩
  | some entry =>
    have hsettled := settle_sound (hsound.entries _ _ hfind)
    dsimp only
    cases hidentity : entry.flight.any (·.identity = token.identity) with
    | false => exact .inr ⟨rfl, fun _ => rfl, .refl cache now, hsound⟩
    | true =>
      cases hflight : (cache.settle entry now).1.flight with
      | none =>
        right
        refine ⟨rfl, fun _ => rfl, put_quiet hsound _ (by rw [hfind]; rfl),
          put_sound hsound hsettled ?_ _⟩
        rw [card_insert_of_find hfind]
        exact hsound.bounded
      | some flight =>
        left
        obtain ⟨hbefore, hbudget⟩ := (settle_flight _ _ _ _).mp hflight
        have hsame : flight.identity = token.identity := by simpa [hbefore] using hidentity
        have hissued : Outstanding log token.key token.identity :=
          hsame ▸ (hsound.entries _ _ hfind).flight _ hbefore
        have haccepted : Accepted cache log token now :=
          ⟨hissued, entry, flight, hfind, hbefore, hsame, hbudget⟩
        cases publishedResult (query token.key) now result with
        | ok =>
          exact ⟨rfl, haccepted, ⟨rfl, rfl, rfl, rfl⟩,
            published_sound hsound hfind (Entry.publish_sound _ _ _ _ _ _ _) _⟩
        | error =>
          exact ⟨rfl, haccepted, ⟨rfl, rfl, rfl, rfl⟩,
            published_sound hsound hfind (Entry.failure_sound hsettled _ _ _) _⟩

end Finishing

section Runs

variable {κ : Type} [LinearOrder κ]

inductive Command (κ : Type)
  | beginRefresh (key : κ) (now : Time) (timeout : Duration)
  | finishRefresh (token : DnsRefreshToken κ) (result : Except DnsError DnsAnswer) (now : Time)
  | refreshDue (now : Time)
  | remove (key : κ)
  | lookup (key : κ) (now : Time)

def Command.time : Command κ → Option Time
  | .beginRefresh _ now _ | .finishRefresh _ _ now | .refreshDue now | .lookup _ now => some now
  | .remove _ => none

/-- One call, with the log of admissions, publications and removals. -/
def step (query : κ → DnsQuery) (state : DnsCache κ × List (Event κ)) :
    Command κ → DnsCache κ × List (Event κ)
  | .beginRefresh key now timeout =>
    let (answer, cache) := state.1.beginRefresh key now timeout
    (cache, admitted state.2 answer)
  | .finishRefresh token result now =>
    let (accepted, cache) := finishRefresh query state.1 token result now
    (cache, if accepted then state.2 ++ [.published token.key token.identity now
      (publishedResult (query token.key) now result)] else state.2)
  | .refreshDue now => ((state.1.refreshDue now).2, state.2)
  | .remove key => ((state.1.remove key).2, state.2 ++ [.removed key])
  | .lookup _ _ => state

def run (query : κ → DnsQuery) (start : DnsCache κ)
    (commands : List (Command κ)) : DnsCache κ × List (Event κ) :=
  commands.foldl (step query) (start, [])

/-- A new cache after its builder calls. -/
def configured (capacity : ℕ) (retry : DnsRetryPolicy)
    (maxTtl maxNegativeTtl maxStale interval : Duration) : DnsCache κ :=
  let capped := (new capacity retry).withTtlCaps maxTtl maxNegativeTtl
  (capped.withStaleLimit maxStale).withRefreshInterval interval

variable {query : κ → DnsQuery} {state : DnsCache κ × List (Event κ)}

theorem Sound.later {cache : DnsCache κ} {log : List (Event κ)} {now later : Time}
    (hsound : cache.Sound log now) (hlater : now ≤ later) : cache.Sound log later where
  entries _ _ hfind := (hsound.entries _ _ hfind).later hlater
  started := hsound.started
  published _ _ _ _ hmem :=
    (hsound.published _ _ _ _ hmem).trans hlater
  bounded := hsound.bounded

theorem remove_sound {cache : DnsCache κ} {log : List (Event κ)} {now : Time}
    (hsound : cache.Sound log now) (key : κ) :
    (cache.remove key).2.Sound (log ++ [.removed key]) now where
  entries other entry hfind := by
    by_cases hother : other = key
    · simp [remove, hother] at hfind
    · have hbefore := hsound.entries _ _ (by simpa [remove, hother] using hfind)
      refine hbefore.concat ?_ le_rfl
      rintro (⟨⟨⟩⟩ | ⟨_, _, _, ⟨⟩, -⟩)
      exact hother rfl
  started _ _ hmem := hsound.started _ _ (by simpa using hmem)
  published _ _ _ _ hmem := hsound.published _ _ _ _ (by simpa using hmem)
  bounded := Finset.card_erase_le.trans hsound.bounded

/-- One call at a time not before the state's own keeps it sound. -/
theorem step_sound {now : Time} (hsound : state.1.Sound state.2 now)
    (command : Command κ) (htime : ∀ time, command.time = some time → time = now) :
    (step query state command).1.Sound (step query state command).2 now ∧
      SameLimits state.1 (step query state command).1 := by
  cases command with
  | beginRefresh =>
    obtain rfl := htime _ rfl
    obtain ⟨hquiet, hafter, -⟩ := beginRefresh_admission hsound _ _
    exact ⟨hafter, hquiet.limits⟩
  | finishRefresh token result =>
    obtain rfl := htime _ rfl
    rcases finishRefresh_cases hsound query token result with
      ⟨haccepted, -, hlimits, hafter⟩ | ⟨hrefused, -, hquiet, hafter⟩
    · simp only [step, haccepted]
      exact ⟨hafter, hlimits⟩
    · simp only [step, hrefused]
      exact ⟨hafter, hquiet.limits⟩
  | refreshDue =>
    obtain rfl := htime _ rfl
    obtain ⟨hquiet, hafter⟩ := sweep_quiet hsound (fun _ _ => rfl)
    exact ⟨hafter, hquiet.limits⟩
  | remove => exact ⟨remove_sound hsound _, ⟨rfl, rfl, rfl, rfl⟩⟩
  | lookup => exact ⟨hsound, .refl _⟩

/-- A time that no call of the run is after. -/
def Reached (commands : List (Command κ)) (now : Time) : Prop :=
  ∀ time ∈ commands.filterMap Command.time, time ≤ now

theorem run_sound (start : DnsCache κ) (hempty : start.entries = .empty)
    (commands : List (Command κ))
    (hclock : (commands.filterMap Command.time).Pairwise (· ≤ ·)) {now : Time}
    (hnow : Reached commands now) :
    (run query start commands).1.Sound (run query start commands).2 now ∧
      SameLimits start (run query start commands).1 := by
  induction commands using reverseRecOn generalizing now with
  | nil =>
    refine ⟨⟨?_, ?_, ?_, ?_⟩, .refl start⟩
    · intro key entry hfind
      change start.entries.find key = some entry at hfind
      rw [hempty] at hfind
      cases hfind
    · rintro _ _ ⟨⟩
    · rintro _ _ _ _ ⟨⟩
    · change start.entries.keys.card ≤ start.capacity
      rw [hempty]
      exact Nat.zero_le _
  | append_singleton earlier command ih =>
    rw [filterMap_append, pairwise_append] at hclock
    obtain ⟨hbefore, -, hlast⟩ := hclock
    have hearlier : ∀ time, command.time = some time → Reached earlier time := by
      intro time htime _ hother
      exact hlast _ hother _ (by simp [htime])
    have hstep : run query start (earlier ++ [command]) =
        step query (run query start earlier) command := by simp [run]
    rw [hstep]
    cases htime : command.time with
    | none =>
      have hreached : Reached earlier now := by
        intro time hmem
        exact hnow _ (by simp [hmem])
      obtain ⟨hsound, hlimits⟩ := ih hbefore hreached
      obtain ⟨hafter, hsame⟩ := @step_sound κ _ query _ _ hsound command (by simp [htime])
      exact ⟨hafter, hlimits.trans hsame⟩
    | some =>
      obtain ⟨hsound, hlimits⟩ := ih hbefore (hearlier _ htime)
      obtain ⟨hafter, hsame⟩ := @step_sound κ _ query _ _ hsound command (by simp [htime])
      exact ⟨hafter.later (hnow _ (by simp [htime])), hlimits.trans hsame⟩

end Runs

section Guarantee

variable {κ : Type} [LinearOrder κ]

/-- What the cache may do and serve at `now`. -/
structure Entitled (query : κ → DnsQuery) (start cache : DnsCache κ)
    (log : List (Event κ)) (now : Time) : Prop where
  /-- A refresh starts with a new identity, and only when no other is within its budget. -/
  single : ∀ key timeout token, (cache.beginRefresh key now timeout).1 = .ok (.start token) →
    token.key = key ∧ (∀ other, .started other token.identity ∉ log) ∧
      ∀ entry flight, cache.entries.find key = some entry →
        entry.flight = some flight → flight.deadline ≤ now
  accepted : ∀ token result, (finishRefresh query cache token result now).1 = true →
    Accepted cache log token now
  /-- A refused result has no part in what the call leaves behind. -/
  refused : ∀ token result, (finishRefresh query cache token result now).1 = false →
    (∀ other, finishRefresh query cache token other now =
      finishRefresh query cache token result now) ∧
    Quiet cache (finishRefresh query cache token result now).2 now
  foreign : ∀ token result, (∀ entry flight, cache.entries.find token.key = some entry →
    entry.flight = some flight → flight.identity ≠ token.identity) →
    finishRefresh query cache token result now = (false, cache)
  /-- A token from before a removal of its key is foreign after it. -/
  removed : ∀ token result earlier later, log = earlier ++
    .removed token.key :: later → .started token.key token.identity ∈ earlier →
    finishRefresh query cache token result now = (false, cache)
  fresh : ∀ key answer, (cache.lookup key now).result = .fresh answer →
    ∃ earlier identity time later,
      log = earlier ++ .published key identity time (.ok answer) :: later ∧
      (∀ event ∈ later, ¬ event.Replaces key) ∧
      (∀ record ∈ answer.allRecords, now < record.expiresAt) ∧
      now < time + asMillis start.maxTtl
  stale : ∀ key answer age, (cache.lookup key now).result = .stale answer age →
    ∃ expiry, LastGood start.maxTtl start.maxNegativeTtl log key answer expiry ∧
      expiry ≤ now ∧ now < expiry + asMillis start.maxStale ∧ age = now - expiry
  negative : ∀ key error, (cache.lookup key now).result = .negative error →
    ∃ identity time own, .published key identity time (.error error) ∈ log ∧
      error.negativeDeadline = some own ∧ now < own ∧
      now < time + asMillis start.maxNegativeTtl
  bounded : cache.entries.keys.card ≤ start.capacity
  /-- Making room discards nothing that is served, in flight or waiting for its retry time. -/
  room : ∀ key timeout, Quiet cache (cache.beginRefresh key now timeout).2 now

variable {cache : DnsCache κ} {log : List (Event κ)} {key : κ} {now : Time}

theorem find_of_lookup {served : DnsCachedResult} (hserved : served ≠ .miss)
    (hlookup : (cache.lookup key now).result = served) :
    ∃ entry, cache.entries.find key = some entry ∧ entry.served cache.maxStale now = served := by
  rw [lookup_result] at hlookup
  cases hfind : cache.entries.find key with
  | none =>
    rw [hfind] at hlookup
    exact absurd hlookup.symm hserved
  | some entry =>
    rw [hfind] at hlookup
    exact ⟨entry, rfl, hlookup⟩

/-- An answer that is fresh after its publication has a known expiry under both caps. -/
theorem effectiveExpiry_bounds {maxTtl maxNegativeTtl : Duration} {time : Time}
    {answer : DnsAnswer} (htime : time ≤ now)
    (hfresh : now < effectiveExpiry maxTtl maxNegativeTtl time answer) :
    (∀ record ∈ answer.allRecords, now < record.expiresAt) ∧ now < time + asMillis maxTtl := by
  unfold effectiveExpiry at hfresh
  cases hcapped : answer.cappedExpiresAt (deadline time maxTtl) (deadline time maxNegativeTtl) with
  | none =>
    rw [hcapped] at hfresh
    exact absurd htime (not_le.mpr hfresh)
  | some =>
    rw [hcapped] at hfresh
    obtain ⟨hcap, hrecords⟩ := DnsAnswer.cappedExpiresAt_le hcapped
    refine ⟨fun record hrecord => lt_of_lt_of_le hfresh (hrecords _ hrecord), ?_⟩
    exact lt_of_lt_of_le hfresh (hcap.trans (deadline_le _ _))

theorem finishRefresh_foreign (query : κ → DnsQuery) (token : DnsRefreshToken κ)
    (result : Except DnsError DnsAnswer)
    (hforeign : ∀ entry flight, cache.entries.find token.key = some entry →
      entry.flight = some flight → flight.identity ≠ token.identity) :
    finishRefresh query cache token result now = (false, cache) := by
  unfold finishRefresh
  cases hfind : cache.entries.find token.key with
  | none => rfl
  | some entry =>
    have hidentity : entry.flight.any (·.identity = token.identity) = false := by
      cases hflight : entry.flight with
      | none => rfl
      | some => simpa using hforeign _ _ hfind hflight
    dsimp only
    rw [hidentity]
    rfl

/-- The cache serves only what it is entitled to, along every run with a monotonic
clock.  What it serves was published by the refresh of the key in its turn and is
within its life, and a token that another start or a removal has overtaken changes
nothing, whatever result comes with it. -/
theorem run_entitled (query : κ → DnsQuery) (capacity : ℕ) (retry : DnsRetryPolicy)
    (maxTtl maxNegativeTtl maxStale interval : Duration) (commands : List (Command κ))
    (hclock : (commands.filterMap Command.time).Pairwise (· ≤ ·)) (now : Time)
    (hnow : Reached commands now) :
    Entitled query (configured capacity retry maxTtl maxNegativeTtl maxStale interval)
      (run query (configured capacity retry maxTtl maxNegativeTtl maxStale interval) commands).1
      (run query (configured capacity retry maxTtl maxNegativeTtl maxStale interval) commands).2
      now := by
  generalize hstart :
    (configured capacity retry maxTtl maxNegativeTtl maxStale interval : DnsCache κ) = start
  have hempty : start.entries = .empty := hstart ▸ rfl
  obtain ⟨hsound, hlimits⟩ := @run_sound κ _ query start hempty commands hclock now hnow
  generalize (run query start commands).1 = cache at hsound hlimits ⊢
  exact
    { single := fun key timeout => (beginRefresh_admission hsound _ _).start
      accepted := by
        intro token result haccepted
        rcases finishRefresh_cases hsound query _ result with
          ⟨-, hcurrent, -⟩ | ⟨hrefused, -⟩
        · exact hcurrent
        · exact absurd haccepted (by simp [hrefused])
      refused := by
        intro token result hrefused
        rcases finishRefresh_cases hsound query token result with
          ⟨haccepted, -⟩ | ⟨-, hsame, hquiet, -⟩
        · exact absurd haccepted (by simp [hrefused])
        · exact ⟨hsame, hquiet⟩
      foreign := fun token result => finishRefresh_foreign _ _ _
      removed := fun token result earlier later hlog hissued =>
        finishRefresh_foreign _ _ _ fun entry flight hfind hflight hsame =>
          ((hsound.entries _ _ hfind).flight _ hflight).not_removed hlog (hsame ▸ hissued)
      fresh := by
        intro key answer hlookup
        obtain ⟨entry, hfind, hserved⟩ := find_of_lookup (by rintro ⟨⟩) hlookup
        obtain ⟨hanswer, expiry, hexpiry, hfresh⟩ := Entry.served_eq_fresh hserved
        obtain ⟨same, hsame, earlier, identity, time, later, hlog, rfl, hlater⟩ :=
          (hsound.entries _ _ hfind).answer _ hanswer
        cases hexpiry.symm.trans hsame
        have htime := hsound.published key identity time (.ok answer) (by simp [hlog])
        rw [hlimits.maxTtl] at hfresh
        obtain ⟨hrecords, hcap⟩ := effectiveExpiry_bounds htime hfresh
        exact ⟨earlier, identity, time, later, hlog, hlater, hrecords, hcap⟩
      stale := by
        intro key answer _ hlookup
        obtain ⟨entry, hfind, hserved⟩ := find_of_lookup (by rintro ⟨⟩) hlookup
        obtain ⟨hanswer, expiry, hexpiry, hpast, hretained, hage⟩ := Entry.served_eq_stale hserved
        obtain ⟨same, hsame, hgood⟩ := (hsound.entries _ _ hfind).answer _ hanswer
        cases hexpiry.symm.trans hsame
        rw [hlimits.maxTtl, hlimits.maxNegativeTtl] at hgood
        rw [hlimits.maxStale] at hretained
        exact ⟨expiry, hgood, hpast, lt_of_lt_of_le hretained (deadline_le _ _), hage⟩
      negative := by
        intro key _ hlookup
        obtain ⟨entry, hfind, hserved⟩ := find_of_lookup (by rintro ⟨⟩) hlookup
        obtain ⟨herror, expiry, hexpiry, hlive⟩ := Entry.served_eq_negative hserved
        obtain ⟨-, same, hsame, identity, time, own, hmem, hown, hle, hcap⟩ :=
          (hsound.entries _ _ hfind).negative _ hexpiry
        cases herror.symm.trans hsame
        rw [hlimits.maxNegativeTtl] at hcap
        exact ⟨identity, time, own, hmem, hown, lt_of_lt_of_le hlive hle,
          lt_of_lt_of_le hlive (hcap.trans (deadline_le _ _))⟩
      bounded := hlimits.capacity ▸ hsound.bounded
      room := fun key timeout => (beginRefresh_admission hsound _ _).quiet }

/-- One record of a minute, seen at the start of the clock. -/
def minuteAnswer : DnsAnswer :=
  ⟨[⟨.v4 1, .udp, some [⟨60, 0⟩], none, none⟩], none, none⟩

def addressQuery (_ : ℕ) : DnsQuery := ⟨"peer", .address, .udp, .dualStack, none⟩

def smallCache : DnsCache ℕ := configured 4 (.new 0 0 0) (seconds 3600) (seconds 60) 0 0

/-- A refresh that succeeds and a second use of its token, and one whose key is removed. -/
def reuseRun : List (Command ℕ) :=
  [.beginRefresh 7 0 1000000000, .finishRefresh ⟨7, 0⟩ (.ok minuteAnswer) 10,
    .finishRefresh ⟨7, 0⟩ (.error .timeout) 20, .beginRefresh 8 20 1000000000, .remove 8]

theorem run_entitled_reuse :
    let state := run addressQuery smallCache reuseRun
    (state.1.lookup 7 30).result = .fresh minuteAnswer ∧
      finishRefresh addressQuery state.1 ⟨8, 1⟩ (.ok minuteAnswer) 30 = (false, state.1) ∧
      Entitled addressQuery smallCache state.1 state.2 30 := by
  intro state
  have hentitled : Entitled addressQuery smallCache state.1 state.2 30 :=
    run_entitled _ 4 _ _ _ 0 0 _ (by decide) 30 (by unfold Reached; decide)
  exact ⟨by decide +kernel, hentitled.removed _ _
    [.started 7 0, .published 7 0 10 (.ok minuteAnswer), .started 8 1] [] rfl (by simp), hentitled⟩

end Guarantee

end DnsCache

end PacketCore.PeerDiscovery
