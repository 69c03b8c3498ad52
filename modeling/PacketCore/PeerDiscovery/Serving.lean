import PacketCore.PeerDiscovery.Entitlement

/-!
# Runs of the DNS cache

Every operation but a publication and a removal is quiet: it changes nothing
that is served from its time on, and it keeps every live entry and flight.
Soundness for the log then holds along whole runs with a monotonic clock, and
the serving guarantees are read off it.
-/

namespace PacketCore.PeerDiscovery

open List

/-- What making room must not discard: a usable answer, a refresh within its budget, or a
retry time that has not come. -/
def Entry.Live (entry : Entry) (maxStale : Duration) (now : Time) : Prop :=
  entry.usable maxStale now = true ∨
    (∃ flight, entry.flight = some flight ∧ now < flight.deadline) ∨
    ∃ retry, entry.retryAt = some retry ∧ now < retry

variable {keep : Entry → Bool} {later : Time}

namespace DnsCache

variable {κ : Type} [LinearOrder κ]

structure Sound (cache : DnsCache κ) (log : List (Event κ)) (now : Time) : Prop where
  entries : ∀ key entry, cache.entries.find key = some entry →
    entry.Sound cache.maxTtl cache.maxNegativeTtl log key now
  started : ∀ key identity, .started key identity ∈ log → identity < cache.allocated
  published : ∀ key identity time result, .published key identity time result ∈ log → time ≤ now
  bounded : cache.entries.keys.card ≤ cache.capacity

/-- The limits that decide about serving. -/
structure SameLimits (before after : DnsCache κ) : Prop where
  capacity : after.capacity = before.capacity
  maxTtl : after.maxTtl = before.maxTtl
  maxNegativeTtl : after.maxNegativeTtl = before.maxNegativeTtl
  maxStale : after.maxStale = before.maxStale

theorem SameLimits.refl (cache : DnsCache κ) : SameLimits cache cache := ⟨rfl, rfl, rfl, rfl⟩

theorem SameLimits.trans {first second third : DnsCache κ} (hfirst : SameLimits first second)
    (hsecond : SameLimits second third) : SameLimits first third where
  capacity := hsecond.capacity.trans hfirst.capacity
  maxTtl := hsecond.maxTtl.trans hfirst.maxTtl
  maxNegativeTtl := hsecond.maxNegativeTtl.trans hfirst.maxNegativeTtl
  maxStale := hsecond.maxStale.trans hfirst.maxStale

/-- From `now` on the same results are served, with every live entry and flight in place. -/
structure Quiet (before after : DnsCache κ) (now : Time) : Prop where
  limits : SameLimits before after
  served : ∀ key later, now ≤ later →
    (after.lookup key later).result = (before.lookup key later).result
  live : ∀ key entry, before.entries.find key = some entry → entry.Live before.maxStale now →
    ∃ kept, after.entries.find key = some kept ∧ kept.Live after.maxStale now
  flights : ∀ key entry flight, before.entries.find key = some entry →
    entry.flight = some flight → now < flight.deadline →
    ∃ kept, after.entries.find key = some kept ∧ kept.flight = some flight

theorem Quiet.refl (cache : DnsCache κ) (now : Time) : Quiet cache cache now where
  limits := .refl cache
  served _ _ _ := rfl
  live _ entry hfind hlive := ⟨entry, hfind, hlive⟩
  flights _ entry _ hfind hflight _ := ⟨entry, hfind, hflight⟩

theorem Quiet.trans {first second third : DnsCache κ} {now : Time}
    (hfirst : Quiet first second now) (hsecond : Quiet second third now) :
    Quiet first third now where
  limits := hfirst.limits.trans hsecond.limits
  served key later hlater := (hsecond.served _ _ hlater).trans (hfirst.served _ _ hlater)
  live key entry hfind hlive := by
    obtain ⟨kept, hkept, hkeptLive⟩ := hfirst.live _ _ hfind hlive
    exact hsecond.live _ _ hkept hkeptLive
  flights key entry flight hfind hflight hdeadline := by
    obtain ⟨kept, hkept, hkeptFlight⟩ := hfirst.flights _ _ _ hfind hflight hdeadline
    exact hsecond.flights _ _ _ hkept hkeptFlight hdeadline

section Settling

variable {cache : DnsCache κ} {log : List (Event κ)} {key : κ} {entry : Entry} {now : Time}

theorem settle_fst (cache : DnsCache κ) (entry : Entry) (now : Time) :
    (cache.settle entry now).1 =
      (entry.expireFlight now cache.retry cache.maxNegativeTtl).1.expireStale now
        cache.maxStale := rfl

theorem settle_flight (cache : DnsCache κ) (entry : Entry) (now : Time) (flight : Flight) :
    (cache.settle entry now).1.flight = some flight ↔
      entry.flight = some flight ∧ now < flight.deadline := by
  rw [settle_fst, Entry.expireStale_flight]
  rcases entry.expireFlight_cases now cache.retry cache.maxNegativeTtl with
    ⟨hsame, hbudget⟩ | ⟨expired, retryAt, failures, hflight, hdeadline, htimedOut⟩
  · rw [hsame]
    exact ⟨fun hflight => ⟨hflight, hbudget _ hflight⟩, And.left⟩
  · rw [htimedOut]
    constructor
    · rintro ⟨⟩
    · rintro ⟨hsome, hbudget⟩
      cases hflight.symm.trans hsome
      exact absurd hdeadline (not_le.mpr hbudget)

theorem usable_expireStale (maxStale : Duration) (husable : entry.usable maxStale now) :
    entry.expireStale now maxStale = entry := by
  unfold Entry.expireStale
  rw [if_neg]
  unfold Entry.usable at husable
  rw [← Bool.not_or, husable]
  exact Bool.false_ne_true

theorem occupied_of_live {maxStale : Duration}
    (hlive : entry.Live maxStale now) : occupied now entry = true := by
  unfold occupied
  rcases hlive with husable | ⟨_, hflight, -⟩ | ⟨_, hretry, hnow⟩
  · unfold Entry.usable Entry.fresh Entry.retained at husable
    cases hanswer : entry.answer with
    | none => simp [hanswer] at husable
    | some => rfl
  · simp [hflight]
  · simp [hretry, hnow]

section

variable (hentry : entry.Sound cache.maxTtl cache.maxNegativeTtl log key now)
include hentry

theorem settle_sound :
    (cache.settle entry now).1.Sound cache.maxTtl cache.maxNegativeTtl log key now := by
  rw [settle_fst]
  apply Entry.expireStale_sound
  rcases entry.expireFlight_cases now cache.retry cache.maxNegativeTtl with
    ⟨hsame, -⟩ | ⟨_, retryAt, failures, -, -, htimedOut⟩
  · rwa [hsame]
  · rw [htimedOut]
    exact Entry.timedOut_sound hentry _ _

theorem served_settle (hlater : now ≤ later) :
    (cache.settle entry now).1.served cache.maxStale later = entry.served cache.maxStale later := by
  rw [settle_fst, Entry.served_expireStale hlater]
  rcases entry.expireFlight_cases now cache.retry cache.maxNegativeTtl with
    ⟨hsame, -⟩ | ⟨_, retryAt, failures, hflight, -, htimedOut⟩
  · rw [hsame]
  · rw [htimedOut]
    exact Entry.served_timedOut _ _ (hentry.not_denied hflight hlater)

theorem live_settle (hlive : entry.Live cache.maxStale now) :
    (cache.settle entry now).1.Live cache.maxStale now := by
  rcases hlive with _ | ⟨flight, hflight, hbudget⟩ | ⟨retry, hretry, hnow⟩
  · left
    have hsame : (entry.expireFlight now cache.retry cache.maxNegativeTtl).1.usable
        cache.maxStale now = true := by
      rcases entry.expireFlight_cases now cache.retry cache.maxNegativeTtl with
        ⟨hsame, -⟩ | ⟨_, retryAt, failures, -, -, htimedOut⟩
      · rwa [hsame]
      · rwa [htimedOut]
    rwa [settle_fst, usable_expireStale _ hsame]
  · right; left
    exact ⟨flight, (settle_flight _ _ _ _).mpr ⟨hflight, hbudget⟩, hbudget⟩
  · right; right
    rw [settle_fst, Entry.expireStale_retryAt]
    rcases entry.expireFlight_cases now cache.retry cache.maxNegativeTtl with
      ⟨hsame, -⟩ | ⟨flight, _, _, hflight, -, -⟩
    · exact ⟨retry, by rw [hsame, hretry], hnow⟩
    · exact absurd (hentry.paced _ hflight _ hretry) (not_le.mpr hnow)

/-- What is reclaimed served nothing any more. -/
theorem served_of_not_occupied (hfree : occupied now entry = false)
    (hlater : now ≤ later) : entry.served cache.maxStale later = .miss := by
  simp only [occupied, Bool.or_eq_false_iff] at hfree
  obtain ⟨⟨hanswer, -⟩, hretry⟩ := hfree
  apply Entry.served_of_not_usable
  · unfold Entry.usable Entry.fresh Entry.retained
    simp [hanswer]
  · cases hnegative : entry.negativeExpiresAt with
    | none => rfl
    | some expiry =>
      rw [(hentry.negative _ hnegative).1] at hretry
      have hle : expiry ≤ now := by simpa using hretry
      simpa using hle.trans hlater

end

end Settling

section Operations

variable {cache : DnsCache κ} {log : List (Event κ)} {key : κ} {entry : Entry} {now : Time}

theorem lookup_result (cache : DnsCache κ) (key : κ) (now : Time) :
    (cache.lookup key now).result =
      ((cache.entries.find key).map (·.served cache.maxStale now)).getD .miss := by
  unfold lookup
  cases cache.entries.find key <;> rfl

theorem card_insert_of_find {found : Entry} (hfind : cache.entries.find key = some found) :
    Insert.insert key cache.entries.keys = cache.entries.keys :=
  Finset.insert_eq_of_mem (Table.mem_keys_of_find hfind)

theorem find_put {other : κ} {found : Entry}
    (hfind : (cache.entries.insert key entry).find other = some found) :
    (other = key ∧ entry = found) ∨ (other ≠ key ∧ cache.entries.find other = some found) := by
  by_cases hother : other = key
  · exact .inl ⟨hother, by simpa [hother] using hfind⟩
  · exact .inr ⟨hother, by simpa [hother] using hfind⟩

/-- Starting a refresh on an idle entry is quiet. -/
theorem launch_quiet (hidle : entry.flight = none) (retry : DnsRetryPolicy)
    (flight : Flight) (allocated : ℕ) :
    Quiet (cache.put key entry retry)
      { cache.put key { entry with flight := some flight } retry with allocated } now where
  limits := ⟨rfl, rfl, rfl, rfl⟩
  served other later _ := by
    rw [lookup_result, lookup_result]
    by_cases hother : other = key
    · simp only [put, hother, Table.find_insert]
      rfl
    · simp [put, hother]
  live other found hfind hlive := by
    rcases find_put hfind with ⟨rfl, rfl⟩ | ⟨hother, hbefore⟩
    · refine ⟨{ entry with flight := some flight }, by simp [put], ?_⟩
      refine hlive.imp_right (Or.imp_left ?_)
      rintro ⟨started, hstarted, -⟩
      cases hidle.symm.trans hstarted
    · exact ⟨found, by simpa [put, hother] using hbefore, hlive⟩
  flights other found started hfind hstarted _ := by
    rcases find_put hfind with ⟨rfl, rfl⟩ | ⟨hother, hbefore⟩
    · cases hidle.symm.trans hstarted
    · exact ⟨found, by simpa [put, hother] using hbefore, hstarted⟩

section

variable (hsound : cache.Sound log now)
include hsound

theorem Sound.found (hentry : (cache.entries.find key).getD .cold = entry) :
    entry.Sound cache.maxTtl cache.maxNegativeTtl log key now := by
  subst hentry
  cases hfind : cache.entries.find key with
  | none => exact Entry.cold_sound
  | some => exact hsound.entries _ _ hfind

/-- Writing back the settled entry of one key, or of a key that was absent, is quiet. -/
theorem put_quiet (retry : DnsRetryPolicy)
    (hentry : (cache.entries.find key).getD .cold = entry) :
    Quiet cache (cache.put key (cache.settle entry now).1 retry) now := by
  have hentrySound := hsound.found hentry
  have hfound : ∀ found, cache.entries.find key = some found → found = entry := by
    intro found hfind
    rw [hfind] at hentry
    exact hentry
  refine ⟨⟨rfl, rfl, rfl, rfl⟩, ?_, ?_, ?_⟩
  · intro other later hlater
    rw [lookup_result, lookup_result]
    by_cases hother : other = key
    · subst hother
      simp only [put, Table.find_insert]
      change (cache.settle entry now).1.served cache.maxStale later = _
      rw [served_settle hentrySound hlater]
      cases hfind : cache.entries.find other with
      | none =>
        rw [hfind] at hentry
        subst hentry
        rfl
      | some =>
        rw [hfound _ hfind]
        rfl
    · simp [put, hother]
  · intro other found hfind hlive
    by_cases hother : other = key
    · subst hother
      rw [hfound _ hfind] at hlive
      have hkept := live_settle hentrySound hlive
      exact ⟨(cache.settle entry now).1, by simp [put], hkept⟩
    · exact ⟨found, by simpa [put, hother] using hfind, hlive⟩
  · intro other found _ hfind hflight hbudget
    by_cases hother : other = key
    · subst hother
      rw [hfound _ hfind] at hflight
      exact ⟨_, by simp [put], (settle_flight cache _ _ _).mpr ⟨hflight, hbudget⟩⟩
    · exact ⟨found, by simpa [put, hother] using hfind, hflight⟩

theorem put_sound
    (hentry : entry.Sound cache.maxTtl cache.maxNegativeTtl log key now)
    (hroom : (Insert.insert key cache.entries.keys).card ≤ cache.capacity)
    (retry : DnsRetryPolicy) : (cache.put key entry retry).Sound log now where
  entries other found hfind := by
    rcases find_put hfind with ⟨rfl, rfl⟩ | ⟨-, hbefore⟩
    · exact hentry
    · exact hsound.entries _ _ hbefore
  started := hsound.started
  published := hsound.published
  bounded := hroom

theorem sweepKey_quiet
    (hkeep : ∀ entry, occupied now entry = true → keep entry = true) (key : κ) :
    Quiet cache (sweepKey keep now cache key) now ∧
      (sweepKey keep now cache key).Sound log now := by
  unfold sweepKey
  cases hfind : cache.entries.find key with
  | none => exact ⟨Quiet.refl _ _, hsound⟩
  | some entry =>
    have hentry := hsound.entries _ _ hfind
    dsimp only
    split
    case isTrue =>
      refine ⟨put_quiet hsound _ (by rw [hfind]; rfl), put_sound hsound (settle_sound hentry) ?_ _⟩
      rw [card_insert_of_find hfind]
      exact hsound.bounded
    case isFalse hdrop =>
      have hfree : occupied now (cache.settle entry now).1 = false := by
        by_contra hother
        exact hdrop (hkeep _ (Bool.not_eq_false _ ▸ hother))
      have hdead : ¬ entry.Live cache.maxStale now := by
        intro hlive
        have := occupied_of_live (live_settle hentry hlive)
        rw [hfree] at this
        cases this
      constructor
      · refine ⟨⟨rfl, rfl, rfl, rfl⟩, ?_, ?_, ?_⟩
        · intro other later hlater
          rw [lookup_result, lookup_result]
          by_cases hother : other = key
          · subst hother
            have hmiss : entry.served cache.maxStale later = .miss :=
              (served_settle hentry hlater).symm.trans
                (served_of_not_occupied (settle_sound hentry) hfree hlater)
            simp [hfind, hmiss]
          · simp [hother]
        · intro other found hother hlive
          by_cases hsame : other = key
          · subst hsame
            cases hfind.symm.trans hother
            exact absurd hlive hdead
          · exact ⟨found, by simpa [hsame] using hother, hlive⟩
        · intro other found flight hother hflight hbudget
          by_cases hsame : other = key
          · subst hsame
            cases hfind.symm.trans hother
            exact absurd (.inr (.inl ⟨flight, hflight, hbudget⟩)) hdead
          · exact ⟨found, by simpa [hsame] using hother, hflight⟩
      · exact
          { hsound with
            entries := by
              intro other found hother
              by_cases hsame : other = key
              · simp [hsame] at hother
              · exact hsound.entries _ _ (by simpa [hsame] using hother)
            bounded := (Finset.card_erase_le).trans hsound.bounded }

theorem sweep_quiet (hkeep : ∀ entry, occupied now entry = true → keep entry = true) :
    Quiet cache (cache.sweep keep now) now ∧ (cache.sweep keep now).Sound log now := by
  unfold sweep
  generalize ascending cache.entries.keys = keys
  induction keys generalizing cache with
  | nil => exact ⟨Quiet.refl _ _, hsound⟩
  | cons _ _ ih =>
    obtain ⟨hquiet, hnext⟩ := sweepKey_quiet hsound hkeep _
    obtain ⟨hrest, hlast⟩ := ih hnext
    exact ⟨hquiet.trans hrest, hlast⟩

theorem launch_sound
    (hentry : entry.Sound cache.maxTtl cache.maxNegativeTtl log key now)
    (hpaced : ∀ retry, entry.retryAt = some retry → retry ≤ now)
    (hroom : (Insert.insert key cache.entries.keys).card ≤ cache.capacity)
    (retry : DnsRetryPolicy) (budget : Time) :
    Sound { cache.put key { entry with flight := some ⟨cache.allocated, budget⟩ } retry with
        allocated := cache.allocated + 1 } (log ++ [.started key cache.allocated]) now where
  entries other found hfind := by
    rcases find_put hfind with ⟨rfl, rfl⟩ | ⟨-, hbefore⟩
    · have hlogged := hentry.concat
        (@Event.not_replaces_started κ other other cache.allocated) le_rfl
      exact
        { hlogged with
          flight := by
            rintro _ ⟨⟩
            exact ⟨log, [], rfl,
              fun _ hmem => absurd (hsound.started _ _ hmem) (lt_irrefl _), by simp⟩
          paced := fun _ _ => hpaced }
    · exact (hsound.entries _ _ hbefore).concat Event.not_replaces_started le_rfl
  started other identity hmem := by
    rcases mem_append.mp hmem with hmem | hmem
    · exact (hsound.started _ _ hmem).trans (Nat.lt_succ_self _)
    · cases mem_singleton.mp hmem
      exact Nat.lt_succ_self _
  published _ _ _ _ hmem := hsound.published _ _ _ _ (by simpa using hmem)
  bounded := hroom

end

end Operations

section Admission

variable {cache after : DnsCache κ} {log : List (Event κ)} {now : Time}

/-- The log after an admission. -/
def admitted (log : List (Event κ)) : Except DnsCacheError (DnsRefresh κ) → List (Event κ)
  | .ok (.start token) => log ++ [.started token.key token.identity]
  | _ => log

/-- What an admission for `key` answers and leaves behind. -/
structure Admission (cache : DnsCache κ) (log : List (Event κ)) (key : κ) (now : Time)
    (answer : Except DnsCacheError (DnsRefresh κ)) (after : DnsCache κ) : Prop where
  quiet : Quiet cache after now
  sound : after.Sound (admitted log answer) now
  start : ∀ token, answer = .ok (.start token) → token.key = key ∧
    (∀ other, .started other token.identity ∉ log) ∧
    ∀ entry flight, cache.entries.find key = some entry →
      entry.flight = some flight → flight.deadline ≤ now

theorem startRefresh_admission (hsound : cache.Sound log now) (key : κ) (timeout : Duration)
    (hroom : (Insert.insert key cache.entries.keys).card ≤ cache.capacity) :
    Admission cache log key now (.ok (cache.startRefresh key now timeout).1)
      (cache.startRefresh key now timeout).2 := by
  generalize hfound : (cache.entries.find key).getD .cold = found
  have hsettled := settle_sound (hsound.found hfound)
  have hquiet := put_quiet hsound (cache.settle found now).2 hfound
  have hput := put_sound hsound hsettled hroom (cache.settle found now).2
  unfold startRefresh
  rw [hfound]
  dsimp only
  cases hflight : (cache.settle found now).1.flight with
  | some => exact ⟨hquiet, hput, by rintro _ ⟨⟩⟩
  | none =>
    cases hdue : (cache.settle found now).1.due now with
    | false => exact ⟨hquiet, hput, by rintro _ ⟨⟩⟩
    | true =>
      have hpaced : ∀ retry, (cache.settle found now).1.retryAt = some retry → retry ≤ now := by
        intro retry hretry
        simp only [Entry.due, Bool.and_eq_true] at hdue
        simpa [hretry] using hdue.2
      refine ⟨hquiet.trans (launch_quiet hflight _ _ _),
        launch_sound hsound hsettled hpaced hroom _ _, ?_⟩
      rintro _ ⟨⟩
      refine ⟨rfl, fun other hmem => absurd (hsound.started _ _ hmem) (lt_irrefl _), ?_⟩
      intro entry flight hfind hentryFlight
      rw [hfind] at hfound
      by_contra hbudget
      have hkept := (settle_flight cache found _ _).mpr ⟨hfound ▸ hentryFlight, not_le.mp hbudget⟩
      cases hflight.symm.trans hkept

theorem beginRefresh_admission (hsound : cache.Sound log now) (key : κ) (timeout : Duration) :
    Admission cache log key now (cache.beginRefresh key now timeout).1
      (cache.beginRefresh key now timeout).2 := by
  unfold beginRefresh
  cases hfind : cache.entries.find key with
  | some =>
    apply startRefresh_admission hsound
    rw [card_insert_of_find hfind]
    exact hsound.bounded
  | none =>
    have hinsert : ∀ other : DnsCache κ, other.entries.keys.card < other.capacity →
        (Insert.insert key other.entries.keys).card ≤ other.capacity :=
      fun other hlt => (Finset.card_insert_le _ _).trans hlt
    by_cases hfull : cache.capacity ≤ cache.entries.keys.card
    · obtain ⟨hquiet, hswept⟩ := sweep_quiet hsound (fun _ hoccupied => hoccupied)
      simp only [Option.isNone_none, Bool.true_and, hfull, decide_true, ↓reduceIte]
      by_cases hstill : (cache.sweep (occupied now) now).capacity ≤
          (cache.sweep (occupied now) now).entries.keys.card
      · rw [if_pos (decide_eq_true hstill)]
        exact ⟨hquiet, hswept, by rintro _ ⟨⟩⟩
      · rw [if_neg (by simp [hstill])]
        obtain ⟨hrest, hlast, hstart⟩ := startRefresh_admission hswept _ _
          (hinsert _ (not_le.mp hstill))
        refine ⟨hquiet.trans hrest, hlast, ?_⟩
        intro _ htoken
        obtain ⟨hkey, hnew, -⟩ := hstart _ htoken
        exact ⟨hkey, hnew, by rw [hfind]; rintro _ _ ⟨⟩⟩
    · simp only [hfull]
      exact startRefresh_admission hsound _ _ (hinsert _ (not_le.mp hfull))

end Admission

end DnsCache

end PacketCore.PeerDiscovery
