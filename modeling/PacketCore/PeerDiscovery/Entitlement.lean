import PacketCore.PeerDiscovery.Cache

/-!
# What an entry is entitled to serve

The log records every admitted refresh, publication and removal of a run.  An
entry is sound for the log when its answer is the last success published for
its key with no authoritative denial or removal after it, when its denial is a
published one within both lifetimes, and when its flight belongs to a refresh
admitted since its key was last removed.
Settling an entry changes nothing that is served from then on.
-/

namespace PacketCore.PeerDiscovery

open Entry List

inductive Event (κ : Type)
  | started (key : κ) (identity : ℕ)
  | published (key : κ) (identity : ℕ) (now : Time) (result : Except DnsError DnsAnswer)
  | removed (key : κ)

/-- A removal of this key, or a publication for it that the answer before it does not survive. -/
def Event.Replaces {κ : Type} (event : Event κ) (key : κ) : Prop :=
  event = .removed key ∨ ∃ identity now result, event = .published key identity now result ∧
    ∀ error, result = .error error → error.authoritative

/-- The effective expiry of an answer published at `now`. -/
def effectiveExpiry (maxTtl maxNegativeTtl : Duration) (now : Time) (answer : DnsAnswer) : Time :=
  (answer.cappedExpiresAt (deadline now maxTtl) (deadline now maxNegativeTtl)).getD now

section Entries

variable {κ : Type} (maxTtl maxNegativeTtl : Duration) (log : List (Event κ)) (key : κ)

/-- The answer is the last success for its key and no denial or removal came after it. -/
def LastGood (answer : DnsAnswer) (expiry : Time) : Prop :=
  ∃ earlier identity time later,
    log = earlier ++ .published key identity time (.ok answer) :: later ∧
    expiry = effectiveExpiry maxTtl maxNegativeTtl time answer ∧
    ∀ event ∈ later, ¬ event.Replaces key

/-- The denial was published for its key and both its lifetimes last until `expiry`. -/
def Denied (error : DnsError) (expiry : Time) : Prop :=
  ∃ identity time own, .published key identity time (.error error) ∈ log ∧
    error.negativeDeadline = some own ∧ expiry ≤ own ∧ expiry ≤ deadline time maxNegativeTtl

/-- The refresh is the first of its identity, and its key was not removed since. -/
def Outstanding (identity : ℕ) : Prop :=
  ∃ earlier later, log = earlier ++ .started key identity :: later ∧
    (∀ other, .started other identity ∉ earlier) ∧ .removed key ∉ later

structure Entry.Sound (now : Time) (entry : Entry) : Prop where
  answer : ∀ answer, entry.answer = some answer →
    ∃ expiry, entry.expiresAt = some expiry ∧ LastGood maxTtl maxNegativeTtl log key answer expiry
  negative : ∀ expiry, entry.negativeExpiresAt = some expiry →
    entry.retryAt = some expiry ∧
      ∃ error, entry.lastError = some error ∧ Denied maxNegativeTtl log key error expiry
  flight : ∀ flight, entry.flight = some flight → Outstanding log key flight.identity
  /-- A refresh starts only after the retry time. -/
  paced : ∀ flight, entry.flight = some flight → ∀ retry, entry.retryAt = some retry → retry ≤ now

variable {maxTtl maxNegativeTtl log key} {now : Time} {entry : Entry}

/-- A refresh admitted before a removal of its key is not outstanding after it. -/
theorem Outstanding.not_removed {identity : ℕ} {earlier later : List (Event κ)}
    (houtstanding : Outstanding log key identity) (hlog : log = earlier ++ .removed key :: later)
    (hissued : .started key identity ∈ earlier) : False := by
  obtain ⟨front, back, hsplit, hfirst, hback⟩ := houtstanding
  rcases append_eq_append_iff.mp (hsplit.symm.trans hlog) with
    ⟨middle, rfl, hrest⟩ | ⟨middle, rfl, -⟩
  · cases middle with
    | nil => cases hrest
    | cons =>
      obtain ⟨-, rfl⟩ := cons.inj hrest
      exact hback (by simp)
  · exact hfirst _ (mem_append_left _ hissued)

theorem Entry.cold_sound : cold.Sound maxTtl maxNegativeTtl log key now where
  answer := by rintro _ ⟨⟩
  negative := by rintro _ ⟨⟩
  flight := by rintro _ ⟨⟩
  paced := by rintro _ ⟨⟩

section

variable (hsound : entry.Sound maxTtl maxNegativeTtl log key now)
include hsound

/-- Time and events that replace nothing leave a sound entry sound. -/
theorem Entry.Sound.concat {event : Event κ} (hevent : ¬ event.Replaces key)
    {later : Time} (hlater : now ≤ later) :
    entry.Sound maxTtl maxNegativeTtl (log ++ [event]) key later where
  answer answer hanswer := by
    obtain ⟨expiry, hexpiry, earlier, identity, time, after, rfl, hvalue, hafter⟩ :=
      hsound.answer _ hanswer
    exact ⟨expiry, hexpiry, earlier, identity, time, after ++ [event], by simp,
      hvalue, forall_mem_append.mpr ⟨hafter, forall_mem_singleton.mpr hevent⟩⟩
  negative expiry hexpiry := by
    obtain ⟨hretry, error, herror, identity, time, own, hmem, hdenied⟩ :=
      hsound.negative _ hexpiry
    exact ⟨hretry, error, herror, identity, time, own, mem_append_left _ hmem, hdenied⟩
  flight flight hflight := by
    obtain ⟨earlier, after, rfl, hfirst, hafter⟩ := hsound.flight _ hflight
    refine ⟨earlier, after ++ [event], by simp, hfirst, ?_⟩
    simpa [hafter] using fun hremoved => hevent (.inl hremoved.symm)
  paced flight hflight retry hretry := (hsound.paced _ hflight _ hretry).trans hlater

theorem Entry.Sound.later {later : Time} (hlater : now ≤ later) :
    entry.Sound maxTtl maxNegativeTtl log key later :=
  { hsound with
    paced := fun _ hflight _ hretry => (hsound.paced _ hflight _ hretry).trans hlater }

/-- A denial that is live where a refresh is in flight has outlived its retry time. -/
theorem Entry.Sound.not_denied {flight : Flight} {later : Time}
    (hflight : entry.flight = some flight) (hlater : now ≤ later) :
    entry.negativeExpiresAt.any (later < ·) = false := by
  cases hnegative : entry.negativeExpiresAt with
  | none => rfl
  | some =>
    have hretry := (hsound.negative _ hnegative).1
    have hle := hsound.paced _ hflight _ hretry
    simpa using hle.trans hlater

end

/-- A flight past its budget: a timeout that keeps the answer. -/
def Entry.timedOut (entry : Entry) (retryAt : Time) (failures : ℕ) : Entry :=
  ⟨entry.answer, entry.expiresAt, some .timeout, some retryAt, none, failures, none⟩

theorem Entry.expireFlight_cases (entry : Entry) (now : Time)
    (policy : DnsRetryPolicy) (maxNegativeTtl : Duration) :
    ((entry.expireFlight now policy maxNegativeTtl).1 = entry ∧
        ∀ flight, entry.flight = some flight → now < flight.deadline) ∨
      ∃ flight retryAt failures, entry.flight = some flight ∧ flight.deadline ≤ now ∧
        (entry.expireFlight now policy maxNegativeTtl).1 = entry.timedOut retryAt failures := by
  unfold expireFlight
  cases hflight : entry.flight with
  | none => exact .inl ⟨rfl, by simp⟩
  | some flight =>
    by_cases hdeadline : flight.deadline ≤ now
    · right
      let failures := min (entry.failures + 1) (2 ^ 32 - 1)
      refine ⟨flight, deadline flight.deadline (policy.delay failures).1,
        failures, rfl, hdeadline, ?_⟩
      dsimp only
      rw [if_pos hdeadline]
      rfl
    · left
      dsimp only
      rw [if_neg hdeadline]
      refine ⟨rfl, ?_⟩
      rintro _ ⟨⟩
      exact not_le.mp hdeadline

/-- A publication for a key is not a success or a denial for another. -/
theorem Event.not_replaces_published {other : κ} (hkey : key ≠ other)
    {identity : ℕ} {time : Time} {result : Except DnsError DnsAnswer} :
    ¬ (Event.published key identity time result).Replaces other := by
  rintro (⟨⟨⟩⟩ | ⟨_, _, _, heq, -⟩)
  exact hkey (Event.published.inj heq).1

theorem Event.not_replaces_started {other : κ} {identity : ℕ} :
    ¬ (Event.started key identity).Replaces other := by
  rintro (⟨⟨⟩⟩ | ⟨_, _, _, ⟨⟩, -⟩)

section

variable (hsound : entry.Sound maxTtl maxNegativeTtl log key now)
include hsound

theorem Entry.timedOut_sound (retryAt : Time) (failures : ℕ) :
    (entry.timedOut retryAt failures).Sound maxTtl maxNegativeTtl log key now where
  answer := hsound.answer
  negative := by rintro _ ⟨⟩
  flight := by rintro _ ⟨⟩
  paced := by rintro _ ⟨⟩

theorem Entry.expireStale_sound (time : Time) (maxStale : Duration) :
    (entry.expireStale time maxStale).Sound maxTtl maxNegativeTtl log key now := by
  unfold expireStale
  split
  · exact { hsound with answer := by rintro _ ⟨⟩ }
  · exact hsound

theorem Entry.failure_sound (error : DnsError) (identity : ℕ) (policy : DnsRetryPolicy) :
    (entry.failure error now policy maxNegativeTtl).1.Sound maxTtl maxNegativeTtl
      (log ++ [.published key identity now (.error error)]) key now := by
  have hanswer : ∀ answer, (if error.authoritative then none else entry.answer) = some answer →
      ∃ expiry, (if error.authoritative then none else entry.expiresAt) = some expiry ∧
        LastGood maxTtl maxNegativeTtl (log ++ [.published key identity now (.error error)]) key
          answer expiry := by
    intro answer hanswer
    cases hauthoritative : error.authoritative with
    | true =>
      rw [hauthoritative] at hanswer
      cases hanswer
    | false =>
      rw [hauthoritative] at hanswer
      rw [if_neg Bool.false_ne_true]
      refine (hsound.concat ?_ le_rfl).answer _ hanswer
      rintro (⟨⟨⟩⟩ | ⟨_, _, _, heq, hreplaces⟩)
      have := hreplaces _ (Event.published.inj heq).2.2.2.symm
      rw [hauthoritative] at this
      cases this
  unfold failure
  cases hnegative : negativeUntil error now maxNegativeTtl with
  | none =>
    exact
      { answer := hanswer
        negative := by rintro _ ⟨⟩
        flight := by rintro _ ⟨⟩
        paced := by rintro _ ⟨⟩ }
  | some =>
    obtain ⟨hcapped, -⟩ := Option.filter_eq_some_iff.mp hnegative
    obtain ⟨own, hown, rfl⟩ := Option.map_eq_some_iff.mp hcapped
    exact
      { answer := hanswer
        negative := by
          rintro _ ⟨⟩
          exact ⟨rfl, error, rfl, identity, now, own, by simp, hown,
            min_le_left _ _, min_le_right _ _⟩
        flight := by rintro _ ⟨⟩
        paced := by rintro _ ⟨⟩ }

end

/-- A published success. -/
theorem Entry.publish_sound (entry : Entry) (answer : DnsAnswer) (identity : ℕ)
    (now : Time) (policy : DnsRetryPolicy) (maxStale refreshInterval : Duration) :
    (entry.publish answer now policy maxTtl maxNegativeTtl maxStale refreshInterval).1.Sound
      maxTtl maxNegativeTtl (log ++ [.published key identity now (.ok answer)]) key now := by
  unfold publish
  dsimp only
  generalize (decide (maxTtl ≠ 0) && !answer.allRecords.any fun record =>
    decide (record.ttl = 0) || record.ttl.testBit 31) = cacheable
  generalize hwritten : ({ entry with
    answer := if cacheable then some answer else none
    expiresAt := if cacheable then
        some ((answer.cappedExpiresAt (deadline now maxTtl) (deadline now maxNegativeTtl)).getD now)
      else none } : Entry) = written
  have hgood : ∀ kept, (written.expireStale now maxStale).answer = some kept →
      ∃ expiry, (written.expireStale now maxStale).expiresAt = some expiry ∧
        LastGood maxTtl maxNegativeTtl (log ++ [.published key identity now (.ok answer)]) key
          kept expiry := by
    intro kept hkept
    unfold expireStale at hkept ⊢
    split at hkept
    case isTrue => cases hkept
    case isFalse hstays =>
      rw [if_neg hstays]
      subst hwritten
      cases cacheable with
      | false => cases hkept
      | true =>
        cases hkept
        exact ⟨_, rfl, log, identity, now, [], rfl, rfl, by simp⟩
  split
  all_goals exact
    { answer := hgood
      negative := by rintro _ ⟨⟩
      flight := by rintro _ ⟨⟩
      paced := by rintro _ ⟨⟩ }

@[simp]
theorem Entry.expireStale_flight (entry : Entry) (time : Time) (maxStale : Duration) :
    (entry.expireStale time maxStale).flight = entry.flight := by
  unfold expireStale
  split <;> rfl

@[simp]
theorem Entry.expireStale_retryAt (entry : Entry) (time : Time) (maxStale : Duration) :
    (entry.expireStale time maxStale).retryAt = entry.retryAt := by
  unfold expireStale
  split <;> rfl

end Entries

section Serving

variable {maxStale : Duration} {now later : Time} {entry : Entry}

/-- The answer is fresh or within its stale limit. -/
def Entry.usable (entry : Entry) (maxStale : Duration) (now : Time) : Bool :=
  entry.fresh now || entry.retained now maxStale

theorem Entry.usable_of_later (hlater : now ≤ later)
    (husable : entry.usable maxStale later) : entry.usable maxStale now := by
  unfold usable fresh retained at husable ⊢
  cases hexpiry : entry.expiresAt with
  | none => simp [hexpiry] at husable
  | some =>
    simp only [hexpiry, Option.any_some, Bool.or_eq_true, Bool.and_eq_true,
      decide_eq_true_eq] at husable ⊢
    exact husable.imp (And.imp_right hlater.trans_lt) (And.imp_right hlater.trans_lt)

theorem Entry.served_of_not_usable (husable : entry.usable maxStale now = false)
    (hdenied : entry.negativeExpiresAt.any (now < ·) = false) :
    entry.served maxStale now = .miss := by
  unfold usable at husable
  simp [served, husable, hdenied]

theorem Entry.served_expireStale (hlater : now ≤ later) :
    (entry.expireStale now maxStale).served maxStale later = entry.served maxStale later := by
  unfold expireStale
  split
  case isFalse => rfl
  case isTrue hgone =>
    have hunusable : entry.usable maxStale later = false := by
      by_contra hother
      have hnow := usable_of_later hlater (Bool.not_eq_false _ ▸ hother)
      unfold usable at hnow
      simp_all
    unfold usable at hunusable
    simp [served, hunusable]

theorem Entry.served_timedOut (retryAt : Time) (failures : ℕ)
    (hdenied : entry.negativeExpiresAt.any (later < ·) = false) :
    (entry.timedOut retryAt failures).served maxStale later = entry.served maxStale later := by
  unfold served timedOut fresh retained
  simp [hdenied]

theorem Entry.served_eq_fresh {answer : DnsAnswer}
    (hserved : entry.served maxStale now = .fresh answer) :
    entry.answer = some answer ∧ ∃ expiry, entry.expiresAt = some expiry ∧ now < expiry := by
  unfold served at hserved
  split at hserved
  case h_1 kept hkept =>
    split at hserved
    case isTrue hfresh =>
      cases hserved
      refine ⟨(Option.filter_eq_some_iff.mp hkept).1, ?_⟩
      simp only [fresh, Bool.and_eq_true, Option.any_eq_true] at hfresh
      simpa using hfresh.2
    case isFalse => cases hserved
  case h_2 => split at hserved <;> cases hserved

theorem Entry.served_eq_stale {answer : DnsAnswer} {age : ℕ}
    (hserved : entry.served maxStale now = .stale answer age) :
    entry.answer = some answer ∧ ∃ expiry, entry.expiresAt = some expiry ∧
      expiry ≤ now ∧ now < deadline expiry maxStale ∧ age = now - expiry := by
  unfold served at hserved
  split at hserved
  case h_1 kept hkept =>
    split at hserved
    case isTrue => cases hserved
    case isFalse hfresh =>
      cases hserved
      obtain ⟨hanswer, husable⟩ := Option.filter_eq_some_iff.mp hkept
      refine ⟨hanswer, ?_⟩
      cases hexpiry : entry.expiresAt with
      | none => simp [fresh, retained, hexpiry] at husable
      | some expiry =>
        simp only [fresh, retained, hanswer, hexpiry, Option.isSome_some,
          Option.any_some, Bool.true_and, decide_eq_true_eq, not_lt, Bool.or_eq_true]
          at hfresh husable
        exact ⟨expiry, rfl, hfresh, husable.resolve_left (not_lt.mpr hfresh), rfl⟩
  case h_2 => split at hserved <;> cases hserved

theorem Entry.served_eq_negative {error : DnsError}
    (hserved : entry.served maxStale now = .negative error) :
    entry.lastError = some error ∧
      ∃ expiry, entry.negativeExpiresAt = some expiry ∧ now < expiry := by
  unfold served at hserved
  split at hserved
  case h_1 => split at hserved <;> cases hserved
  case h_2 =>
    split at hserved
    case h_1 kept hkept =>
      cases hserved
      obtain ⟨herror, hlive⟩ := Option.filter_eq_some_iff.mp hkept
      refine ⟨herror, ?_⟩
      simpa [Option.any_eq_true] using hlive
    case h_2 => cases hserved

end Serving

end PacketCore.PeerDiscovery
