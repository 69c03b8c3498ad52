import Mathlib
import PacketCore.Diameter.EndToEnd

/-!
# Uniqueness over four minutes

Inside one process life the queue and the map hold the same entries, so an
identifier handed out less than four minutes ago is skipped; that a free
candidate exists is a pigeonhole argument over the sequence numbers.  Across
lives nothing is remembered: there the restart fence separates the wall-clock
seconds, and the twelve bits of the second tell the identifiers apart.
-/

namespace PacketCore.Diameter

open List

variable {entry : RecentIdentifier} {attempts second identifier : ℕ}
  {isProtected : ℕ → Bool} {sequence : Fin (2 ^ 20)} {state next observed : AuthorityState}
  {now : IdentifierTime} {config : IdentifierConfig}

section Queue

variable {order : List RecentIdentifier} {recent : Table ℕ ℕ} {now : ℕ}

/-- The map has exactly the entries of the queue. -/
def Exact (order : List RecentIdentifier) (recent : Table ℕ ℕ) : Prop :=
  ∀ identifier allocatedAt,
    recent.find identifier = some allocatedAt ↔ ⟨identifier, allocatedAt⟩ ∈ order

theorem expireRecent_fst (order : List RecentIdentifier) (recent : Table ℕ ℕ) (now : ℕ) :
    (expireRecent now order recent).1 = order.dropWhile (·.expired now) := by
  induction order generalizing recent with
  | nil => rfl
  | cons entry _ ih =>
    unfold expireRecent
    by_cases hexpired : entry.expired now = true
    · rw [if_pos hexpired, dropWhile_cons, if_pos hexpired, ih]
    · rw [if_neg hexpired, dropWhile_cons, if_neg hexpired]

/-- Expiry keeps map and queue in step. -/
theorem Exact.expire (now : ℕ) (hexact : Exact order recent)
    (hdistinct : (order.map RecentIdentifier.identifier).Nodup) :
    Exact (expireRecent now order recent).1 (expireRecent now order recent).2 := by
  induction order generalizing recent with
  | nil => exact hexact
  | cons _ _ ih =>
    unfold expireRecent
    split
    · rw [map_cons, nodup_cons] at hdistinct
      apply ih _ hdistinct.2
      intro identifier _
      rw [Table.find_erase]
      split
      · next hsame =>
        subst hsame
        constructor
        · rintro ⟨⟩
        · intro hmem
          exact absurd (mem_map_of_mem hmem) hdistinct.1
      · next hother =>
        rw [hexact, mem_cons, or_iff_right]
        rintro rfl
        exact hother rfl
    · exact hexact

/-- What has not expired is still queued. -/
theorem mem_dropWhile_of_not (hentry : entry ∈ order)
    (hlive : ¬ entry.expired now = true) : entry ∈ order.dropWhile (·.expired now) := by
  rw [← takeWhile_append_dropWhile (p := (·.expired now)) (l := order)] at hentry
  rcases mem_append.1 hentry with htaken | hkept
  · exact absurd (mem_takeWhile_imp htaken) hlive
  · exact hkept

/-- What is still queued has not expired: the queue is in order of time. -/
theorem not_expired_of_mem_dropWhile
    (hsorted : order.Pairwise fun left right => left.allocatedAt ≤ right.allocatedAt)
    (hentry : entry ∈ order.dropWhile (·.expired now)) : ¬ entry.expired now = true := by
  induction order with
  | nil => cases hentry
  | cons head _ ih =>
    rw [pairwise_cons] at hsorted
    by_cases hhead : head.expired now = true
    · rw [dropWhile_cons, if_pos hhead] at hentry
      exact ih hsorted.2 hentry
    · rw [dropWhile_cons, if_neg hhead] at hentry
      rcases mem_cons.1 hentry with rfl | hrest
      · exact hhead
      · have hlater := hsorted.1 _ hrest
        simp only [RecentIdentifier.expired, decide_eq_true_eq] at hhead ⊢
        omega

end Queue

section Candidates

variable {unixSeconds : ℕ}

theorem candidate_injective : Function.Injective (candidate unixSeconds) := by
  intro _ _ hsame
  unfold candidate at hsame
  omega

/-- Seconds less than 4096 apart give different identifiers. -/
theorem candidate_ne {first : ℕ} (hlater : first < second) (hnear : second - first ≤ 4095)
    (left right : Fin (2 ^ 20)) : candidate first left ≠ candidate second right := by
  have hright := right.isLt
  unfold candidate
  omega

theorem selectCandidate_eq_some {selected : ℕ × Fin (2 ^ 20)}
    (hselect : selectCandidate isProtected unixSeconds attempts sequence = some selected) :
    isProtected selected.1 = false ∧ ∃ used, selected.1 = candidate unixSeconds used := by
  induction attempts generalizing sequence with
  | zero => cases hselect
  | succ _ ih =>
    unfold selectCandidate at hselect
    split at hselect
    · exact ih hselect
    · next hfree =>
      cases hselect
      exact ⟨by simpa using hfree, sequence, rfl⟩

theorem isProtected_of_selectCandidate
    (hselect : selectCandidate isProtected unixSeconds attempts sequence = none)
    {step : ℕ} (hstep : step < attempts) :
    isProtected (candidate unixSeconds (sequence + Fin.ofNat (2 ^ 20) step)) = true := by
  induction attempts generalizing sequence step with
  | zero => omega
  | succ attempts ih =>
    unfold selectCandidate at hselect
    split at hselect
    · next htaken =>
      cases step with
      | zero => simpa using htaken
      | succ step =>
        have hlater := ih hselect (show step < attempts by omega)
        rwa [add_assoc, show (1 : Fin (2 ^ 20)) + Fin.ofNat (2 ^ 20) step =
          Fin.ofNat (2 ^ 20) (step + 1) by
            apply Fin.ext
            simp [Fin.val_add, Nat.add_comm]] at hlater
    · cases hselect

/-- Among more candidates than protected identifiers one is free. -/
theorem selectCandidate_ne_none (taken : List ℕ)
    (htaken : ∀ identifier, isProtected identifier = true → identifier ∈ taken)
    (hroom : attempts ≤ 2 ^ 20) (hmore : taken.length < attempts) :
    selectCandidate isProtected unixSeconds attempts sequence ≠ none := by
  intro hselect
  let tried : List ℕ := (range attempts).map fun step =>
    candidate unixSeconds (sequence + Fin.ofNat (2 ^ 20) step)
  have hdistinct : tried.Nodup := by
    refine List.Nodup.map_on ?_ nodup_range
    intro _ hleft _ hright hsame
    rw [mem_range] at hleft hright
    have hsteps := congrArg Fin.val (add_left_cancel (candidate_injective hsame))
    rwa [Fin.val_ofNat, Fin.val_ofNat, Nat.mod_eq_of_lt (by omega),
      Nat.mod_eq_of_lt (by omega)] at hsteps
  have hsubset : tried ⊆ taken := by
    intro identifier hidentifier
    obtain ⟨step, hstep, rfl⟩ := mem_map.1 hidentifier
    exact htaken _ (isProtected_of_selectCandidate hselect (mem_range.1 hstep))
  have hlength := (hdistinct.subperm hsubset).length_le
  rw [length_map, length_range] at hlength
  omega

end Candidates

/-- What holds of the state between calls. -/
structure Sound (state : AuthorityState) : Prop where
  sorted : state.recentOrder.Pairwise fun left right => left.allocatedAt ≤ right.allocatedAt
  past : ∀ entry ∈ state.recentOrder, entry.allocatedAt ≤ state.lastMonotonic
  distinct : (state.recentOrder.map RecentIdentifier.identifier).Nodup
  exact : Exact state.recentOrder state.recent

theorem Sound.new (now : IdentifierTime) : Sound (.new now) :=
  ⟨.nil, by simp [AuthorityState.new], .nil, by simp [Exact, AuthorityState.new]⟩

theorem observeTime_eq_ok (hok : state.observeTime now = .ok observed) :
    state.lastMonotonic ≤ now.monotonic ∧
      state.lastUnixSeconds ≤ now.unixSeconds ∧ observed = { state with
        lastUnixSeconds := now.unixSeconds, lastMonotonic := now.monotonic } := by
  obtain ⟨hmonotonic, hok⟩ := refuseIf_bind hok
  obtain ⟨hwall, hok⟩ := refuseIf_bind hok
  rw [not_lt] at hmonotonic hwall
  cases hok
  exact ⟨hmonotonic, hwall, rfl⟩

theorem Sound.observe (hsound : Sound state) (hobserve : state.observeTime now = .ok observed) :
    Sound observed ∧ observed.lastMonotonic = now.monotonic := by
  obtain ⟨hmonotonic, _, rfl⟩ := observeTime_eq_ok hobserve
  exact ⟨{ hsound with past := fun entry hentry => (hsound.past _ hentry).trans hmonotonic }, rfl⟩

/-- The queue after a call has what did not expire, and the new identifier. -/
theorem grant_eq_ok (hok : state.grant config now = .ok (next, identifier)) :
    (∀ second ∈ state.restartAfterSecond, second < now.unixSeconds) ∧
      state.isProtected now.monotonic identifier = false ∧
      (∃ used, identifier = candidate now.unixSeconds used) ∧
      next.lastUnixSeconds = state.lastUnixSeconds ∧
      next.lastMonotonic = state.lastMonotonic ∧ next.restartAfterSecond = none ∧
      next.recentOrder = state.recentOrder.dropWhile
        (·.expired now.monotonic) ++ [⟨identifier, now.monotonic⟩] ∧
      next.recent = (expireRecent now.monotonic state.recentOrder state.recent).2.insert identifier
        now.monotonic := by
  obtain ⟨hrestart, hok⟩ := refuseIf_bind hok
  obtain ⟨_, _, hok⟩ := bind_eq_ok hok
  obtain ⟨_, hselect, hok⟩ := okOr_bind hok
  obtain ⟨hfree, hused⟩ := selectCandidate_eq_some hselect
  cases hok
  refine ⟨fun second hsecond => ?_, hfree, hused, rfl, rfl, rfl, ?_, rfl⟩
  · by_contra hlate
    exact hrestart ⟨second, hsecond, not_lt.1 hlate⟩
  · rw [expireRecent_fst]

theorem isProtected_iff (hsound : Sound state) (identifier : ℕ) (now : ℕ) :
    state.isProtected now identifier = true ↔
      ∃ entry ∈ state.recentOrder, entry.identifier = identifier ∧ ¬ entry.expired now = true := by
  unfold AuthorityState.isProtected RecentIdentifier.expired
  rw [Option.any_eq_true]
  constructor
  · rintro ⟨allocatedAt, hfind, hlive⟩
    exact ⟨_, (hsound.exact _ _).1 hfind, rfl, by simpa using hlive⟩
  · rintro ⟨⟨_, allocatedAt⟩, hentry, rfl, hlive⟩
    exact ⟨allocatedAt, (hsound.exact _ _).2 hentry, by simpa using hlive⟩

theorem Sound.grant (hsound : Sound state) (hnow : state.lastMonotonic = now.monotonic)
    (hgrant : state.grant config now = .ok (next, identifier)) : Sound next := by
  obtain ⟨_, hfree, _, _, hlast, _, horder, hrecent⟩ := grant_eq_ok hgrant
  have hkept : (state.recentOrder.dropWhile (·.expired now.monotonic)).Sublist state.recentOrder :=
    dropWhile_sublist _
  have hnew : ∀ entry ∈ state.recentOrder.dropWhile (·.expired now.monotonic),
      entry.identifier ≠ identifier := by
    intro entry hentry hsame
    have htaken : state.isProtected now.monotonic identifier = true :=
      (isProtected_iff hsound _ _).2
        ⟨entry, hkept.subset hentry, hsame, not_expired_of_mem_dropWhile hsound.sorted hentry⟩
    rw [hfree] at htaken
    cases htaken
  refine ⟨?_, ?_, ?_, ?_⟩
  · rw [horder, pairwise_append]
    refine ⟨hsound.sorted.sublist hkept, pairwise_singleton _ _, ?_⟩
    intro entry hentry _ hlast
    rw [mem_singleton.1 hlast]
    exact hnow ▸ hsound.past _ (hkept.subset hentry)
  · rw [horder, hlast]
    refine forall_mem_append.2 ⟨fun entry hentry => ?_, forall_mem_singleton.2 hnow.ge⟩
    exact hsound.past _ (hkept.subset hentry)
  · rw [horder, map_append, nodup_append]
    refine ⟨hsound.distinct.sublist (hkept.map _), nodup_singleton _, ?_⟩
    intro _ hkept' _ hadded
    obtain ⟨entry, hentry, rfl⟩ := mem_map.1 hkept'
    rw [map_singleton, mem_singleton] at hadded
    rw [hadded]
    exact hnew _ hentry
  · have hexact := hsound.exact.expire now.monotonic hsound.distinct
    rw [expireRecent_fst] at hexact
    intro _ _
    rw [horder, hrecent, Table.find_insert, mem_append, mem_singleton]
    split
    · next hsame =>
      subst hsame
      constructor
      · rintro ⟨⟩
        exact .inr rfl
      · rintro (hentry | hentry)
        · exact absurd rfl (hnew _ hentry)
        · cases hentry
          rfl
    · next hother =>
      rw [hexact, or_iff_left]
      rintro ⟨⟩
      exact hother rfl

/-- A free candidate is always found. -/
theorem grant_ne_stateUnavailable (hsound : Sound state) :
    state.grant config now ≠ .error .stateUnavailable := by
  intro hgrant
  rcases bind_eq_error hgrant with hrefused | ⟨_, _, hgrant⟩
  · cases (refuseIf_eq_error.1 hrefused).2
  rcases bind_eq_error hgrant with hrefused | ⟨_, hroom, hgrant⟩
  · cases (refuseIf_eq_error.1 hrefused).2
  rcases bind_eq_error hgrant with hrefused | ⟨_, _, hgrant⟩
  · rw [okOr_eq_error] at hrefused
    rw [refuseIf_eq_ok] at hroom
    have hcount : state.effectiveRecentCount now.monotonic =
        (state.recentOrder.dropWhile (·.expired now.monotonic)).length := by
      have hsplit := congrArg length
        (takeWhile_append_dropWhile (p := (·.expired now.monotonic)) (l := state.recentOrder))
      rw [length_append] at hsplit
      unfold AuthorityState.effectiveRecentCount AuthorityState.expiredCount
      omega
    refine selectCandidate_ne_none ((state.recentOrder.dropWhile (·.expired now.monotonic)).map
      RecentIdentifier.identifier) ?_ ?_ ?_ hrefused.1
    · intro identifier htaken
      obtain ⟨_, hentry, rfl, hlive⟩ := (isProtected_iff hsound _ _).1 htaken
      exact mem_map_of_mem (mem_dropWhile_of_not hentry hlive)
    · have hbound := config.bounded
      omega
    · rw [length_map]
      omega
  · cases hgrant

/-- An observation and the real instant of it, in seconds. -/
structure Observation where
  real : ℝ
  time : IdentifierTime

/-- One process life: the observation at construction, and the calls; a call
whose clock is unavailable observes nothing. -/
structure Life where
  config : IdentifierConfig
  start : Observation
  calls : List (Option Observation)

/-- A successful call and the identifier it returned. -/
@[ext]
structure Grant where
  observation : Observation
  identifier : ℕ

/-- The answers of successive calls. -/
def answers (config : IdentifierConfig) :
    AuthorityState → List (Option Observation) →
      List (Option Observation × Except IdentifierError ℕ)
  | _, [] => []
  | state, call :: calls =>
    let answer := state.allocate config (call.map Observation.time)
    (call, answer.2) :: answers config answer.1 calls

/-- The grant among an answer. -/
def granted : Option Observation × Except IdentifierError ℕ → Option Grant
  | (some observation, .ok identifier) => some ⟨observation, identifier⟩
  | _ => none

namespace Life

def answers (life : Life) : List (Option Observation × Except IdentifierError ℕ) :=
  Diameter.answers life.config (.new life.start.time) life.calls

def grants (life : Life) : List Grant := life.answers.filterMap granted

def observations (life : Life) : List Observation := life.start :: life.calls.filterMap id

end Life

/-- What the clocks of successive lives promise: whole seconds do not go back
and do not advance by a full turn of the twelve bits within four minutes, and
inside one life the monotonic clock does not run four minutes ahead of time. -/
structure FaithfulClocks (lives : List Life) : Prop where
  wall : (lives.flatMap Life.observations).Pairwise fun first second =>
    first.time.unixSeconds ≤ second.time.unixSeconds ∧
      (|second.real - first.real| < 240 → second.time.unixSeconds - first.time.unixSeconds ≤ 4095)
  monotonic : ∀ life ∈ lives, life.observations.Pairwise fun first second =>
    |second.real - first.real| < 240 →
      second.time.monotonic < first.time.monotonic + identifierFence

/-- What one call can do. -/
inductive Outcome (config : IdentifierConfig) (state : AuthorityState) :
    Option IdentifierTime → AuthorityState × Except IdentifierError ℕ → Prop
  | refused {clock fault} (hfault : fault ≠ .stateUnavailable) :
      Outcome config state clock (state, .error fault)
  | fenced {now : IdentifierTime} {observed : AuthorityState} {fault}
      (hobserve : state.observeTime now = .ok observed)
      (hgrant : observed.grant config now = .error fault) :
      Outcome config state (some now) (observed, .error fault)
  | granted {now : IdentifierTime} {observed next : AuthorityState}
      {identifier : ℕ} (hobserve : state.observeTime now = .ok observed)
      (hgrant : observed.grant config now = .ok (next, identifier)) :
      Outcome config state (some now) (next, .ok identifier)

theorem observeTime_ne_stateUnavailable : state.observeTime now ≠ .error .stateUnavailable := by
  intro hobserve
  rcases bind_eq_error hobserve with hrefused | ⟨_, _, hobserve⟩
  · cases (refuseIf_eq_error.1 hrefused).2
  rcases bind_eq_error hobserve with hrefused | ⟨_, _, hobserve⟩
  · cases (refuseIf_eq_error.1 hrefused).2
  · cases hobserve

theorem allocate_outcome (config : IdentifierConfig) (state : AuthorityState)
    (clock : Option IdentifierTime) : Outcome config state clock (state.allocate config clock) := by
  cases clock with
  | none => exact .refused (by decide)
  | some now =>
    cases hobserve : state.observeTime now with
    | error =>
      simp only [AuthorityState.allocate, hobserve]
      apply Outcome.refused
      rintro rfl
      exact observeTime_ne_stateUnavailable hobserve
    | ok observed =>
      cases hgrant : observed.grant config now with
      | error =>
        simp only [AuthorityState.allocate, hobserve, hgrant]
        exact .fenced hobserve hgrant
      | ok =>
        simp only [AuthorityState.allocate, hobserve, hgrant]
        exact .granted hobserve hgrant

variable {clock : Option IdentifierTime} {result : AuthorityState × Except IdentifierError ℕ}

theorem Outcome.sound (houtcome : Outcome config state clock result)
    (hsound : Sound state) : Sound result.1 ∧ result.2 ≠ .error .stateUnavailable := by
  cases houtcome with
  | refused hfault => exact ⟨hsound, by simpa using hfault⟩
  | fenced hobserve hgrant =>
    refine ⟨(hsound.observe hobserve).1, ?_⟩
    rintro ⟨⟩
    exact grant_ne_stateUnavailable (hsound.observe hobserve).1 hgrant
  | granted hobserve hgrant =>
    obtain ⟨hobserved, hlast⟩ := hsound.observe hobserve
    exact ⟨hobserved.grant hlast hgrant, by simp⟩

theorem answers_ne_stateUnavailable (hsound : Sound state) (calls : List (Option Observation)) :
    ∀ answer ∈ answers config state calls, answer.2 ≠ .error .stateUnavailable := by
  induction calls generalizing state with
  | nil => simp [answers]
  | cons call _ ih =>
    have hcall := (allocate_outcome config _ (call.map Observation.time)).sound hsound
    exact forall_mem_cons.2 ⟨hcall.2, ih hcall.1⟩

/-- The entry is queued for as long as it protects its identifier. -/
def Remembered (entry : RecentIdentifier) (state : AuthorityState) : Prop :=
  state.lastMonotonic - entry.allocatedAt < identifierFence → entry ∈ state.recentOrder

theorem Remembered.observe (hremembered : Remembered entry state)
    (hobserve : state.observeTime now = .ok observed) : Remembered entry observed := by
  obtain ⟨_, _, rfl⟩ := observeTime_eq_ok hobserve
  intro hlive
  have hlive' : now.monotonic - entry.allocatedAt < identifierFence := hlive
  exact hremembered (by omega)

theorem Remembered.grant (hremembered : Remembered entry state)
    (hnow : state.lastMonotonic = now.monotonic)
    (hgrant : state.grant config now = .ok (next, identifier)) : Remembered entry next := by
  obtain ⟨_, _, _, _, hlast, _, horder, _⟩ := grant_eq_ok hgrant
  intro hlive
  rw [hlast] at hlive
  rw [horder]
  apply mem_append_left
  apply mem_dropWhile_of_not (hremembered hlive)
  rw [hnow] at hlive
  simpa [RecentIdentifier.expired] using hlive

theorem Outcome.remembered (houtcome : Outcome config state clock result) (hsound : Sound state)
    (hremembered : Remembered entry state) : Remembered entry result.1 := by
  cases houtcome with
  | refused => exact hremembered
  | fenced hobserve => exact hremembered.observe hobserve
  | granted hobserve hgrant =>
    exact (hremembered.observe hobserve).grant (hsound.observe hobserve).2 hgrant

/-- A remembered identifier is not granted again while it is protected. -/
theorem grant_ne_of_remembered (hsound : Sound state)
    (hremembered : Remembered entry state) (hnow : state.lastMonotonic = now.monotonic)
    (hgrant : state.grant config now = .ok (next, identifier))
    (hlive : now.monotonic - entry.allocatedAt < identifierFence) :
    entry.identifier ≠ identifier := by
  rintro rfl
  obtain ⟨_, hfree, _⟩ := grant_eq_ok hgrant
  have hentry : entry ∈ state.recentOrder := hremembered (by rwa [hnow])
  have htaken : state.isProtected now.monotonic entry.identifier = true :=
    (isProtected_iff hsound _ _).2
      ⟨entry, hentry, rfl, by simpa [RecentIdentifier.expired] using hlive⟩
  rw [hfree] at htaken
  cases htaken

theorem granted_eq_some {answer : Option Observation × Except IdentifierError ℕ} {grant : Grant} :
    granted answer = some grant ↔ answer = (some grant.observation, .ok grant.identifier) := by
  obtain ⟨_ | observation, _ | identifier⟩ := answer <;> simp [granted, Grant.ext_iff]

/-- A successful call observed the clock and was granted an identifier. -/
theorem allocate_eq_ok (hanswer : (state.allocate config (some now)).2 = .ok identifier) :
    ∃ observed, state.observeTime now = .ok observed ∧
      observed.grant config now = .ok ((state.allocate config (some now)).1, identifier) := by
  have houtcome := allocate_outcome config state (some now)
  generalize state.allocate config (some now) = result at hanswer houtcome ⊢
  cases houtcome with
  | refused | fenced => cases hanswer
  | granted hobserve hgrant =>
    cases hanswer
    exact ⟨_, hobserve, hgrant⟩

/-- What holds of every call that is granted, from what every call preserves. -/
theorem forall_grants (Inv : AuthorityState → Prop) {Holds : Grant → Prop}
    (hstep : ∀ state clock, Inv state → Inv (state.allocate config clock).1)
    (hgrant : ∀ state (observation : Observation) identifier, Inv state →
      (state.allocate config (some observation.time)).2 = .ok identifier →
      Holds ⟨observation, identifier⟩) (hinv : Inv state) (calls : List (Option Observation)) :
    ∀ grant ∈ (answers config state calls).filterMap granted, Holds grant := by
  induction calls generalizing state with
  | nil => simp [answers]
  | cons _ _ ih =>
    intro grant hmem
    obtain ⟨answer, hanswer, hgranted⟩ := mem_filterMap.1 hmem
    rcases mem_cons.1 hanswer with rfl | hrest
    · rw [granted_eq_some, Prod.mk.injEq] at hgranted
      obtain ⟨rfl, hok⟩ := hgranted
      exact hgrant _ _ _ hinv hok
    · exact ih (hstep _ _ hinv) _ (mem_filterMap.2 ⟨answer, hrest, hgranted⟩)

theorem grants_ne_of_remembered (hsound : Sound state)
    (hremembered : Remembered entry state) (calls : List (Option Observation)) :
    ∀ grant ∈ (answers config state calls).filterMap granted,
      grant.observation.time.monotonic - entry.allocatedAt < identifierFence →
        entry.identifier ≠ grant.identifier := by
  refine forall_grants (fun state => Sound state ∧ Remembered entry state) ?_ ?_
    ⟨hsound, hremembered⟩ _
  · rintro state clock ⟨hsound, hremembered⟩
    have houtcome := allocate_outcome config state clock
    exact ⟨(houtcome.sound hsound).1, houtcome.remembered hsound hremembered⟩
  · rintro state observation identifier ⟨hsound, hremembered⟩ hok hlive
    obtain ⟨_, hobserve, hgrant⟩ := allocate_eq_ok hok
    obtain ⟨hobserved, hnow⟩ := hsound.observe hobserve
    exact grant_ne_of_remembered hobserved (hremembered.observe hobserve) hnow hgrant hlive

/-- Inside one life, grants within the fence differ. -/
theorem grants_pairwise (hsound : Sound state) (calls : List (Option Observation)) :
    ((answers config state calls).filterMap granted).Pairwise fun first second =>
      second.observation.time.monotonic - first.observation.time.monotonic < identifierFence →
        first.identifier ≠ second.identifier := by
  induction calls generalizing state with
  | nil => exact .nil
  | cons call _ ih =>
    have hnext := ((allocate_outcome config _ (call.map Observation.time)).sound hsound).1
    simp only [answers, filterMap_cons]
    cases hgranted : granted (call, (state.allocate config (call.map Observation.time)).2) with
    | none => exact ih hnext
    | some grant =>
      rw [granted_eq_some, Prod.mk.injEq] at hgranted
      obtain ⟨rfl, hok⟩ := hgranted
      refine pairwise_cons.2 ⟨?_, ih hnext⟩
      obtain ⟨_, _, hgrant⟩ := allocate_eq_ok hok
      obtain ⟨_, _, _, _, _, _, horder, _⟩ := grant_eq_ok hgrant
      have hremembered : Remembered ⟨grant.identifier, grant.observation.time.monotonic⟩
          (state.allocate config (some grant.observation.time)).1 := by
        intro _
        rw [horder]
        simp
      exact grants_ne_of_remembered hnext hremembered _

/-- The restart fence of a life that began in `second`. -/
def Fenced (second : ℕ) (state : AuthorityState) : Prop :=
  state.restartAfterSecond = some second ∨ second < state.lastUnixSeconds

theorem Fenced.observe (hfenced : Fenced second state)
    (hobserve : state.observeTime now = .ok observed) :
    Fenced second observed ∧ observed.lastUnixSeconds = now.unixSeconds := by
  obtain ⟨_, hwall, rfl⟩ := observeTime_eq_ok hobserve
  exact ⟨hfenced.imp id fun hlate => hlate.trans_le hwall, rfl⟩

theorem Fenced.lt_of_grant (hfenced : Fenced second state)
    (hnow : state.lastUnixSeconds = now.unixSeconds)
    (hgrant : state.grant config now = .ok (next, identifier)) : second < now.unixSeconds := by
  obtain ⟨hrestart, _⟩ := grant_eq_ok hgrant
  rcases hfenced with hfence | hlate
  · exact hrestart _ hfence
  · exact hnow ▸ hlate

/-- Grants fall in seconds after the one the life began in. -/
theorem grants_after_start (hfenced : Fenced second state) (calls : List (Option Observation)) :
    ∀ grant ∈ (answers config state calls).filterMap granted,
      second < grant.observation.time.unixSeconds ∧
        ∃ used, grant.identifier = candidate grant.observation.time.unixSeconds used := by
  refine forall_grants _ ?_ ?_ hfenced _
  · intro state clock hfenced
    have houtcome := allocate_outcome config state clock
    generalize state.allocate config clock = result at houtcome ⊢
    cases houtcome with
    | refused => exact hfenced
    | fenced hobserve => exact (hfenced.observe hobserve).1
    | granted hobserve hgrant =>
      obtain ⟨hobserved, hnow⟩ := hfenced.observe hobserve
      obtain ⟨_, _, _, hunix, _⟩ := grant_eq_ok hgrant
      refine .inr ?_
      rw [hunix, hnow]
      exact hobserved.lt_of_grant hnow hgrant
  · intro state observation identifier hfenced hok
    obtain ⟨_, hobserve, hgrant⟩ := allocate_eq_ok hok
    obtain ⟨hobserved, hnow⟩ := hfenced.observe hobserve
    exact ⟨hobserved.lt_of_grant hnow hgrant, (grant_eq_ok hgrant).2.2.1⟩

/-- Grants are made at observations of the life, in their order. -/
theorem observations_grants (state : AuthorityState) (calls : List (Option Observation)) :
    (((answers config state calls).filterMap granted).map Grant.observation).Sublist
      (calls.filterMap id) := by
  induction calls generalizing state with
  | nil => exact .slnil
  | cons call _ ih =>
    simp only [answers, filterMap_cons]
    cases hgranted : granted (call, (state.allocate config (call.map Observation.time)).2) with
    | none =>
      cases call with
      | none => exact ih _
      | some => exact (ih _).cons _
    | some =>
      rw [granted_eq_some, Prod.mk.injEq] at hgranted
      obtain ⟨rfl, _⟩ := hgranted
      exact (ih _).cons_cons _

section Lives

variable {lives : List Life}

theorem Life.grants_pairwise {life : Life} (hclocks : FaithfulClocks lives) (hlife : life ∈ lives) :
    life.grants.Pairwise fun first second =>
      |second.observation.real - first.observation.real| < 240 →
        first.identifier ≠ second.identifier := by
  have hsublist : (life.grants.map Grant.observation).Sublist life.observations :=
    (observations_grants _ _).cons _
  have htimes := pairwise_map.1 ((hclocks.monotonic _ hlife).sublist hsublist)
  have happart : life.grants.Pairwise fun first second =>
      second.observation.time.monotonic - first.observation.time.monotonic < identifierFence →
        first.identifier ≠ second.identifier :=
    Diameter.grants_pairwise (Sound.new _) _
  refine (htimes.and happart).imp ?_
  rintro first second ⟨htime, hids⟩ hnear
  have hmonotonic := htime hnear
  have hfence : 0 < identifierFence := by norm_num [identifierFence]
  exact hids (by omega)

/-- Grants of a life and of a later one. -/
theorem Life.grants_ne {earlier later : Life} {first second : Grant}
    (hwall : ∀ observation ∈ earlier.observations, ∀ observation' ∈ later.observations,
      observation.time.unixSeconds ≤ observation'.time.unixSeconds ∧
        (|observation'.real - observation.real| < 240 →
          observation'.time.unixSeconds - observation.time.unixSeconds ≤ 4095))
    (hfirst : first ∈ earlier.grants) (hsecond : second ∈ later.grants)
    (hnear : |second.observation.real - first.observation.real| < 240) :
    first.identifier ≠ second.identifier := by
  have hobserved : ∀ {life : Life} {grant : Grant}, grant ∈ life.grants →
      grant.observation ∈ life.observations := by
    intro life grant hgrant
    exact ((observations_grants _ _).cons _).subset (mem_map_of_mem hgrant)
  obtain ⟨_, _, hused⟩ := grants_after_start (.inl rfl) _ _ hfirst
  obtain ⟨hlate, _, hused'⟩ := grants_after_start (.inl rfl) _ _ hsecond
  have hstart := (hwall _ (hobserved hfirst) _ mem_cons_self).1
  have hspan := (hwall _ (hobserved hfirst) _ (hobserved hsecond)).2 hnear
  rw [hused, hused']
  exact candidate_ne (hstart.trans_lt hlate) hspan _ _

/-- Identifiers granted less than four real minutes apart differ, within a life
and across lives, and no call finds the state unavailable. -/
theorem identifiers_do_not_repeat (hclocks : FaithfulClocks lives) :
    ((lives.flatMap Life.grants).Pairwise fun first second =>
      |second.observation.real - first.observation.real| < 240 →
        first.identifier ≠ second.identifier) ∧
      ∀ life ∈ lives, ∀ answer ∈ life.answers, answer.2 ≠ .error .stateUnavailable := by
  refine ⟨?_, fun life _ => answers_ne_stateUnavailable (Sound.new _) _⟩
  obtain ⟨_, hwall⟩ := pairwise_flatMap.1 hclocks.wall
  refine pairwise_flatMap.2 ⟨fun life hlife => Life.grants_pairwise hclocks hlife, ?_⟩
  refine hwall.imp ?_
  intro _ _ hapart first hfirst second hsecond hnear
  exact Life.grants_ne hapart hfirst hsecond hnear

/-- A life that grants twice in one second, and the life after it. -/
noncomputable def successiveLives : List Life :=
  [⟨⟨4, by decide, by decide⟩, ⟨0, ⟨10, 0⟩⟩, [none, some ⟨1, ⟨11, 5⟩⟩, some ⟨1, ⟨11, 6⟩⟩]⟩,
    ⟨⟨4, by decide, by decide⟩, ⟨2, ⟨11, 0⟩⟩, [some ⟨2, ⟨11, 7⟩⟩, some ⟨3, ⟨12, 8⟩⟩]⟩]

theorem identifiers_do_not_repeat_successive :
    FaithfulClocks successiveLives ∧
      (successiveLives.flatMap Life.grants).map Grant.identifier =
        [11 * 2 ^ 20, 11 * 2 ^ 20 + 1, 12 * 2 ^ 20] ∧
      (successiveLives.flatMap Life.grants).Pairwise fun first second =>
        |second.observation.real - first.observation.real| < 240 →
          first.identifier ≠ second.identifier := by
  have hclocks : FaithfulClocks successiveLives := by
    constructor <;> simp [successiveLives, Life.observations, identifierFence]
  exact ⟨hclocks, by rfl, (identifiers_do_not_repeat hclocks).1⟩

end Lives

end PacketCore.Diameter
