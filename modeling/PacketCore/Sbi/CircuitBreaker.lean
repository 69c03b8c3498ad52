import Mathlib.Data.List.Basic
import Mathlib.Tactic

/-!
# Circuit breaker of a peer

A breaker counts consecutive failures, holds requests off after a trip, and then
probes the peer.  The request that ends the cooldown is not counted as a probe, and a
probe that is never recorded keeps its place.  Times are nanoseconds.
-/

namespace PacketCore.Sbi

inductive CircuitState
  | closed
  | opened (openedAt : ℕ)
  | halfOpen
deriving DecidableEq

structure CircuitBreaker where
  state : CircuitState
  consecutiveFailures : ℕ
  failureThreshold : ℕ
  cooldown : ℕ
  maxProbes : ℕ
  activeProbes : ℕ

namespace CircuitBreaker

def new (failureThreshold cooldown maxProbes : ℕ) : CircuitBreaker :=
  ⟨.closed, 0, failureThreshold, cooldown, maxProbes, 0⟩

variable (breaker : CircuitBreaker) (now : ℕ)

def allowRequest : CircuitBreaker × Bool :=
  match breaker.state with
  | .closed => (breaker, true)
  | .opened openedAt =>
    if breaker.cooldown ≤ now - openedAt then
      ({ breaker with state := .halfOpen, activeProbes := 0 }, true)
    else (breaker, false)
  | .halfOpen =>
    if breaker.activeProbes < breaker.maxProbes then
      ({ breaker with activeProbes := breaker.activeProbes + 1 }, true)
    else (breaker, false)

def recordSuccess : CircuitBreaker :=
  match breaker.state with
  | .closed => { breaker with consecutiveFailures := 0 }
  | .opened _ => breaker
  | .halfOpen => { breaker with consecutiveFailures := 0, state := .closed, activeProbes := 0 }

def recordFailure : CircuitBreaker :=
  match breaker.state with
  | .closed =>
    let failures := breaker.consecutiveFailures + 1
    if breaker.failureThreshold ≤ failures then
      { breaker with consecutiveFailures := failures, state := .opened now }
    else { breaker with consecutiveFailures := failures }
  | .opened _ => breaker
  | .halfOpen => { breaker with state := .opened now, activeProbes := 0 }

end CircuitBreaker

/-- A breaker, and what its callers have seen of it: the last trip, the failures recorded
since the last success, the half-open periods begun and the requests admitted in the last
one, and for each request that still runs the half-open period it was admitted in. -/
structure Usage where
  breaker : CircuitBreaker
  clock : ℕ
  lastTrip : Option ℕ
  failures : ℕ
  period : ℕ
  probes : ℕ
  running : List (Option ℕ)

/-- A finished or abandoned request is named by its admission. -/
inductive Event
  | allow
  | success (admission : Option ℕ)
  | failure (admission : Option ℕ)
  | abandon (admission : Option ℕ)

namespace Usage

def start (failureThreshold cooldown maxProbes : ℕ) : Usage :=
  ⟨.new failureThreshold cooldown maxProbes, 0, none, 0, 0, 0, []⟩

variable (usage : Usage) (now : ℕ)

def step : Event → Usage
  | .allow =>
    let (breaker, allowed) := usage.breaker.allowRequest now
    -- the request that finds the cooldown over begins a period
    let begins := usage.breaker.state ≠ .halfOpen ∧ breaker.state = .halfOpen
    let period := if begins then usage.period + 1 else usage.period
    let probes := if begins then 0 else usage.probes
    let admission := if breaker.state = .halfOpen then some period else none
    { usage with
      breaker, period, clock := now
      probes := if allowed then probes + 1 else probes
      running := if allowed then admission :: usage.running else usage.running }
  | .success admission =>
    { usage with
      breaker := usage.breaker.recordSuccess, clock := now, failures := 0
      running := usage.running.erase admission }
  | .failure admission =>
    let breaker := usage.breaker.recordFailure now
    { usage with
      breaker, clock := now, failures := usage.failures + 1
      -- a trip is the step that opens the breaker
      lastTrip := match usage.breaker.state, breaker.state with
        | .closed, .opened _ | .halfOpen, .opened _ => some now
        | _, _ => usage.lastTrip
      running := usage.running.erase admission }
  | .abandon admission =>
    { usage with clock := now, running := usage.running.erase admission }

/-- Time goes on, and only a running request finishes. -/
def Enabled (event : Event) : Prop :=
  usage.clock ≤ now ∧ match event with
  | .allow => True
  | .success admission | .failure admission | .abandon admission => admission ∈ usage.running

/-- The cooldown of the last trip is over. -/
def Cooled : Prop := ∀ trip ∈ usage.lastTrip, trip + usage.breaker.cooldown ≤ now

inductive Reached (failureThreshold cooldown maxProbes : ℕ) : Usage → Prop
  | start : Reached failureThreshold cooldown maxProbes (start failureThreshold cooldown maxProbes)
  | step {usage now event} (hreached : Reached failureThreshold cooldown maxProbes usage)
      (henabled : usage.Enabled now event) :
      Reached failureThreshold cooldown maxProbes (usage.step now event)

/-- What the counters of the breaker mean. -/
def Sound : Prop :=
  match usage.breaker.state with
  | .closed => usage.breaker.consecutiveFailures = usage.failures ∧
    (0 < usage.breaker.failureThreshold → usage.failures < usage.breaker.failureThreshold) ∧
    usage.Cooled usage.clock
  | .opened openedAt => usage.lastTrip = some openedAt ∧ openedAt ≤ usage.clock
  | .halfOpen => usage.probes = usage.breaker.activeProbes + 1 ∧
    usage.breaker.activeProbes ≤ usage.breaker.maxProbes ∧ usage.Cooled usage.clock

variable {usage now}

theorem Cooled.mono {later : ℕ} (hcooled : usage.Cooled now)
    (hnow : now ≤ later) : usage.Cooled later :=
  fun trip htrip => (hcooled trip htrip).trans hnow

theorem Sound.step (hsound : usage.Sound) (hnow : usage.clock ≤ now)
    (event : Event) : (usage.step now event).Sound := by
  obtain ⟨⟨state, consecutive, threshold, cooldown, maxProbes, active⟩, clock,
    lastTrip, failures, period, probes, running⟩ := usage
  cases state with
  | closed =>
    dsimp only [Sound] at hsound hnow
    obtain ⟨rfl, hbelow, hcooled⟩ := hsound
    have hlater := hcooled.mono hnow
    cases event with
    | allow | abandon => exact ⟨rfl, hbelow, hlater⟩
    | success => exact ⟨rfl, id, hlater⟩
    | failure =>
      simp only [Usage.step, CircuitBreaker.recordFailure]
      split_ifs with htrips
      · exact ⟨rfl, le_rfl⟩
      · exact ⟨rfl, fun _ => not_le.mp htrips, hlater⟩
  | opened openedAt =>
    dsimp only [Sound] at hsound hnow
    obtain ⟨rfl, hpast⟩ := hsound
    have hlater := hpast.trans hnow
    cases event with
    | allow =>
      by_cases hcooled : cooldown ≤ now - openedAt
      · have htrip : openedAt + cooldown ≤ now := by omega
        simpa [Usage.step, CircuitBreaker.allowRequest, hcooled, Sound, Cooled] using htrip
      · simpa [Usage.step, CircuitBreaker.allowRequest, hcooled, Sound] using hlater
    | success | failure | abandon => exact ⟨rfl, hlater⟩
  | halfOpen =>
    dsimp only [Sound] at hsound hnow
    obtain ⟨rfl, hfits, hcooled⟩ := hsound
    have hlater := hcooled.mono hnow
    cases event with
    | allow =>
      by_cases hroom : active < maxProbes
      · simpa [Usage.step, CircuitBreaker.allowRequest, hroom, Sound, Cooled] using hlater
      · simpa [Usage.step, CircuitBreaker.allowRequest, hroom, Sound] using ⟨hfits, hlater⟩
    | success => exact ⟨rfl, id, hlater⟩
    | failure => exact ⟨rfl, le_rfl⟩
    | abandon => exact ⟨rfl, hfits, hlater⟩

theorem Reached.sound {failureThreshold cooldown maxProbes : ℕ}
    (hreached : Reached failureThreshold cooldown maxProbes usage) : usage.Sound := by
  induction hreached with
  | start => exact ⟨rfl, id, by rintro _ ⟨⟩⟩
  | step _ henabled ih => exact ih.step henabled.1 _

/-- No more than the allowed probes are admitted in a half-open period, and only a probe of
the period ends it. -/
def Kept (usage : Usage) (now : ℕ) : Event → Prop
  | .allow =>
    let (breaker, allowed) := usage.breaker.allowRequest now
    breaker.state = .halfOpen → allowed = true →
      (usage.step now .allow).probes ≤ usage.breaker.maxProbes
  | .success admission => usage.breaker.state = .halfOpen →
    usage.breaker.recordSuccess.state ≠ .halfOpen → admission = some usage.period
  | .failure admission => usage.breaker.state = .halfOpen →
    (usage.breaker.recordFailure now).state ≠ .halfOpen → admission = some usage.period
  | .abandon _ => True

/-- A breaker without a running request admits after the cooldown. -/
def Recovers (usage : Usage) (now : ℕ) : Prop :=
  usage.running = [] → usage.Cooled now → (usage.breaker.allowRequest now).2 = true

/-- The steps of a half-open breaker that keep to its limits. -/
def Orderly (usage : Usage) : Event → Prop
  | .allow => usage.breaker.state = .halfOpen → usage.probes ≠ usage.breaker.maxProbes
  | .success admission | .failure admission =>
    usage.breaker.state = .halfOpen → admission = some usage.period
  | .abandon _ => True

theorem Sound.kept_iff (hsound : usage.Sound) (hprobes : 0 < usage.breaker.maxProbes)
    (now : ℕ) (event : Event) : usage.Kept now event ↔ usage.Orderly event := by
  unfold Sound at hsound
  cases event with
  | abandon => rfl
  | success => simp +contextual [Kept, Orderly, CircuitBreaker.recordSuccess]
  | failure => simp +contextual [Kept, Orderly, CircuitBreaker.recordFailure]
  | allow =>
    cases hstate : usage.breaker.state with
    | closed => simp [Kept, Orderly, CircuitBreaker.allowRequest, hstate]
    | opened openedAt =>
      by_cases hcooled : usage.breaker.cooldown ≤ now - openedAt
      · simpa [Kept, Orderly, Usage.step, CircuitBreaker.allowRequest, hstate, hcooled] using
          Nat.succ_le_of_lt hprobes
      · simp [Kept, Orderly, CircuitBreaker.allowRequest, hstate, hcooled]
    | halfOpen =>
      rw [hstate] at hsound
      obtain ⟨hcount, hfits, -⟩ := hsound
      by_cases hroom : usage.breaker.activeProbes < usage.breaker.maxProbes
      · simp [Kept, Orderly, Usage.step, CircuitBreaker.allowRequest, hstate, hroom]
        omega
      · have hfull := hfits.antisymm (not_lt.mp hroom)
        simp [Kept, Orderly, CircuitBreaker.allowRequest, hstate, hfull, hcount]

/-- A half-open breaker that has admitted one request more than its probes depends on those
that still run. -/
theorem Sound.recovers_iff (hsound : usage.Sound) (hnow : usage.clock ≤ now) :
    usage.Recovers now ↔ (usage.breaker.state = .halfOpen →
      usage.breaker.maxProbes < usage.probes → usage.running ≠ []) := by
  unfold Sound at hsound
  cases hstate : usage.breaker.state with
  | closed => simp [Recovers, CircuitBreaker.allowRequest, hstate]
  | opened openedAt =>
    rw [hstate] at hsound
    by_cases hcooled : usage.breaker.cooldown ≤ now - openedAt
    · simp [Recovers, CircuitBreaker.allowRequest, hstate, hcooled]
    · have hwait : now < openedAt + usage.breaker.cooldown := by omega
      simp [Recovers, CircuitBreaker.allowRequest, hstate, hcooled, Cooled, hsound.1, hwait]
  | halfOpen =>
    rw [hstate] at hsound
    obtain ⟨hcount, hfits, hcooled⟩ := hsound
    have hcooled := hcooled.mono hnow
    by_cases hroom : usage.breaker.activeProbes < usage.breaker.maxProbes
    · have hfew : ¬ usage.breaker.maxProbes < usage.probes := by omega
      simp [Recovers, CircuitBreaker.allowRequest, hstate, hroom, hfew]
    · have hmany : usage.breaker.maxProbes < usage.probes := by omega
      simp [Recovers, CircuitBreaker.allowRequest, hstate, hroom, hcooled, hmany]

/-- From closed, the failures since the last success decide. -/
theorem Sound.opens_iff (hsound : usage.Sound) (hclosed : usage.breaker.state = .closed)
    (hthreshold : 0 < usage.breaker.failureThreshold) (now : ℕ) (event : Event) :
    (∃ openedAt, (usage.step now event).breaker.state = .opened openedAt) ↔
      (usage.step now event).failures = usage.breaker.failureThreshold := by
  unfold Sound at hsound
  rw [hclosed] at hsound
  obtain ⟨hcount, hbelow, -⟩ := hsound
  have hbelow := hbelow hthreshold
  cases event with
  | allow => simp [Usage.step, CircuitBreaker.allowRequest, hclosed, hbelow.ne]
  | success => simp [Usage.step, CircuitBreaker.recordSuccess, hclosed, hthreshold.ne]
  | abandon => simp [Usage.step, hclosed, hbelow.ne]
  | failure =>
    simp only [Usage.step, CircuitBreaker.recordFailure, hclosed, hcount]
    split_ifs with htrips <;> simp <;> omega

/-- During the cooldown of the last trip nothing is admitted. -/
theorem Sound.cools (hsound : usage.Sound) (hnow : usage.clock ≤ now)
    (hhot : ¬ usage.Cooled now) : (usage.breaker.allowRequest now).2 = false := by
  unfold Sound at hsound
  cases hstate : usage.breaker.state with
  | closed | halfOpen =>
    rw [hstate] at hsound
    exact absurd (hsound.2.2.mono hnow) hhot
  | opened openedAt =>
    rw [hstate] at hsound
    simp only [Cooled, hsound.1, Option.mem_some_iff, forall_eq'] at hhot
    have hwait : ¬ usage.breaker.cooldown ≤ now - openedAt := by
      have := hsound.2
      omega
    simp [CircuitBreaker.allowRequest, hstate, hwait]

/-- A closed breaker opens with the failure that makes up its threshold, and admits nothing
until its cooldown has passed since the call that tripped it.  The orderly steps of a half-open
period keep its limits and no others do, and a breaker that nobody uses recovers unless it
has admitted all its probes and the one it does not count. -/
theorem breaker_decides (failureThreshold cooldown maxProbes : ℕ) :
    (∀ usage now event, Reached failureThreshold cooldown maxProbes usage →
      usage.breaker.state = .closed → 0 < usage.breaker.failureThreshold →
      ((∃ openedAt, (usage.step now event).breaker.state = .opened openedAt) ↔
        (usage.step now event).failures = usage.breaker.failureThreshold)) ∧
    (∀ usage now, Reached failureThreshold cooldown maxProbes usage → usage.clock ≤ now →
      ¬ usage.Cooled now → (usage.breaker.allowRequest now).2 = false) ∧
    (∀ usage now event, Reached failureThreshold cooldown maxProbes usage →
      usage.Enabled now event → 0 < usage.breaker.maxProbes →
      (usage.Kept now event ↔ usage.Orderly event)) ∧
    ∀ usage now, Reached failureThreshold cooldown maxProbes usage → usage.clock ≤ now →
      (usage.Recovers now ↔ (usage.breaker.state = .halfOpen →
        usage.breaker.maxProbes < usage.probes → usage.running ≠ [])) :=
  ⟨fun _ now event hreached hclosed hthreshold =>
      hreached.sound.opens_iff hclosed hthreshold now event,
    fun _ _ hreached hnow hhot => hreached.sound.cools hnow hhot,
    fun _ now event hreached _ hprobes => hreached.sound.kept_iff hprobes now event,
    fun _ _ hreached hnow => hreached.sound.recovers_iff hnow⟩

/-- The second failure trips this breaker at 3, so that it is still open at 11.  At 12 it
admits its one probe, and would admit another. -/
theorem breaker_decides_two :
    let begun := (((start 2 9 1).step 0 .allow).step 0 .allow).step 1 (.failure none)
    let tripped := begun.step 3 (.failure none)
    let probing := tripped.step 12 .allow
    (∃ openedAt, tripped.breaker.state = .opened openedAt) ∧
      (tripped.breaker.allowRequest 11).2 = false ∧ ¬ probing.Kept 12 .allow ∧
      probing.Recovers 12 := by
  intro begun tripped probing
  have hbegun : Reached 2 9 1 begun :=
    .step (.step (.step .start ⟨le_rfl, trivial⟩) ⟨le_rfl, trivial⟩) ⟨by decide, by decide⟩
  have htripped : Reached 2 9 1 tripped := hbegun.step ⟨by decide, by decide⟩
  have hprobing : Reached 2 9 1 probing := htripped.step ⟨by decide, trivial⟩
  obtain ⟨hopens, hcools, hkept, hrecovers⟩ := breaker_decides 2 9 1
  refine ⟨(hopens begun 3 _ hbegun rfl (by decide)).mpr rfl, ?_, ?_, ?_⟩
  · apply hcools tripped 11 htripped (by decide)
    intro hcooled
    exact absurd (hcooled 3 rfl) (by decide)
  · rw [hkept probing 12 .allow hprobing ⟨le_rfl, trivial⟩ (by decide)]
    exact fun horderly => horderly rfl rfl
  · apply (hrecovers probing 12 hprobing le_rfl).mpr
    intro _ hmany
    exact absurd hmany (by decide)

/-- With one probe two requests are admitted, and once both are abandoned none ever is; or the
late success of a request from before the trip closes the breaker. -/
theorem breaker_stuck_half_open :
    (∃ usage, Reached 1 1 1 usage ∧ usage.breaker.state = .halfOpen ∧ usage.probes = 2 ∧
      usage.running = [] ∧ ∀ now, (usage.breaker.allowRequest now).2 = false) ∧
    ∃ usage, Reached 1 1 1 usage ∧ usage.breaker.state = .halfOpen ∧ none ∈ usage.running ∧
      (usage.step 1 (.success none)).breaker.state = .closed := by
  constructor
  · refine ⟨(((((start 1 1 1).step 0 .allow).step 0 (.failure none)).step 1 .allow).step 1
      .allow).step 1 (.abandon (some 1)) |>.step 1 (.abandon (some 1)), ?_, rfl,
      rfl, rfl, fun _ => rfl⟩
    exact .step (.step (.step (.step (.step (.step .start ⟨le_rfl, trivial⟩) ⟨le_rfl, by decide⟩)
      ⟨by decide, trivial⟩) ⟨le_rfl, trivial⟩) ⟨le_rfl, by decide⟩) ⟨le_rfl, by decide⟩
  · refine ⟨(((start 1 1 1).step 0 .allow).step 0 .allow).step 0 (.failure none) |>.step 1
      .allow, ?_, rfl, by decide, rfl⟩
    exact .step (.step (.step (.step .start ⟨le_rfl, trivial⟩) ⟨le_rfl, trivial⟩)
      ⟨le_rfl, by decide⟩) ⟨by decide, trivial⟩

end Usage

end PacketCore.Sbi
