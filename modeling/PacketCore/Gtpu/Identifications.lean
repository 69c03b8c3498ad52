import PacketCore.Gtpu.BucketIsolation
import PacketCore.Gtpu.FragmentLifetimes

/-!
# Runs of the fragment budget

The assignments of one destination over a whole run: those of its present life,
and those of earlier ones, which are a lifetime older than the present one.
-/

namespace PacketCore.Gtpu

open InnerFragmentBudget List

/-- A successful admission, as an assignment. -/
def InnerFragmentAdmission.assignment (destination : BucketKey) (now : ℕ) :
    InnerFragmentAdmission → Option Assignment
  | .admitted identification => some ⟨destination, now, identification⟩
  | .rateLimited | .capacityExhausted => none

/-- The assignments of one destination. -/
def assignmentsOf (key : BucketKey) (assignments : List Assignment) : List Assignment :=
  assignments.filter fun entry => decide (entry.destination = key)

/-! ## The history of a destination -/

/-- No value comes twice within a lifetime, none is zero, and no lifetime has
more than 65,535 assignments; the newest is first. -/
structure Unrepeated (history : List Assignment) : Prop where
  distinct : history.Pairwise fun newer older =>
    FragmentSequence.recentAt newer.time older = true →
      ∀ value, older.identification = some value → newer.identification ≠ some value
  valid : ∀ entry ∈ history, ∀ value, entry.identification = some value → value ≠ 0 ∧ value ≤ u16Max
  bounded : ∀ start, history.countP (fun entry =>
    decide (start ≤ entry.time ∧ entry.time < start + maximumDatagramLifetime)) ≤ u16Max

theorem unrepeated_nil : Unrepeated [] := ⟨.nil, nofun, fun _ => Nat.zero_le _⟩

/-- One more assignment, apart from those of the last lifetime. -/
theorem Unrepeated.cons {history : List Assignment} {entry : Assignment}
    (hhistory : Unrepeated history)
    (hapart : ∀ older ∈ history, FragmentSequence.recentAt entry.time older = true →
      ∀ value, older.identification = some value → entry.identification ≠ some value)
    (hvalid : ∀ value, entry.identification = some value → value ≠ 0 ∧ value ≤ u16Max)
    (hfew : history.countP (FragmentSequence.recentAt entry.time) < u16Max) :
    Unrepeated (entry :: history) where
  distinct := pairwise_cons.mpr ⟨hapart, hhistory.distinct⟩
  valid := forall_mem_cons.mpr ⟨hvalid, hhistory.valid⟩
  bounded := by
    intro start
    by_cases hinside : start ≤ entry.time ∧ entry.time < start + maximumDatagramLifetime
    · rw [countP_cons_of_pos (by simpa using hinside)]
      refine Nat.succ_le_of_lt (lt_of_le_of_lt (countP_mono_left ?_) hfew)
      intro older _ holder
      have hwindow := of_decide_eq_true holder
      exact decide_eq_true (by omega)
    · rw [countP_cons_of_neg (by simpa using hinside)]
      exact hhistory.bounded _

/-- The history of `key`: its present life, and lives that ended a lifetime ago. -/
structure Ledger (recency : Recency FragmentSequence) (key : BucketKey)
    (clock : ℕ) (history : List Assignment) : Prop where
  tracked : ∀ item ∈ recency.items, item.key = key → ∃ life earlier,
    history = life ++ earlier ∧ item.state.Lives item.lastUse life ∧
    ∀ entry ∈ earlier, entry.time + maximumDatagramLifetime ≤ item.state.lifetime.origin
  absent : (∀ item ∈ recency.items, item.key ≠ key) →
    ∀ entry ∈ history, entry.time + maximumDatagramLifetime ≤ clock
  unrepeated : Unrepeated history

namespace Ledger

variable {recency : Recency FragmentSequence}
  {key destination : BucketKey} {clock now : ℕ} {history : List Assignment} {hashed : ℕ}
  {first : Tracked FragmentSequence} {rest : List (Tracked FragmentSequence)}

section

variable (hledger : Ledger recency key clock history)
include hledger

theorem mono (hnow : clock ≤ now) : Ledger recency key now history :=
  { hledger with absent := fun habsent _ hentry => (hledger.absent habsent _ hentry).trans hnow }

/-- A new life starts a lifetime after every assignment. -/
theorem fresh {items : List (Tracked FragmentSequence)}
    (hnew : ∀ item ∈ recency.items, item.key ≠ destination)
    (hsub : items.Sublist recency.items) (habsent : (∀ item ∈ items, item.key ≠ key) →
      ∀ entry ∈ history, entry.time + maximumDatagramLifetime ≤ now) :
    Ledger (recency.fresh items destination now (.seeded hashed now)).1 key now history where
  tracked := by
    refine forall_mem_cons.mpr
      ⟨fun hkey => ?_, fun _ hitem => hledger.tracked _ (hsub.subset hitem)⟩
    refine ⟨[], history, rfl, FragmentSequence.lives_seeded hashed _, habsent fun _ hother => ?_⟩
    exact hkey ▸ hnew _ (hsub.subset hother)
  absent := fun hgone => habsent (forall_mem_cons.mp hgone).2
  unrepeated := hledger.unrepeated

/-- A reclaimed destination was last used a lifetime ago. -/
theorem of_idle {item : Tracked FragmentSequence}
    (hitem : item ∈ recency.items) (hkey : item.key = key)
    (hidle : maximumDatagramLifetime ≤ now - item.lastUse) :
    ∀ entry ∈ history, entry.time + maximumDatagramLifetime ≤ now := by
  obtain ⟨_, _, rfl, hlives, hearlier⟩ := hledger.tracked _ hitem hkey
  have hpos : 0 < maximumDatagramLifetime := by decide
  have horigin := hlives.origin_le
  intro entry hentry
  rcases mem_append.mp hentry with hlife | hold
  · have htime := hlives.within _ hlife
    omega
  · have htime := hearlier _ hold
    omega

/-- An admission keeps the histories, whatever becomes of the destination. -/
theorem admission (hnow : clock ≤ now)
    (hgrace : recency.evictionGrace = maximumDatagramLifetime)
    (destination : BucketKey) (hashed : ℕ) :
    Ledger (recency.admission destination now (.seeded hashed now)).1 key now history := by
  obtain ⟨htracked, habsent, hunrepeated⟩ := hledger.mono hnow
  have hadmits := recency.admits destination now (.seeded hashed now)
  generalize recency.admission destination now (.seeded hashed now) = result at hadmits ⊢
  cases hadmits with
  | @tracked left right item hitems hkey =>
    rw [hitems, forall_mem_append, forall_mem_cons] at htracked habsent
    obtain ⟨hleft, hitem, hright⟩ := htracked
    refine ⟨forall_mem_cons.mpr ⟨fun hsame => ?_, forall_mem_append.mpr ⟨hleft, hright⟩⟩,
      fun hgone => ?_, hunrepeated⟩
    · obtain ⟨life, earlier, hhistory, hlives, hearlier⟩ := hitem hsame
      exact ⟨life, earlier, hhistory, hlives.mono (le_max_left _ _), hearlier⟩
    · rw [forall_mem_cons, forall_mem_append] at hgone
      exact habsent ⟨hgone.2.1, hgone.1, hgone.2.2⟩
  | created hnew => exact hledger.fresh hnew (List.Sublist.refl _) habsent
  | @evicted rest last hnew hroom hitems hidle hfull =>
    apply hledger.fresh hnew (by simp [hitems])
    intro hgone
    by_cases hlast : last.key = key
    · exact hledger.of_idle (by simp [hitems]) hlast (hgrace ▸ hidle)
    · rw [hitems, forall_mem_append, forall_mem_singleton] at habsent
      exact habsent ⟨hgone, hlast⟩
  | refused => exact ⟨htracked, habsent, hunrepeated⟩
  | @refilled rest last hnew hroom hitems =>
    rw [hitems, forall_mem_append, forall_mem_singleton] at htracked habsent
    refine ⟨forall_mem_append.mpr ⟨htracked.1, forall_mem_singleton.mpr htracked.2⟩,
      fun hgone => habsent ?_, hunrepeated⟩
    rwa [forall_mem_append, forall_mem_singleton] at hgone

/-- Another limit leaves every sequence and its last use. -/
theorem replaceLimit (hnow : clock ≤ now)
    (burst refillInterval : ℕ) :
    Ledger (recency.replaceLimit burst refillInterval now) key now history := by
  obtain ⟨htracked, habsent, hunrepeated⟩ := hledger.mono hnow
  unfold Recency.replaceLimit
  split
  · exact ⟨htracked, habsent, hunrepeated⟩
  · refine ⟨forall_mem_map.mpr htracked, fun hgone => habsent ?_, hunrepeated⟩
    rwa [forall_mem_map] at hgone

end

/-- Nothing changes for a key that is not in front. -/
theorem of_other {changed : Tracked FragmentSequence}
    (hledger : Ledger recency key now history) (hitems : recency.items = first :: rest)
    (hkey : first.key ≠ key) (hchanged : changed.key = first.key) :
    Ledger { recency with items := changed :: rest } key now history where
  tracked := by
    have htracked := hledger.tracked
    rw [hitems, forall_mem_cons] at htracked
    exact forall_mem_cons.mpr ⟨fun hsame => absurd (hchanged.symm.trans hsame) hkey, htracked.2⟩
  absent := by
    intro hgone
    apply hledger.absent
    rw [hitems]
    exact forall_mem_cons.mpr ⟨hkey, (forall_mem_cons.mp hgone).2⟩
  unrepeated := hledger.unrepeated

/-- A longer life of the key in front. -/
theorem of_front {state : FragmentSequence} (life earlier : List Assignment)
    (hsound : recency.Sound now) (hitems : recency.items = first :: rest)
    (hlives : state.Lives first.lastUse life)
    (hearlier : ∀ entry ∈ earlier, entry.time + maximumDatagramLifetime ≤ state.lifetime.origin)
    (hunrepeated : Unrepeated (life ++ earlier)) :
    Ledger { recency with items := { first with state := state } :: rest } first.key now
      (life ++ earlier) where
  tracked := by
    have hothers : ∀ other ∈ [] ++ rest, other.key ≠ first.key := hsound.apart hitems
    exact forall_mem_cons.mpr ⟨fun _ => ⟨life, earlier, rfl, hlives, hearlier⟩,
      fun _ hother hsame => absurd hsame (hothers _ hother)⟩
  absent := fun hgone => (hgone _ mem_cons_self rfl).elim
  unrepeated := hunrepeated

/-- The admitted destination goes on with what it was handed. -/
theorem assign (hledger : Ledger recency key now history) (hsound : recency.Sound now)
    (hitems : recency.items = first :: rest) (huse : now ≤ first.lastUse) (atomic : Bool) :
    let assigned := first.state.assign now atomic
    Ledger { recency with items := { first with state := assigned.1 } :: rest } key now
      (assignmentsOf key (assigned.2.assignment first.key now).toList ++ history) := by
  intro assigned
  by_cases hkey : first.key = key
  · subst hkey
    have hfirst : first ∈ recency.items := hitems ▸ mem_cons_self
    have hlast : first.lastUse = now := le_antisymm (hsound.timely _ hfirst).lastUse_le huse
    obtain ⟨life, earlier, rfl, hlives, hearlier⟩ := hledger.tracked _ hfirst rfl
    have hstart : ∀ entry ∈ earlier,
        entry.time + maximumDatagramLifetime ≤ assigned.1.lifetime.origin := by
      rwa [FragmentSequence.origin_assign]
    have hrefuse : (∀ identification, assigned.2 ≠ .admitted identification) →
        assigned.1.Lives first.lastUse life := by
      rw [hlast]
      exact hlives.refuse hlast.le
    cases houtcome : assigned.2 with
    | admitted identification =>
      obtain ⟨hfew, hvalue, _⟩ := hlives.assign hlast.le _ houtcome
      have holder : ∀ entry ∈ earlier, FragmentSequence.recentAt now entry = false := by
        intro entry hentry
        have hend := (hearlier _ hentry).trans (hlives.origin_le.trans hlast.le)
        exact decide_eq_false (not_lt.mpr hend)
      have hunrepeated : Unrepeated (⟨first.key, now, identification⟩ :: (life ++ earlier)) := by
        apply hledger.unrepeated.cons
        · intro _ holderMem hrecent value hvalueOlder hsame
          rcases mem_append.mp holderMem with hlife | hearly
          · rw [hvalue _ hsame] at hvalueOlder
            exact hlives.apart hfew _ hlife hrecent hvalueOlder
          · exact absurd hrecent (by simp [holder _ hearly])
        · intro value hsame
          rw [hvalue _ hsame]
          exact hlives.range
        · have hnone : earlier.countP (FragmentSequence.recentAt now) = 0 :=
            countP_eq_zero.mpr (by simpa using holder)
          rw [countP_append, hnone]
          exact hfew
      have hnew : assignmentsOf first.key
          ((InnerFragmentAdmission.admitted identification).assignment first.key now).toList =
          [⟨first.key, now, identification⟩] := by
        simp [InnerFragmentAdmission.assignment, assignmentsOf]
      rw [hnew]
      refine of_front (_ :: life) _ hsound hitems ?_ hstart hunrepeated
      rwa [hlast]
    | rateLimited | capacityExhausted =>
      exact of_front _ earlier hsound hitems (hrefuse (by simp [houtcome])) hstart
        hledger.unrepeated
  · have hnone : assignmentsOf key (assigned.2.assignment first.key now).toList = [] := by
      cases assigned.2 <;> simp [InnerFragmentAdmission.assignment, assignmentsOf, hkey]
    rw [hnone]
    exact hledger.of_other hitems hkey rfl

end Ledger

/-! ## Runs -/

inductive FragmentCall where
  | admission (destination : BucketKey) (now : ℕ) (atomic : Bool)
  | setLimit (limit : GtpuInnerFragmentRateLimit) (now : ℕ)

def FragmentCall.time : FragmentCall → ℕ
  | admission _ now _ => now
  | setLimit _ now => now

namespace InnerFragmentBudget

/-- One call, and the assignment that it makes. -/
def step (hash : BucketKey → ℕ → ℕ) (budget : InnerFragmentBudget) :
    FragmentCall → InnerFragmentBudget × Option Assignment
  | .admission destination now atomic =>
    let result := budget.admission hash destination now atomic
    (result.1, result.2.assignment destination now)
  | .setLimit limit now => (budget.setLimit limit now, none)

/-- The assignments of a run, in order. -/
def assignments (hash : BucketKey → ℕ → ℕ) (budget : InnerFragmentBudget) :
    List FragmentCall → List Assignment
  | [] => []
  | call :: calls =>
    (budget.step hash call).2.toList ++ assignments hash (budget.step hash call).1 calls

/-- A budget of a run, and the history of one destination. -/
def Keeps (budget : InnerFragmentBudget) (key : BucketKey) (clock : ℕ)
    (history : List Assignment) : Prop :=
  ∃ order, budget.buckets.Represents order ∧ (budget.buckets.recency order).Sound clock ∧
    budget.buckets.evictionGrace = maximumDatagramLifetime ∧
    Ledger (budget.buckets.recency order) key clock history

variable {budget : InnerFragmentBudget} {key : BucketKey} {clock now : ℕ}
  {history : List Assignment}

theorem keeps_new (limit : GtpuInnerFragmentRateLimit) (key : BucketKey) :
    (new limit).Keeps key 0 [] :=
  ⟨[], SessionBuckets.represents_new _ _ _,
    ⟨nodup_nil, Nat.zero_le _, List.Pairwise.nil, nofun⟩, rfl,
    ⟨nofun, fun _ => nofun, unrepeated_nil⟩⟩

theorem buckets_setLimit (budget : InnerFragmentBudget) (limit : GtpuInnerFragmentRateLimit)
    (now : ℕ) : (budget.setLimit limit now).buckets =
      budget.buckets.replaceLimit limit.burst limit.refillInterval now := by
  unfold setLimit SessionBuckets.replaceLimit
  split <;> rfl

/-- A new limit changes no history. -/
theorem Keeps.setLimit (hkeeps : budget.Keeps key clock history) (hnow : clock ≤ now)
    (limit : GtpuInnerFragmentRateLimit) : (budget.setLimit limit now).Keeps key now history := by
  obtain ⟨order, hrep, hsound, hgrace, hledger⟩ := hkeeps
  obtain ⟨_, hrecency⟩ := hrep.replaceLimit _ _ _
  have hshape : ((budget.buckets.recency order).replaceLimit limit.burst limit.refillInterval
      now).evictionGrace = budget.buckets.evictionGrace := by
    unfold Recency.replaceLimit
    split <;> rfl
  refine ⟨order, ?_, ?_, ?_, ?_⟩
  · rwa [buckets_setLimit]
  · rw [buckets_setLimit, hrecency]
    exact hsound.replaceLimit hnow _ _
  · rw [buckets_setLimit, ← hgrace, ← hshape, ← hrecency]
    rfl
  · rw [buckets_setLimit, hrecency]
    exact hledger.replaceLimit hnow _ _

theorem keeps_handOut {buckets : SessionBuckets FragmentSequence}
    {order : List ℕ} {destination : BucketKey} {admission : BucketAdmission}
    (hrep : buckets.Represents order) (hsound : (buckets.recency order).Sound now)
    (hgrace : buckets.evictionGrace = maximumDatagramLifetime)
    (hledger : Ledger (buckets.recency order) key now history)
    (hslot : ∀ slot, admission = .admitted slot → order.head? = some slot)
    (hfront : ∀ slot, admission = .admitted slot → ∃ first rest,
      (buckets.recency order).items = first :: rest ∧ first.key = destination ∧
        now ≤ first.lastUse) (seeded : ℕ) (atomic : Bool) :
    (handOut seeded buckets now atomic admission).1.Keeps key now
      (assignmentsOf key ((handOut seeded buckets now atomic admission).2.assignment destination
        now).toList ++ history) := by
  cases admission with
  | rateLimited | capacityExhausted => exact ⟨order, hrep, hsound, hgrace, hledger⟩
  | admitted slot =>
    obtain ⟨first, rest, hitems, rfl, huse⟩ := hfront _ rfl
    obtain ⟨slots, rfl⟩ := head?_eq_some_iff.mp (hslot _ rfl)
    obtain ⟨_, hitem⟩ := Option.isSome_iff_exists.mp ((hrep.occupied _).mp mem_cons_self)
    obtain ⟨entry, hentry, rfl⟩ := SessionBuckets.content_eq_some.mp hitem
    have hview : buckets.view (slot :: slots) = entry.tracked :: buckets.view slots :=
      SessionBuckets.view_cons hitem
    obtain ⟨rfl, rfl⟩ := cons.inj (hview.symm.trans hitems)
    obtain ⟨hused, husedView⟩ := hrep.use hitem fun _ => (entry.state.assign now atomic).1
    have hrecency : (buckets.use slot fun _ => (entry.state.assign now atomic).1).recency
        (slot :: slots) = { buckets.recency (slot :: slots) with
          items := { entry.tracked with state := (entry.state.assign now atomic).1 } ::
            buckets.view slots } := by
      rw [SessionBuckets.recency, husedView]
      rfl
    have hforget : ((buckets.use slot fun _ => (entry.state.assign now atomic).1).recency
        (slot :: slots)).forget = (buckets.recency (slot :: slots)).forget := by
      rw [hrecency, Recency.forget, Recency.forget, hitems]
      rfl
    simp only [handOut, hentry]
    refine ⟨slot :: slots, hused, ?_, hgrace, ?_⟩
    · rw [← Recency.sound_forget, hforget, Recency.sound_forget]
      exact hsound
    · rw [hrecency]
      exact hledger.assign hsound hitems huse _

section

variable (hkeeps : budget.Keeps key clock history)
include hkeeps

/-- An admission adds to the history what it assigns. -/
theorem Keeps.admission (hnow : clock ≤ now)
    (hash : BucketKey → ℕ → ℕ) (destination : BucketKey) (atomic : Bool) :
    (budget.admission hash destination now atomic).1.Keeps key now
      (assignmentsOf key ((budget.admission hash destination now atomic).2.assignment destination
        now).toList ++ history) := by
  obtain ⟨order, hrep, hsound, hgrace, hledger⟩ := hkeeps
  obtain ⟨_, hrefines⟩ := hrep.admission _ _ _
  apply keeps_handOut hrefines.represents
  · rw [hrefines.recency_eq]
    exact hsound.admission hnow
  · have hshape := ((budget.buckets.recency order).shape_admission destination now
      (.seeded (hash destination ((budget.seeded + 1) % 2 ^ 64)) now)).2.2
    rw [← hrefines.recency_eq] at hshape
    exact hshape.trans hgrace
  · rw [hrefines.recency_eq]
    exact hledger.admission hnow hgrace _ _
  · exact hrefines.admitted
  · intro _ hadmitted
    rw [hrefines.recency_eq]
    apply Recency.front_of_served
    rw [← hrefines.answer_eq, hadmitted]
    nofun

/-- Each call adds its assignments in front. -/
theorem Keeps.step (hash : BucketKey → ℕ → ℕ)
    (call : FragmentCall) (hnow : clock ≤ call.time) :
    (budget.step hash call).1.Keeps key call.time
      (assignmentsOf key (budget.step hash call).2.toList ++ history) := by
  cases call with
  | admission => exact hkeeps.admission hnow hash _ _
  | setLimit => exact hkeeps.setLimit hnow _

theorem Keeps.assignments (hash : BucketKey → ℕ → ℕ)
    {calls : List FragmentCall} (htimed : (clock :: calls.map FragmentCall.time).Pairwise (· ≤ ·)) :
    Unrepeated ((assignmentsOf key (budget.assignments hash calls)).reverse ++ history) := by
  induction calls generalizing budget clock history with
  | nil =>
    obtain ⟨_, _, _, _, hledger⟩ := hkeeps
    exact hledger.unrepeated
  | cons call _ ih =>
    rw [pairwise_cons] at htimed
    have hnext := ih (hkeeps.step hash _ (htimed.1 _ mem_cons_self)) htimed.2
    have hsingle : (assignmentsOf key (budget.step hash call).2.toList).reverse =
        assignmentsOf key (budget.step hash call).2.toList := by
      cases (budget.step hash call).2 with
      | none => rfl
      | some assignment =>
        by_cases hkey : assignment.destination = key <;> simp [assignmentsOf, hkey]
    rw [assignments, assignmentsOf, filter_append, reverse_append, append_assoc]
    rw [← hsingle] at hnext
    exact hnext

end

end InnerFragmentBudget

/-- Over every run, the assignments of a destination do not repeat a value within
a lifetime, are not zero, and are at most 65,535 in a lifetime, also across
replacements of the limit and evictions of the destination. -/
theorem identifications_unique (hash : BucketKey → ℕ → ℕ) (limit : GtpuInnerFragmentRateLimit)
    (calls : List FragmentCall) (htimes : (calls.map FragmentCall.time).Pairwise (· ≤ ·)) :
    ((new limit).assignments hash calls).Pairwise (fun earlier later =>
      earlier.destination = later.destination →
      later.time < earlier.time + maximumDatagramLifetime →
      ∀ value, earlier.identification = some value → later.identification ≠ some value) ∧
    (∀ entry ∈ (new limit).assignments hash calls,
      ∀ value, entry.identification = some value → value ≠ 0 ∧ value ≤ u16Max) ∧
    ∀ destination start, ((new limit).assignments hash calls).countP
      (fun entry => decide (entry.destination = destination ∧
        start ≤ entry.time ∧ entry.time < start + maximumDatagramLifetime)) ≤ u16Max := by
  have hkeys : ∀ key, Unrepeated
      (assignmentsOf key ((new limit).assignments hash calls)).reverse := by
    intro key
    have hrun := (keeps_new limit key).assignments hash
      (pairwise_cons.mpr ⟨fun _ _ => Nat.zero_le _, htimes⟩)
    rwa [append_nil] at hrun
  generalize (new limit).assignments hash calls = assignments at hkeys
  refine ⟨?_, ?_, ?_⟩
  · rw [pairwise_iff_getElem]
    intro i j hi hj hij hsame
    have hdistinct := (hkeys (assignments[i]).destination).distinct
    rw [pairwise_reverse, assignmentsOf, pairwise_filter,
      pairwise_iff_getElem] at hdistinct
    intro hrecent
    exact hdistinct i j hi hj hij (decide_eq_true rfl)
      (decide_eq_true hsame.symm) (decide_eq_true hrecent)
  · intro entry hentry
    refine (hkeys entry.destination).valid _ ?_
    simp [assignmentsOf, hentry]
  · intro destination start
    have hbounded := (hkeys destination).bounded start
    rw [countP_reverse, assignmentsOf, countP_filter] at hbounded
    refine le_of_eq_of_le (countP_congr ?_) hbounded
    simp [and_comm]

/-- One packet, and one more every ten seconds. -/
def slowLimit : GtpuInnerFragmentRateLimit :=
  ⟨1, 10 ^ 10, by decide, by decide, by decide⟩

/-- The stricter limit leaves its first destination one token, so that the datagram at 4
is refused; the one after ten more seconds goes on with the same sequence. -/
theorem identifications_unique_replaced :
    let calls := [.admission (numberedKey 7) 0 true, .setLimit slowLimit 1,
      .admission (numberedKey 7) 2 true, .admission (numberedKey 9) 3 true,
      .admission (numberedKey 7) 4 true, .admission (numberedKey 7) (2 * 10 ^ 10) true]
    let assignments := (new .default).assignments (fun _ seeded => seeded) calls
    assignments = [⟨numberedKey 7, 0, some 2⟩, ⟨numberedKey 7, 2, some 3⟩,
      ⟨numberedKey 9, 3, some 4⟩, ⟨numberedKey 7, 2 * 10 ^ 10, some 4⟩] ∧
    (assignments.Pairwise fun earlier later => earlier.destination = later.destination →
      later.time < earlier.time + maximumDatagramLifetime →
      ∀ value, earlier.identification = some value → later.identification ≠ some value) ∧
    assignments.countP (fun entry => decide (entry.destination = numberedKey 7 ∧
      0 ≤ entry.time ∧ entry.time < 0 + maximumDatagramLifetime)) ≤ u16Max := by
  intro calls assignments
  have hunique := identifications_unique (fun _ seeded => seeded) .default calls (by decide)
  exact ⟨by decide +kernel, hunique.1, hunique.2.2 _ 0⟩

end PacketCore.Gtpu
