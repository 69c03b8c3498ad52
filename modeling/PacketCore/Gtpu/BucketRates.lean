import PacketCore.Gtpu.Recency

/-!
# What a lazily refilled bucket admits

A bucket that opens a window full admits no more than its burst and the tokens
restored inside the window.  The account carries over to a bucket created in
place of an evicted one, because only completely refilled buckets are evicted.
-/

namespace PacketCore.Gtpu

namespace TokenBucket

variable {bucket : TokenBucket} {burst refillInterval now later start count : ℕ}

/-- The tokens after a refill; the 32-bit conversion only cuts off what exceeds
every burst. -/
theorem tokens_refill (now : ℕ) (hinterval : 0 < refillInterval)
    (hburst : burst ≤ u32Max) (htokens : bucket.tokens ≤ burst) :
    (bucket.refill burst refillInterval now).tokens =
      min (bucket.tokens + (now - bucket.lastRefill) / refillInterval) burst := by
  unfold refill
  rw [max_eq_left hinterval]
  generalize (now - bucket.lastRefill) / refillInterval = intervals
  simp only
  split
  · simp only
    omega
  · omega

theorem tokens_refill_le (htokens : bucket.tokens ≤ burst) :
    (bucket.refill burst refillInterval now).tokens ≤ burst := by
  unfold refill
  simp only
  split
  · exact min_le_right _ _
  · exact htokens

theorem lastRefill_refill_le (hlast : bucket.lastRefill ≤ now) :
    (bucket.refill burst refillInterval now).lastRefill ≤ now := by
  unfold refill
  simp only
  split
  · exact min_le_right _ _
  · exact hlast

theorem tokens_admit_le (htokens : bucket.tokens ≤ burst) :
    (bucket.admission burst refillInterval now).2.tokens ≤ burst := by
  have hrefilled : (bucket.refill burst refillInterval now).tokens ≤ burst :=
    tokens_refill_le htokens
  unfold admission
  simp only
  split
  · exact hrefilled
  · exact (Nat.sub_le _ _).trans hrefilled

theorem lastRefill_admit_le (hlast : bucket.lastRefill ≤ now) :
    (bucket.admission burst refillInterval now).2.lastRefill ≤ now := by
  have hrefilled : (bucket.refill burst refillInterval now).lastRefill ≤ now :=
    lastRefill_refill_le hlast
  unfold admission
  simp only
  split <;> exact hrefilled

/-- The whole intervals that a refill accounts for. -/
theorem lastRefill_refill (burst : ℕ) (hinterval : 0 < refillInterval)
    (hlast : bucket.lastRefill ≤ now) :
    (bucket.refill burst refillInterval now).lastRefill =
      bucket.lastRefill +
        refillInterval * min ((now - bucket.lastRefill) / refillInterval) u32Max := by
  have hadvance : refillInterval * min ((now - bucket.lastRefill) / refillInterval) u32Max ≤
      now - bucket.lastRefill :=
    (Nat.mul_le_mul_left _ (min_le_left _ _)).trans (Nat.mul_div_le _ _)
  unfold refill
  rw [max_eq_left hinterval]
  simp only
  split
  · simp only
    omega
  · rename_i hzero
    rw [Nat.le_zero.mp (not_lt.mp hzero)]
    simp

/-- Refilling early makes no difference to the tokens available later. -/
theorem tokens_refill_refill (hinterval : 0 < refillInterval) (hburst : burst ≤ u32Max)
    (htokens : bucket.tokens ≤ burst) (hlast : bucket.lastRefill ≤ now) (hlater : now ≤ later) :
    ((bucket.refill burst refillInterval now).refill burst refillInterval later).tokens =
      (bucket.refill burst refillInterval later).tokens := by
  rw [tokens_refill _ hinterval hburst (tokens_refill_le htokens),
    tokens_refill _ hinterval hburst htokens, tokens_refill _ hinterval hburst htokens,
    lastRefill_refill _ hinterval hlast]
  generalize hfirst : (now - bucket.lastRefill) / refillInterval = first
  have hsplit : (later - (bucket.lastRefill + refillInterval * min first u32Max)) /
      refillInterval = (later - bucket.lastRefill) / refillInterval - min first u32Max := by
    rw [← Nat.sub_sub, Nat.sub_mul_div]
  have hle : first ≤ (later - bucket.lastRefill) / refillInterval := by
    rw [← hfirst]
    exact Nat.div_le_div_right (Nat.sub_le_sub_right hlater _)
  omega

/-- A refill that is not too late accounts for every whole interval. -/
theorem lt_lastRefill_refill (burst : ℕ) (hinterval : 0 < refillInterval)
    (hlast : bucket.lastRefill ≤ now)
    (hprompt : now - bucket.lastRefill < 2 ^ 32 * refillInterval) :
    now < (bucket.refill burst refillInterval now).lastRefill + refillInterval := by
  have hintervals : (now - bucket.lastRefill) / refillInterval ≤ u32Max := by
    have hdiv := (Nat.div_lt_iff_lt_mul hinterval).mpr hprompt
    unfold u32Max
    omega
  rw [lastRefill_refill _ hinterval hlast, min_eq_left hintervals]
  have hmod := Nat.div_add_mod (now - bucket.lastRefill) refillInterval
  have hremainder := Nat.mod_lt (now - bucket.lastRefill) hinterval
  omega

end TokenBucket

/-! ## The account of one key -/

/-- What one key has taken since `start`, against the tokens that were there. -/
structure Budget (burst refillInterval start count : ℕ) (bucket : TokenBucket) : Prop where
  tokens_le : bucket.tokens ≤ burst
  spent : count + bucket.tokens ≤ burst + (bucket.lastRefill - start) ⌈/⌉ refillInterval
  phase : 0 < count → start < bucket.lastRefill + refillInterval

namespace Budget

variable {bucket : TokenBucket} {burst refillInterval now start count : ℕ}

/-- Whole intervals add as many tokens as they add to the window. -/
theorem ceilDiv_advance {last : ℕ} (intervals : ℕ)
    (hinterval : 0 < refillInterval) (hphase : start < last + refillInterval) :
    (last - start) ⌈/⌉ refillInterval + intervals ≤
      (last + refillInterval * intervals - start) ⌈/⌉ refillInterval := by
  rw [Nat.ceilDiv_eq_add_pred_div, Nat.ceilDiv_eq_add_pred_div]
  rcases le_or_gt start last with _ | _
  · rw [← Nat.add_mul_div_left _ _ hinterval]
    apply Nat.div_le_div_right
    omega
  · -- the window opened less than one interval after the last refill
    have hzero : (last - start + refillInterval - 1) / refillInterval = 0 :=
      Nat.div_eq_of_lt (by omega)
    rw [hzero, zero_add, Nat.le_div_iff_mul_le hinterval, Nat.mul_comm]
    rcases Nat.eq_zero_or_pos intervals with rfl | _
    · simp
    · omega

section

variable (hbudget : Budget burst refillInterval start count bucket)
include hbudget

/-- A refill restores no more than the time it accounts for. -/
theorem refill
    (hinterval : 0 < refillInterval) (hburst : burst ≤ u32Max) (hlast : bucket.lastRefill ≤ now) :
    Budget burst refillInterval start count (bucket.refill burst refillInterval now) := by
  have hadvance := TokenBucket.lastRefill_refill burst hinterval hlast
  have htokens := TokenBucket.tokens_refill now hinterval hburst hbudget.tokens_le
  generalize (now - bucket.lastRefill) / refillInterval = intervals at hadvance htokens
  refine ⟨?_, ?_, ?_⟩
  · rw [htokens]
    exact min_le_right _ _
  · rw [hadvance]
    rcases Nat.eq_zero_or_pos count with rfl | hpos
    · omega
    · have hstep := ceilDiv_advance (min intervals u32Max) hinterval (hbudget.phase hpos)
      have hspent := hbudget.spent
      omega
  · intro hpos
    have hphase := hbudget.phase hpos
    omega

/-- A token taken inside the window is counted. -/
theorem take (htoken : bucket.tokens ≠ 0)
    (hstart : start ≤ now) (hnow : now < bucket.lastRefill + refillInterval) :
    Budget burst refillInterval start (count + 1) { bucket with tokens := bucket.tokens - 1 } := by
  obtain ⟨htokens, _, _⟩ := hbudget
  refine ⟨?_, ?_, ?_⟩
  · exact (Nat.sub_le _ _).trans htokens
  · simp only
    omega
  · intro _
    exact hstart.trans_lt hnow

/-- A token taken outside the window is not. -/
theorem drop :
    Budget burst refillInterval start count { bucket with tokens := bucket.tokens - 1 } := by
  obtain ⟨htokens, _, hphase⟩ := hbudget
  refine ⟨(Nat.sub_le _ _).trans htokens, ?_, hphase⟩
  simp only
  omega

/-- One admission, which counts when it falls into the window. -/
theorem admission (counted : Prop)
    [Decidable counted] (hinterval : 0 < refillInterval) (hburst : burst ≤ u32Max)
    (hlast : bucket.lastRefill ≤ now) (hstart : counted → start ≤ now)
    (hprompt : counted → now - bucket.lastRefill < 2 ^ 32 * refillInterval) :
    Budget burst refillInterval start
      (count + if counted ∧ (bucket.admission burst refillInterval now).1 then 1 else 0)
      (bucket.admission burst refillInterval now).2 := by
  have hrefilled := hbudget.refill hinterval hburst hlast
  by_cases hempty : (bucket.refill burst refillInterval now).tokens = 0
  · rw [TokenBucket.admission, if_pos hempty]
    simpa using hrefilled
  · rw [TokenBucket.admission, if_neg hempty]
    by_cases hcounted : counted
    · simp only [hcounted]
      exact hrefilled.take hempty (hstart hcounted)
        (TokenBucket.lt_lastRefill_refill _ hinterval hlast (hprompt hcounted))
    · simp only [hcounted]
      exact hrefilled.drop

end

end Budget

end PacketCore.Gtpu
