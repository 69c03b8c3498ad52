import PacketCore.Library.Loop

/-!
# Runs

A machine is a fallible step function; a run is a list of inputs that it
accepts one after the other.  What every step preserves holds in every state a
run reaches.  The last section is about numbers that a run emits: a stretch of
them ascends between two bounds, and stretches compose.
-/

namespace PacketCore

section Runs

variable {σ ι ε : Type*}

/-- Apply inputs one after the other. -/
def runInputs (step : σ → ι → Except ε σ) (inputs : List ι) (state : σ) : Except ε σ :=
  inputs.foldlM step state

/-- Some run leads from one state to the other. -/
def Leads (step : σ → ι → Except ε σ) (first last : σ) : Prop :=
  ∃ inputs, runInputs step inputs first = .ok last

variable {step : σ → ι → Except ε σ} {first middle last : σ}

theorem Leads.trans (hleft : Leads step first middle)
    (hright : Leads step middle last) : Leads step first last := by
  obtain ⟨left, hleft⟩ := hleft
  obtain ⟨right, hright⟩ := hright
  refine ⟨left ++ right, ?_⟩
  rw [runInputs, List.foldlM_append, ← runInputs, hleft]
  exact hright

/-- What one step preserves, a run preserves. -/
theorem Leads.invariant {Inv : σ → Prop}
    (hstep : ∀ state input next, Inv state → step state input = .ok next → Inv next)
    (hlead : Leads step first last) (hfirst : Inv first) : Inv last := by
  obtain ⟨_, hrun⟩ := hlead
  exact foldlM_invariant _ hstep hfirst hrun

end Runs

section Slots

variable {α β : Type*}

end Slots

section Ascents

variable {α : Type*} [Preorder α]

/-- A strictly ascending stretch above `low` that stays within `high`. -/
structure Ascends (low : α) (items : List α) (high : α) : Prop where
  bounds : low ≤ high
  sorted : items.Pairwise (· < ·)
  within : ∀ item ∈ items, low < item ∧ item ≤ high

variable {low middle high : α} {left right : List α}

theorem Ascends.nil (hbounds : low ≤ high) : Ascends low [] high :=
  ⟨hbounds, .nil, by simp⟩

theorem Ascends.single {item : α} (hlow : low < item) (hhigh : item ≤ high) :
    Ascends low [item] high :=
  ⟨hlow.le.trans hhigh, by simp, by simp [hlow, hhigh]⟩

/-- Stretches compose. -/
theorem Ascends.append (hleft : Ascends low left middle)
    (hright : Ascends middle right high) : Ascends low (left ++ right) high where
  bounds := hleft.bounds.trans hright.bounds
  sorted := by
    rw [List.pairwise_append]
    refine ⟨hleft.sorted, hright.sorted, ?_⟩
    intro _ hearlier _ hlater
    exact (hleft.within _ hearlier).2.trans_lt (hright.within _ hlater).1
  within := List.forall_mem_append.mpr
    ⟨fun _ hitem => (hleft.within _ hitem).imp_right (·.trans hright.bounds),
      fun _ hitem => (hright.within _ hitem).imp_left hleft.bounds.trans_lt⟩

end Ascents

end PacketCore
