import QuasiNewton.Proofs.LineSearch.Rescaling

/-!
# Searches with another unit of length

If one line answers at `alpha / stretch` what another line answers at `alpha`, with slopes that are larger by the
factor `stretch`, then a search along the one that starts with a step length smaller by this factor makes the trials
of the search along the other. Backtracking and the secant method find the same step, in the smaller unit, or they
fail for the same cause (`Method.search_stretches`). The search for the strong Wolfe conditions is not among them: it
compares the length of an interval with a constant of its own.
-/

set_option autoImplicit false

namespace QuasiNewton

open Attempt

variable {σ τ : Type}

/-! ### Records in another unit -/

/-- A fault of a search with its step lengths and slopes in another unit. -/
noncomputable def SearchFault.stretch (stretch : ℝ) : SearchFault ℝ → SearchFault ℝ
  | notDescent slope => notDescent (stretch * slope)
  | secantLeft alpha => secantLeft (alpha / stretch)
  | fault => fault

/-- A fault with its step lengths and slopes in another unit: its kind and its cause stay what they are. -/
noncomputable def Fault.stretch (stretch : ℝ) : Fault ℝ → Fault ℝ
  | search cause => search (cause.stretch stretch)
  | fault => fault

noncomputable def Step.stretch (stretch : ℝ) (s : Step ℝ) : Step ℝ := { s with alpha := s.alpha / stretch }

noncomputable def Backtracking.stretch (stretch : ℝ) (s : Backtracking ℝ) : Backtracking ℝ :=
  { s with firstStep := s.firstStep / stretch }

noncomputable def Wolfe.stretch (stretch : ℝ) (s : Wolfe ℝ) : Wolfe ℝ :=
  { s with firstStep := s.firstStep / stretch }

noncomputable def Secant.stretch (stretch : ℝ) (s : Secant ℝ) : Secant ℝ :=
  { s with firstStep := s.firstStep / stretch }

/-- The method with its first step length in another unit. -/
noncomputable def Method.stretch (stretch : ℝ) : Method ℝ → Method ℝ
  | backtracking s => backtracking (s.stretch stretch)
  | wolfe s => wolfe (s.stretch stretch)
  | secant s => secant (s.stretch stretch)

/-- A line that answers in another unit of length, and fails alike. -/
structure Line.Stretches (R : σ → τ → Prop) (F : Fault ℝ → Fault ℝ → Prop) (stretch : ℝ) (l : Line ℝ σ)
    (m : Line ℝ τ) : Prop where
  cost : ∀ alpha, (l.cost alpha).Corresponds R (fun cost cost' => cost' = cost) F (m.cost (alpha / stretch))
  slope : ∀ alpha,
    (l.slope alpha).Corresponds R (fun slope slope' => slope' = stretch * slope) F (m.slope (alpha / stretch))

/-! ### Comparisons in another unit -/

variable {stretch : ℝ} (positive : 0 < stretch)

include positive

theorem Backtracking.accepts_stretch (s : Backtracking ℝ) (startCost startSlope alpha cost : ℝ) :
    (s.stretch stretch).accepts startCost (stretch * startSlope) (alpha / stretch) cost =
      s.accepts startCost startSlope alpha cost := by
  have promised : s.decrease * (alpha / stretch) * (stretch * startSlope) = s.decrease * alpha * startSlope := by
    have nonzero := positive.ne'
    field_simp
  unfold accepts Backtracking.stretch
  rw [promised]

theorem Secant.nextStep_stretch (before slopeBefore alpha slope : ℝ) :
    nextStep (before / stretch) (stretch * slopeBefore) (alpha / stretch) (stretch * slope) =
      nextStep before slopeBefore alpha slope / stretch := by
  rw [nextStep_rescale positive]
  unfold nextStep
  ring

/-! ### Searches in another unit -/

section Searches

variable {R : σ → τ → Prop} {F : Fault ℝ → Fault ℝ → Prop} {l : Line ℝ σ} {m : Line ℝ τ}
  (own : ∀ cause : SearchFault ℝ, cause.ofMethod = true →
    F (.search cause) (.search (cause.stretch stretch)))
  (h : l.Stretches R F stretch m)

include own h

theorem Backtracking.searchFrom_stretches (s : Backtracking ℝ) (startCost startSlope : ℝ) (left : ℕ)
    (alpha : ℝ) :
    (s.searchFrom l startCost startSlope left alpha).Corresponds R
      (fun step step' => step' = step.stretch stretch) F
      ((s.stretch stretch).searchFrom m startCost (stretch * startSlope) left (alpha / stretch)) := by
  induction left generalizing alpha with
  | zero => exact .throw (own _ rfl)
  | succ left ih =>
    refine (h.cost alpha).bind fun cost cost' answered => ?_
    subst answered
    have next : alpha / stretch * (s.stretch stretch).shrink = alpha * s.shrink / stretch :=
      div_mul_eq_mul_div _ _ _
    rw [s.accepts_stretch positive, next]
    by_cases accepted : s.accepts startCost startSlope alpha cost' = true
    · simp only [accepted, if_true]
      exact .pure rfl
    · simp only [accepted]
      exact ih _

namespace Secant

variable (s : Secant ℝ)

theorem locate_stretches (startSlope : ℝ) (left : ℕ) (before slopeBefore alpha : ℝ) :
    (s.locate l startSlope left before slopeBefore alpha).Corresponds R
      (fun found found' => found' = (found.1 / stretch, found.2)) F
      ((s.stretch stretch).locate m (stretch * startSlope) left (before / stretch) (stretch * slopeBefore)
        (alpha / stretch)) := by
  induction left generalizing before slopeBefore alpha with
  | zero => exact .pure rfl
  | succ left ih =>
    refine (h.slope alpha).bind fun slope slope' answered => ?_
    subst answered
    have settled : (s.stretch stretch).settles (stretch * startSlope) (stretch * slopeBefore) (stretch * slope) =
        s.settles startSlope slopeBefore slope := s.settles_rescale positive _ _ _
    have behind : decide (nextStep before slopeBefore alpha slope / stretch ≤ 0) =
        decide (nextStep before slopeBefore alpha slope ≤ 0) :=
      decide_eq_decide.mpr (by rw [div_le_iff₀ positive, zero_mul])
    rw [settled, nextStep_stretch positive]
    split
    · exact .pure rfl
    · dsimp only
      rw [behind, Exact.isFinite_eq, Exact.isFinite_eq]
      split
      · exact .throw (own _ rfl)
      · exact ih _ _ _

theorem search_stretches (startCost startSlope : ℝ) :
    (s.search l startCost startSlope).Corresponds R (fun step step' => step' = step.stretch stretch) F
      ((s.stretch stretch).search m startCost (stretch * startSlope)) := by
  have located := s.locate_stretches positive own h startSlope s.trials 0 startSlope s.firstStep
  rw [zero_div] at located
  refine located.bind fun found _ same => ?_
  subst same
  refine (h.cost found.1).bind fun cost cost' answered => ?_
  subst answered
  split
  · exact .throw (own _ rfl)
  · exact .pure rfl

end Secant

/-- **Backtracking and the secant method do not depend on the unit of length.** -/
theorem Method.search_stretches (method : Method ℝ) (other : ∀ s, method ≠ .wolfe s)
    (startCost startSlope : ℝ) :
    (method.search l startCost startSlope).Corresponds R (fun step step' => step' = step.stretch stretch) F
      ((method.stretch stretch).search m startCost (stretch * startSlope)) := by
  cases method with
  | backtracking s => exact s.searchFrom_stretches positive own h startCost startSlope _ _
  | wolfe s => exact absurd rfl (other s)
  | secant s => exact s.search_stretches positive own h startCost startSlope

end Searches

end QuasiNewton
