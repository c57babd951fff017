import QuasiNewton.Proofs.Exact.Reals
import QuasiNewton.Proofs.LineSearch.Recording

/-!
# Searches on another scale

A method compares costs with costs and slopes with slopes, and it never compares a cost with a constant of
its own. If one line answers `scale * cost + lift` and `scale * slope` wherever another line answers `cost`
and `slope`, with `scale` positive, then the searches along both lines try the same step lengths and settle
on the same one, or they fail for the same cause: `Method.search_rescales`.
-/

set_option autoImplicit false

namespace QuasiNewton

open Attempt

variable {σ τ : Type}

/-! ### Records on another scale -/

/-- Whether a fault is reported by a method in the course of a search, and not before its first trial. -/
def SearchFault.ofMethod {α : Type} : SearchFault α → Bool
  | notConfigured => false
  | notDescent _ => false
  | _ => true

/-- A fault of a search with its costs and slopes on another scale. -/
def SearchFault.rescale (scale lift : ℝ) : SearchFault ℝ → SearchFault ℝ
  | notDescent slope => notDescent (scale * slope)
  | secantIncreased cost start => secantIncreased (scale * cost + lift) (scale * start + lift)
  | fault => fault

/-- A fault with its costs and slopes on another scale: its kind and its cause stay what they are. -/
def Fault.rescale (scale lift : ℝ) : Fault ℝ → Fault ℝ
  | search cause => search (cause.rescale scale lift)
  | fault => fault

def Step.rescale (scale lift : ℝ) (s : Step ℝ) : Step ℝ := { s with cost := scale * s.cost + lift }

namespace Wolfe

def Origin.rescale (scale lift : ℝ) (o : Origin ℝ) : Origin ℝ := ⟨scale * o.cost + lift, scale * o.slope⟩

def Interval.rescale (scale lift : ℝ) (i : Interval ℝ) : Interval ℝ :=
  { i with lowCost := scale * i.lowCost + lift }

def Halved.rescale (scale lift : ℝ) : Halved ℝ → Halved ℝ
  | found alpha cost => found alpha (scale * cost + lift)
  | narrowed half => narrowed (half.rescale scale lift)

def Ending.rescale (scale lift : ℝ) : Ending ℝ → Ending ℝ
  | flat alpha cost => flat alpha (scale * cost + lift)
  | exhausted alpha cost => exhausted alpha (scale * cost + lift)
  | narrowed i => narrowed (i.rescale scale lift)

end Wolfe

/-- A line that answers costs and slopes on another scale, and fails alike. -/
structure Line.Rescales (R : σ → τ → Prop) (F : Fault ℝ → Fault ℝ → Prop) (scale lift : ℝ) (l : Line ℝ σ)
    (m : Line ℝ τ) : Prop where
  cost : ∀ alpha,
    (l.cost alpha).Corresponds R (fun cost cost' => cost' = scale * cost + lift) F (m.cost alpha)
  slope : ∀ alpha,
    (l.slope alpha).Corresponds R (fun slope slope' => slope' = scale * slope) F (m.slope alpha)

/-! ### Comparisons on another scale -/

variable {scale lift : ℝ}

theorem rescale_le (positive : 0 < scale) {a b : ℝ} :
    scale * a + lift ≤ scale * b + lift ↔ a ≤ b := by
  rw [add_le_add_iff_right, mul_le_mul_iff_right₀ positive]

theorem rescale_lt (positive : 0 < scale) {a b : ℝ} :
    scale * a + lift < scale * b + lift ↔ a < b := by
  rw [add_lt_add_iff_right, mul_lt_mul_iff_right₀ positive]

variable (positive : 0 < scale)

include positive

namespace Backtracking

theorem accepts_rescale (s : Backtracking ℝ) (startCost startSlope alpha cost : ℝ) :
    s.accepts (scale * startCost + lift) (scale * startSlope) alpha (scale * cost + lift) =
      s.accepts startCost startSlope alpha cost := by
  have bound : scale * startCost + lift + s.decrease * alpha * (scale * startSlope) =
      scale * (startCost + s.decrease * alpha * startSlope) + lift := by ring
  unfold accepts
  rw [bound]
  exact decide_eq_decide.mpr (rescale_le positive)

end Backtracking

namespace Wolfe

variable (s : Wolfe ℝ) (o : Origin ℝ) (i : Interval ℝ)

theorem tooHigh_rescale (alpha cost : ℝ) :
    s.tooHigh (o.rescale scale lift) alpha (scale * cost + lift) = s.tooHigh o alpha cost := by
  have bound : scale * o.cost + lift + s.decrease * alpha * (scale * o.slope) =
      scale * (o.cost + s.decrease * alpha * o.slope) + lift := by ring
  unfold tooHigh Origin.rescale
  rw [bound]
  exact decide_eq_decide.mpr (rescale_lt positive)

theorem flat_rescale (slope : ℝ) :
    s.flat (o.rescale scale lift) (scale * slope) = s.flat o slope := by
  have bound : -s.curvature * (scale * o.slope) = scale * (-s.curvature * o.slope) := by ring
  unfold flat Origin.rescale
  rw [Exact.abs_eq, Exact.abs_eq, abs_mul, abs_of_pos positive, bound]
  exact decide_eq_decide.mpr (mul_le_mul_iff_right₀ positive)

theorem Interval.move_rescale (alpha cost slope : ℝ) :
    (i.rescale scale lift).move alpha (scale * cost + lift) (scale * slope) =
      (i.move alpha cost slope).rescale scale lift := by
  have side : (0 ≤ scale * slope * (i.high - i.low)) = (0 ≤ slope * (i.high - i.low)) := by
    rw [mul_assoc, mul_nonneg_iff_of_pos_left positive]
  unfold move rescale
  simp only [side]

theorem lowCost_le_rescale (cost : ℝ) :
    decide ((i.rescale scale lift).lowCost ≤ scale * cost + lift) = decide (i.lowCost ≤ cost) :=
  decide_eq_decide.mpr (rescale_le positive)

end Wolfe

namespace Secant

theorem settles_rescale (s : Secant ℝ) (startSlope slopeBefore slope : ℝ) :
    s.settles (scale * startSlope) (scale * slopeBefore) (scale * slope) =
      s.settles startSlope slopeBefore slope := by
  have bound : s.tolerance * (scale * |startSlope|) = scale * (s.tolerance * |startSlope|) := by ring
  have same : (scale * slope == scale * slopeBefore) = (slope == slopeBefore) := by
    rw [Bool.eq_iff_iff, beq_iff_eq, beq_iff_eq]
    exact mul_right_inj' positive.ne'
  unfold settles
  rw [Exact.abs_eq, Exact.abs_eq, abs_mul, abs_mul, abs_of_pos positive, bound, same]
  congr 1
  exact decide_eq_decide.mpr (mul_le_mul_iff_right₀ positive)

theorem nextStep_rescale (before slopeBefore alpha slope : ℝ) :
    nextStep before (scale * slopeBefore) alpha (scale * slope) =
      nextStep before slopeBefore alpha slope := by
  unfold nextStep
  rw [← mul_sub, mul_assoc, mul_div_mul_left _ _ positive.ne']

end Secant

/-! ### Searches on another scale -/

section Searches

variable {R : σ → τ → Prop} {F : Fault ℝ → Fault ℝ → Prop} {l : Line ℝ σ} {m : Line ℝ τ}
  (own : ∀ cause : SearchFault ℝ, cause.ofMethod = true →
    F (.search cause) (.search (cause.rescale scale lift)))
  (h : l.Rescales R F scale lift m)

include own h

namespace Backtracking

theorem searchFrom_rescales (s : Backtracking ℝ) (startCost startSlope : ℝ) (left : ℕ) (alpha : ℝ) :
    (s.searchFrom l startCost startSlope left alpha).Corresponds R
      (fun step step' => step' = step.rescale scale lift) F
      (s.searchFrom m (scale * startCost + lift) (scale * startSlope) left alpha) := by
  induction left generalizing alpha with
  | zero => exact .throw (own _ rfl)
  | succ left ih =>
    refine (h.cost alpha).bind fun cost cost' answered => ?_
    subst answered
    rw [s.accepts_rescale positive]
    by_cases accepted : s.accepts startCost startSlope alpha cost = true
    · simp only [accepted, if_true]
      exact .pure rfl
    · simp only [accepted]
      exact ih _

end Backtracking

namespace Wolfe

variable (s : Wolfe ℝ) (o : Origin ℝ)

omit own in
theorem halve_rescales (i : Interval ℝ) :
    (s.halve l o i).Corresponds R (fun halved halved' => halved' = halved.rescale scale lift) F
      (s.halve m (o.rescale scale lift) (i.rescale scale lift)) := by
  have middle : (i.rescale scale lift).middle = i.middle := rfl
  refine (h.cost i.middle).bind fun cost cost' answered => ?_
  subst answered
  rw [middle, s.tooHigh_rescale positive o, lowCost_le_rescale positive i]
  split
  · exact .pure rfl
  · refine (h.slope i.middle).bind fun slope slope' answered => ?_
    subst answered
    rw [s.flat_rescale positive o]
    split
    · exact .pure rfl
    · exact .pure (congrArg Halved.narrowed (i.move_rescale positive _ _ _))

omit own in
theorem zoom_rescales (left trials : ℕ) (i : Interval ℝ) :
    (s.zoom l o left trials i).Corresponds R
      (fun r r' => r' = (r.1.rescale scale lift, r.2)) F
      (s.zoom m (o.rescale scale lift) left trials (i.rescale scale lift)) := by
  induction left generalizing trials i with
  | zero => exact .pure rfl
  | succ left ih =>
    refine (s.halve_rescales positive h o i).bind fun halved halved' same => ?_
    subst same
    cases halved with
    | found alpha cost => exact .pure rfl
    | narrowed half =>
      have short : (half.rescale scale lift).short = half.short := rfl
      dsimp only [Halved.rescale]
      rw [short]
      split
      · exact .pure rfl
      · exact ih _ _

omit own in
theorem bracket_rescales (left trials : ℕ) (before costBefore alpha : ℝ) :
    (s.bracket l o left trials before costBefore alpha).Corresponds R
      (fun r r' => r' = (r.1.rescale scale lift, r.2)) F
      (s.bracket m (o.rescale scale lift) left trials before (scale * costBefore + lift) alpha) := by
  induction left generalizing trials before costBefore alpha with
  | zero => exact .pure rfl
  | succ left ih =>
    refine (h.cost alpha).bind fun cost cost' answered => ?_
    subst answered
    have risen : decide (scale * costBefore + lift ≤ scale * cost + lift) =
        decide (costBefore ≤ cost) := decide_eq_decide.mpr (rescale_le positive)
    rw [s.tooHigh_rescale positive o, risen]
    split
    · exact s.zoom_rescales positive h o _ _ ⟨before, alpha, costBefore⟩
    · refine (h.slope alpha).bind fun slope slope' answered => ?_
      subst answered
      have falls : (0 ≤ scale * slope) = (0 ≤ slope) := by
        rw [mul_nonneg_iff_of_pos_left positive]
      rw [s.flat_rescale positive o]
      simp only [falls]
      split
      · exact .pure rfl
      · split
        · exact s.zoom_rescales positive h o _ _ ⟨alpha, before, cost⟩
        · exact ih _ _ _ _

omit positive h in
/-- What an ending leads to does not depend on the scale. -/
theorem step_rescales (trials : ℕ) (ending : Ending ℝ) :
    Agree (fun step step' => step' = Step.rescale scale lift step) F
      ((ending.step s trials).mapError .search)
      (((ending.rescale scale lift).step s trials).mapError .search) := by
  cases ending with
  | flat alpha cost => exact .ok rfl
  | exhausted alpha cost =>
    dsimp only [Ending.rescale, Ending.step]
    split
    · exact .ok rfl
    · exact .error (own _ rfl)
  | narrowed i =>
    dsimp only [Ending.rescale, Ending.step, Interval.rescale]
    split
    · exact .ok rfl
    · exact .error (own _ rfl)

theorem search_rescales (startCost startSlope : ℝ) :
    (s.search l startCost startSlope).Corresponds R
      (fun step step' => step' = step.rescale scale lift) F
      (s.search m (scale * startCost + lift) (scale * startSlope)) := by
  refine (s.bracket_rescales positive h ⟨startCost, startSlope⟩ _ _ _ _ _).bind fun r r' same => ?_
  subst same
  exact .ofExcept (s.step_rescales own _ _)

end Wolfe

namespace Secant

variable (s : Secant ℝ)

theorem locate_rescales (startSlope : ℝ) (left : ℕ) (before slopeBefore alpha : ℝ) :
    (s.locate l startSlope left before slopeBefore alpha).Corresponds R Eq F
      (s.locate m (scale * startSlope) left before (scale * slopeBefore) alpha) := by
  induction left generalizing before slopeBefore alpha with
  | zero => exact .pure rfl
  | succ left ih =>
    refine (h.slope alpha).bind fun slope slope' answered => ?_
    subst answered
    rw [s.settles_rescale positive, nextStep_rescale positive]
    split
    · exact .pure rfl
    · dsimp only
      split
      · exact .throw (own _ rfl)
      · exact ih _ _ _

theorem search_rescales (startCost startSlope : ℝ) :
    (s.search l startCost startSlope).Corresponds R
      (fun step step' => step' = step.rescale scale lift) F
      (s.search m (scale * startCost + lift) (scale * startSlope)) := by
  refine (s.locate_rescales positive own h startSlope _ _ _ _).bind fun found _ same => ?_
  subst same
  refine (h.cost found.1).bind fun cost cost' answered => ?_
  subst answered
  simp only [rescale_lt positive]
  split
  · exact .throw (own _ rfl)
  · exact .pure rfl

end Secant

/-- **Searches do not depend on the scale of the costs.** -/
theorem Method.search_rescales (method : Method ℝ) (startCost startSlope : ℝ) :
    (method.search l startCost startSlope).Corresponds R
      (fun step step' => step' = step.rescale scale lift) F
      (method.search m (scale * startCost + lift) (scale * startSlope)) := by
  cases method with
  | backtracking s => exact s.searchFrom_rescales positive own h startCost startSlope _ _
  | wolfe s => exact s.search_rescales positive own h startCost startSlope
  | secant s => exact s.search_rescales positive own h startCost startSlope

end Searches

end QuasiNewton
