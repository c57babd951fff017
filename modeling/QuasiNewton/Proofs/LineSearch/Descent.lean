import QuasiNewton.Proofs.LineSearch.BestTrial

/-!
# Steps that lower the cost

Whatever a line answers, a step that one of the three methods settles on lies ahead of the start, its
cost is what the line answered there, and this cost does not exceed the cost at the start. Backtracking
and the search for the strong Wolfe conditions lower the cost properly; the secant method compares the
two costs once, at the end.
-/

set_option autoImplicit false

namespace QuasiNewton

open Attempt

variable {σ : Type} {line : Line ℝ σ} {I : σ → Prop} {Φ Ψ : ℝ → ℝ → Prop} {E : Fault ℝ → Prop}
  {startCost startSlope : ℝ} {st : σ}

namespace Backtracking

/-- The settings that a search is made with, and at least one trial. -/
structure Admissible (s : Backtracking ℝ) : Prop where
  firstStep_pos : 0 < s.firstStep
  shrink_pos : 0 < s.shrink
  shrink_lt_one : s.shrink < 1
  decrease_pos : 0 < s.decrease
  decrease_lt_one : s.decrease < 1
  trials_pos : 0 < s.trials

/-- A search that is made from its options may be run if its limit permits a trial. -/
theorem admissible_of_ofOptions {options : BacktrackingOptions ℝ} {s : Backtracking ℝ}
    (made : ofOptions options = .ok s) (trials : 1 ≤ options.trials) : s.Admissible := by
  simp only [ofOptions, except_bind_ok, require_ok, Exact.countOf_of_nonneg (zero_le_one.trans trials),
    Except.ok.injEq, pure, Except.pure] at made
  obtain ⟨_, decrease, _, shrink, _, firstStep, _, -, _, rfl, rfl⟩ := made
  obtain ⟨decrease_pos, decrease_lt_one⟩ := of_decide_eq_true decrease
  obtain ⟨shrink_pos, shrink_lt_one⟩ := of_decide_eq_true shrink
  exact ⟨by simpa using firstStep, shrink_pos, shrink_lt_one, decrease_pos, decrease_lt_one,
    Nat.floor_pos.mpr trials⟩

/-- The search with the usual settings. -/
noncomputable def usual : Backtracking ℝ := ⟨1, 0.5, 1e-4, 50⟩

theorem usual_admissible : usual.Admissible := by
  constructor <;> norm_num [usual]

/-- Every step that is accepted lowers the cost, however many trials are left. -/
theorem searchFrom_ensures {s : Backtracking ℝ} (h : line.Answers I Φ Ψ E) (hs : s.Admissible)
    (descent : startSlope < 0) (left : ℕ) {alpha : ℝ} (positive : 0 < alpha) (hI : I st) :
    (s.searchFrom line startCost startSlope left alpha).Ensures st
      (fun step t => I t ∧ 0 < step.alpha ∧ Φ step.alpha step.cost ∧ step.cost < startCost)
      fun _ t => I t := by
  induction left generalizing st alpha with
  | zero => exact hI
  | succ left ih =>
    simp only [searchFrom, ensures_bind]
    refine (h.cost alpha positive st hI).mono (fun cost t => ?_) fun _ _ failed => failed.2
    rintro ⟨answered, kept⟩
    split
    case isTrue accepted =>
      have gained : s.decrease * alpha * startSlope < 0 :=
        mul_neg_of_pos_of_neg (mul_pos hs.decrease_pos positive) descent
      have low : cost ≤ startCost + s.decrease * alpha * startSlope := by
        simpa [accepts] using accepted
      exact ⟨kept, positive, answered, by linarith⟩
    case isFalse => exact ih (mul_pos positive hs.shrink_pos) kept

end Backtracking

namespace Secant

/-- The settings that a search is made with, and at least one slope to ask for. -/
structure Admissible (s : Secant ℝ) : Prop where
  firstStep_pos : 0 < s.firstStep
  tolerance_pos : 0 < s.tolerance
  trials_pos : 0 < s.trials

/-- A search that is made from its options may be run if its limit permits a slope. -/
theorem admissible_of_ofOptions {options : SecantOptions ℝ} {s : Secant ℝ}
    (made : ofOptions options = .ok s) (trials : 1 ≤ options.trials) : s.Admissible := by
  simp only [ofOptions, except_bind_ok, require_ok, Exact.countOf_of_nonneg (zero_le_one.trans trials),
    Except.ok.injEq, pure, Except.pure] at made
  obtain ⟨_, firstStep, _, tolerance, _, -, _, rfl, rfl⟩ := made
  exact ⟨by simpa using firstStep, by simpa using tolerance, Nat.floor_pos.mpr trials⟩

/-- The search with the usual settings. -/
noncomputable def usual : Secant ℝ := ⟨1, 1e-10, 20⟩

theorem usual_admissible : usual.Admissible := by
  constructor <;> norm_num [usual]

theorem locate_ensures {s : Secant ℝ} (h : line.Answers I Φ Ψ E) (left : ℕ)
    {before slopeBefore alpha : ℝ} (positive : 0 < alpha) (hI : I st) :
    (s.locate line startSlope left before slopeBefore alpha).Ensures st
      (fun found t => I t ∧ 0 < found.1) fun _ t => I t := by
  induction left generalizing st before slopeBefore alpha with
  | zero => exact ⟨hI, positive⟩
  | succ left ih =>
    simp only [locate, ensures_bind]
    refine (h.slope alpha positive st hI).mono (fun slope t => ?_) fun _ _ failed => failed.2
    rintro ⟨-, kept⟩
    split
    case isTrue => exact ⟨kept, positive⟩
    case isFalse =>
      split
      case isTrue => exact kept
      case isFalse inside =>
        have ahead : 0 < nextStep before slopeBefore alpha slope := by simpa using inside
        exact ih ahead kept

/-- Where the first step length is flat and does not raise the cost, the secant method takes it. -/
theorem search_of_flat {s : Secant ℝ} (h : line.Answers I Φ Ψ fun _ => False) (hs : s.Admissible)
    (flat : ∀ slope, Ψ s.firstStep slope → slope = 0)
    (low : ∀ cost, Φ s.firstStep cost → cost ≤ startCost) (hI : I st) :
    (s.search line startCost startSlope).Ensures st (fun step _ => step.alpha = s.firstStep)
      fun _ _ => False := by
  obtain ⟨left, trials⟩ := Nat.exists_eq_succ_of_ne_zero hs.trials_pos.ne'
  rw [search, trials, locate]
  simp only [ensures_bind]
  refine (h.slope s.firstStep hs.firstStep_pos st hI).mono (fun slope t => ?_)
    fun _ _ failed => failed.1
  rintro ⟨answered, kept⟩
  have settled : s.settles startSlope startSlope slope = true := by
    have positive := mul_nonneg hs.tolerance_pos.le (abs_nonneg startSlope)
    simp [settles, flat slope answered, positive]
  simp only [settled, if_true, ensures_pure]
  refine (h.cost s.firstStep hs.firstStep_pos t kept).mono (fun cost u => ?_)
    fun _ _ failed => failed.1
  rintro ⟨answered, -⟩
  rw [if_neg (not_lt.mpr (low cost answered))]
  exact rfl

end Secant

namespace Method

/-- The settings of a method are those that it can be made with, and it may make trials. -/
def Admissible : Method ℝ → Prop
  | backtracking s => s.Admissible
  | wolfe s => s.Admissible
  | secant s => s.Admissible

/-- A method that accepts only steps that lower the cost properly. -/
def Strict : Method ℝ → Prop
  | backtracking _ => True
  | wolfe _ => True
  | secant _ => False

/-- **A step lies ahead of the start and does not raise the cost.** -/
theorem search_ensures {m : Method ℝ} (h : line.Answers I Φ Ψ E) (hm : m.Admissible)
    (descent : startSlope < 0) (hI : I st) :
    (m.search line startCost startSlope).Ensures st
      (fun step t => I t ∧ 0 < step.alpha ∧ Φ step.alpha step.cost ∧ step.cost ≤ startCost ∧
        (m.Strict → step.cost < startCost))
      fun _ t => I t := by
  cases m with
  | backtracking s =>
    refine (Backtracking.searchFrom_ensures h hm descent s.trials hm.firstStep_pos hI).mono
      (fun step t => ?_) fun _ _ failed => failed
    rintro ⟨kept, positive, answered, lower⟩
    exact ⟨kept, positive, answered, lower.le, fun _ => lower⟩
  | wolfe s =>
    simp only [search, Wolfe.search, ensures_bind]
    refine (((s.pursue_simulates ⟨startCost, startSlope⟩ line.recorded_simulates).ensures (t := st)
      rfl (Wolfe.pursue_ensures h hm descent hI))).mono (fun r t => ?_) ?_
    · rintro ⟨⟨state, trials⟩, rfl, recorded, -, -, concludes⟩
      rcases Wolfe.Ending.Concludes.step_cases concludes r.2 with
        ⟨⟨cause, failed⟩, -⟩ | ⟨trial, best, taken, -⟩
      · rw [failed]
        exact recorded.state
      · have lower : trial.cost < startCost :=
          best.acceptable.cost_lt hm.decrease_pos descent best.positive
        rw [taken]
        exact ⟨recorded.state, best.positive, recorded.answered trial best.mem, lower.le,
          fun _ => lower⟩
    · rintro fault t ⟨⟨state, trials⟩, rfl, -, recorded⟩
      exact recorded.state
  | secant s =>
    simp only [search, Secant.search, ensures_bind]
    refine (Secant.locate_ensures h s.trials hm.firstStep_pos hI).mono (fun found t => ?_)
      fun _ _ failed => failed
    rintro ⟨kept, positive⟩
    refine (h.cost found.1 positive t kept).mono (fun cost u => ?_) fun _ _ failed => failed.2
    rintro ⟨answered, kept⟩
    split
    case isTrue => exact kept
    case isFalse low => exact ⟨kept, positive, answered, not_lt.mp low, False.elim⟩

end Method

end QuasiNewton
