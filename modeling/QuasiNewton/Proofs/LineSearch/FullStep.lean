import QuasiNewton.Proofs.LineSearch.Descent

/-!
# Full steps

Along a parabola the full step is the best one if its cost is lower by half of what the slope at the start
promises. Its slope is zero then. A search that tries a full step first takes it, whichever of the three methods
it is, as long as it demands no more than half of the promised decrease (`Method.search_of_fullStep`).
-/

set_option autoImplicit false

namespace QuasiNewton

open Attempt

/-- A method that is made from settings in their ranges, that may make a trial and makes the first one with a
full step, and that demands at most half of the promised decrease. -/
inductive Method.TriesFullStep : Method ℝ → Prop where
  | backtracking {options : BacktrackingOptions ℝ} {s : Backtracking ℝ}
      (made : Backtracking.ofOptions options = .ok s) (first : options.firstStep = 1)
      (modest : options.decrease ≤ 1 / 2) (some : 1 ≤ options.trials) : TriesFullStep (.backtracking s)
  | wolfe {options : WolfeOptions ℝ} {s : Wolfe ℝ} (made : Wolfe.ofOptions options = .ok s)
      (first : options.firstStep = 1) (modest : options.decrease ≤ 1 / 2) (some : 1 ≤ options.trials) :
      TriesFullStep (.wolfe s)
  | secant {options : SecantOptions ℝ} {s : Secant ℝ} (made : Secant.ofOptions options = .ok s)
      (first : options.firstStep = 1) (some : 1 ≤ options.trials) : TriesFullStep (.secant s)

/-! ### Settings -/

theorem Backtracking.ofOptions_ok {o : BacktrackingOptions ℝ} {s : Backtracking ℝ}
    (made : ofOptions o = .ok s) (some : 1 ≤ o.trials) :
    s.firstStep = o.firstStep ∧ s.decrease = o.decrease ∧ 0 < s.trials := by
  simp only [ofOptions, except_bind_ok, Exact.countOf_of_nonneg (zero_le_one.trans some),
    Except.ok.injEq, pure, Except.pure] at made
  obtain ⟨_, -, _, -, _, -, _, -, _, rfl, rfl⟩ := made
  exact ⟨rfl, rfl, Nat.floor_pos.mpr some⟩

theorem Wolfe.ofOptions_ok {o : WolfeOptions ℝ} {s : Wolfe ℝ} (made : ofOptions o = .ok s)
    (some : 1 ≤ o.trials) :
    s.firstStep = o.firstStep ∧ s.decrease = o.decrease ∧ 0 < s.curvature ∧ 0 < s.trials := by
  simp only [ofOptions, except_bind_ok, require_ok, Exact.countOf_of_nonneg (zero_le_one.trans some),
    Except.ok.injEq, pure, Except.pure] at made
  obtain ⟨_, constants, _, -, _, -, _, rfl, _, -, rfl⟩ := made
  obtain ⟨positive, less, -⟩ := of_decide_eq_true constants
  exact ⟨rfl, rfl, positive.trans less, Nat.floor_pos.mpr some⟩

theorem Secant.ofOptions_ok {o : SecantOptions ℝ} {s : Secant ℝ} (made : ofOptions o = .ok s)
    (some : 1 ≤ o.trials) : s.firstStep = o.firstStep ∧ 0 < s.tolerance ∧ 0 < s.trials := by
  have admissible := admissible_of_ofOptions made some
  simp only [ofOptions, except_bind_ok, Except.ok.injEq, pure, Except.pure] at made
  obtain ⟨_, -, _, -, _, -, _, -, rfl⟩ := made
  exact ⟨rfl, admissible.tolerance_pos, admissible.trials_pos⟩

/-! ### Searches -/

variable {σ : Type} {line : Line ℝ σ} {I : σ → Prop} {Φ Ψ : ℝ → ℝ → Prop} {startCost startSlope : ℝ}
  {st : σ}

/-- Half of the promised decrease is enough. -/
theorem le_of_modest {decrease : ℝ} (modest : decrease ≤ 1 / 2) (descent : startSlope < 0) :
    startCost + startSlope / 2 ≤ startCost + decrease * 1 * startSlope := by
  have less : 1 / 2 * startSlope ≤ decrease * startSlope := mul_le_mul_of_nonpos_right modest descent.le
  linarith

theorem Backtracking.search_of_full {s : Backtracking ℝ} (h : line.Answers I Φ Ψ fun _ => False)
    (first : s.firstStep = 1) (modest : s.decrease ≤ 1 / 2) (some : 0 < s.trials)
    (descent : startSlope < 0) (half : ∀ cost, Φ 1 cost → cost = startCost + startSlope / 2) (hI : I st) :
    (s.search line startCost startSlope).Ensures st
      (fun step _ => step = ⟨1, startCost + startSlope / 2, 1⟩) fun _ _ => False := by
  obtain ⟨left, trials⟩ := Nat.exists_eq_succ_of_ne_zero some.ne'
  rw [search, first, trials, searchFrom, ensures_bind]
  refine (h.cost 1 one_pos st hI).mono (fun cost t => ?_) fun _ _ failed => failed.1
  rintro ⟨answered, -⟩
  obtain rfl := half cost answered
  have accepted : s.accepts startCost startSlope 1 (startCost + startSlope / 2) = true :=
    decide_eq_true (le_of_modest modest descent)
  have once : s.trials - left = 1 := by omega
  rw [if_pos accepted, once]
  exact rfl

theorem Wolfe.search_of_full {s : Wolfe ℝ} (h : line.Answers I Φ Ψ fun _ => False)
    (first : s.firstStep = 1) (modest : s.decrease ≤ 1 / 2) (positive : 0 < s.curvature)
    (some : 0 < s.trials) (descent : startSlope < 0)
    (half : ∀ cost, Φ 1 cost → cost = startCost + startSlope / 2)
    (flat : ∀ slope, Ψ 1 slope → slope = 0) (hI : I st) :
    (s.search line startCost startSlope).Ensures st
      (fun step _ => step = ⟨1, startCost + startSlope / 2, 1⟩) fun _ _ => False := by
  obtain ⟨left, trials⟩ := Nat.exists_eq_succ_of_ne_zero some.ne'
  rw [search, pursue, first, trials, bracket]
  simp only [ensures_bind]
  refine (h.cost 1 one_pos st hI).mono (fun cost t => ?_) fun _ _ failed => failed.1
  rintro ⟨answered, kept⟩
  obtain rfl := half cost answered
  have low : s.tooHigh ⟨startCost, startSlope⟩ 1 (startCost + startSlope / 2) = false :=
    decide_eq_false (not_lt.mpr (le_of_modest modest descent))
  have level : s.flat ⟨startCost, startSlope⟩ 0 = true := by
    have left : 0 ≤ -s.curvature * startSlope := by
      rw [neg_mul]
      exact neg_nonneg.mpr (mul_nonpos_of_nonneg_of_nonpos positive.le descent.le)
    simpa [Wolfe.flat] using left
  simp only [low, Nat.lt_irrefl, decide_false, Bool.false_and, Bool.or_self, Bool.false_eq_true, if_false,
    ensures_bind]
  refine (h.slope 1 one_pos t kept).mono (fun slope u => ?_) fun _ _ failed => failed.1
  rintro ⟨found, -⟩
  obtain rfl := flat slope found
  simp only [level, if_true, ensures_pure]
  exact rfl

theorem Secant.search_of_full {s : Secant ℝ} (h : line.Answers I Φ Ψ fun _ => False)
    (first : s.firstStep = 1) (positive : 0 < s.tolerance) (some : 0 < s.trials) (descent : startSlope < 0)
    (half : ∀ cost, Φ 1 cost → cost = startCost + startSlope / 2)
    (flat : ∀ slope, Ψ 1 slope → slope = 0) (hI : I st) :
    (s.search line startCost startSlope).Ensures st
      (fun step _ => step = ⟨1, startCost + startSlope / 2, 1⟩) fun _ _ => False := by
  obtain ⟨left, trials⟩ := Nat.exists_eq_succ_of_ne_zero some.ne'
  rw [search, first, trials, locate]
  simp only [ensures_bind]
  refine (h.slope 1 one_pos st hI).mono (fun slope t => ?_) fun _ _ failed => failed.1
  rintro ⟨found, kept⟩
  obtain rfl := flat slope found
  have settled : s.settles startSlope startSlope 0 = true := by
    have nonneg := mul_nonneg positive.le (abs_nonneg startSlope)
    simp [settles, nonneg]
  simp only [settled, if_true, ensures_pure]
  refine (h.cost 1 one_pos t kept).mono (fun cost u => ?_) fun _ _ failed => failed.1
  rintro ⟨answered, -⟩
  obtain rfl := half cost answered
  have once : left.succ - left = 1 := by omega
  rw [if_neg (by linarith), once]
  exact rfl

/-- **A full step is taken at once** where it lowers the cost by half of what the slope promises and leaves no
slope. -/
theorem Method.search_of_fullStep {m : Method ℝ} (full : m.TriesFullStep)
    (h : line.Answers I Φ Ψ fun _ => False) (descent : startSlope < 0)
    (half : ∀ cost, Φ 1 cost → cost = startCost + startSlope / 2)
    (flat : ∀ slope, Ψ 1 slope → slope = 0) (hI : I st) :
    (m.search line startCost startSlope).Ensures st
      (fun step _ => step = ⟨1, startCost + startSlope / 2, 1⟩) fun _ _ => False := by
  cases full with
  | backtracking made first modest some =>
    obtain ⟨sameStep, sameDecrease, trials⟩ := Backtracking.ofOptions_ok made some
    exact Backtracking.search_of_full h (sameStep.trans first) (sameDecrease ▸ modest) trials descent half hI
  | wolfe made first modest some =>
    obtain ⟨sameStep, sameDecrease, curvature, trials⟩ := Wolfe.ofOptions_ok made some
    exact Wolfe.search_of_full h (sameStep.trans first) (sameDecrease ▸ modest) curvature trials descent
      half flat hI
  | secant made first some =>
    obtain ⟨sameStep, tolerance, trials⟩ := Secant.ofOptions_ok made some
    exact Secant.search_of_full h (sameStep.trans first) tolerance trials descent half flat hI

end QuasiNewton
