import QuasiNewton.Proofs.Objective.Analytic
import QuasiNewton.Proofs.LineSearch.Budget
import QuasiNewton.Proofs.LineSearch.Descent
import QuasiNewton.Proofs.LineSearch.Start

/-!
# Secant searches on quadratic costs

Along a ray the slope of a quadratic cost is affine, so that the line through two of its values is zero where it is
itself zero: at the minimum if the cost is convex along the ray, and behind the start if it is concave. A secant
search that falls at the start therefore ends in one of three ways. Along a convex parabola it settles on the
first step length, or its second one is the minimum, where it settles or has no slope left to ask for
(`search_of_parabola`). Along a straight line the slope does not change, and the first step length is taken
(`search_of_straight`). Along a concave parabola the second step length would be negative, and the search fails
(`search_of_concave`).
-/

set_option autoImplicit false

namespace QuasiNewton

open Attempt Matrix Tensor

variable {σ : Type} {line : Line ℝ σ} {I : σ → Prop} {startCost startSlope : ℝ} {st : σ}

namespace Secant

/-- The parabola with a cost, a slope and a curvature at its start. -/
noncomputable def parabola (startCost startSlope curvature alpha : ℝ) : ℝ :=
  startCost + alpha * startSlope + 0.5 * (alpha ^ 2 * curvature)

theorem parabola_eq (startCost startSlope curvature alpha : ℝ) :
    parabola startCost startSlope curvature alpha =
      startCost + alpha * startSlope + alpha ^ 2 / 2 * curvature := by
  unfold parabola
  ring

theorem parabola_of_straight (startCost startSlope alpha : ℝ) :
    parabola startCost startSlope 0 alpha = startCost + alpha * startSlope := by
  rw [parabola, mul_zero, mul_zero, add_zero]

/-- A line with the costs and slopes of a parabola, which does not fail. -/
def Parabolic (line : Line ℝ σ) (I : σ → Prop) (startCost startSlope curvature : ℝ) : Prop :=
  line.Answers I (fun alpha cost => cost = parabola startCost startSlope curvature alpha)
    (fun alpha slope => slope = startSlope + alpha * curvature) fun _ => False

variable {s : Secant ℝ} {curvature : ℝ}

/-! ### The first two step lengths -/

/-- A search settles on the first step length where the slope is small, or where it does not change at all. -/
theorem settles_first_iff (hs : s.Admissible) :
    s.settles startSlope startSlope (startSlope + s.firstStep * curvature) = true ↔
      |startSlope + s.firstStep * curvature| ≤ s.tolerance * |startSlope| ∨ curvature = 0 := by
  simp only [settles, Exact.abs_eq, Bool.or_eq_true, decide_eq_true_eq, beq_iff_eq, add_eq_left,
    mul_eq_zero, hs.firstStep_pos.ne', false_or]

/-- Where the parabola is not straight the second step length is where its slope is zero. -/
theorem nextStep_of_parabola (curved : curvature ≠ 0) {alpha : ℝ} (positive : 0 < alpha) :
    nextStep 0 startSlope alpha (startSlope + alpha * curvature) = -startSlope / curvature := by
  have apart : alpha * curvature ≠ 0 := mul_ne_zero positive.ne' curved
  unfold nextStep
  rw [add_sub_cancel_left]
  field_simp
  ring

/-- After the first slope the secant method settles, is refused, or goes ahead to where the slope is zero. -/
theorem locate_first (h : Parabolic line I startCost startSlope curvature) (hs : s.Admissible)
    {P : ℝ × ℕ → σ → Prop} {E : Fault ℝ → σ → Prop}
    (settled : (|startSlope + s.firstStep * curvature| ≤ s.tolerance * |startSlope| ∨ curvature = 0) →
      ∀ t, I t → P (s.firstStep, s.trials - 1) t)
    (refused : curvature ≠ 0 → -startSlope / curvature ≤ 0 →
      ∀ t, I t → E (.search (.secantLeft (-startSlope / curvature))) t)
    (ahead : curvature ≠ 0 → 0 < -startSlope / curvature → ∀ t, I t →
      (s.locate line startSlope (s.trials - 1) s.firstStep (startSlope + s.firstStep * curvature)
        (-startSlope / curvature)).Ensures t P E) (hI : I st) :
    (s.locate line startSlope s.trials 0 startSlope s.firstStep).Ensures st P E := by
  obtain ⟨left, trials⟩ := Nat.exists_eq_succ_of_ne_zero hs.trials_pos.ne'
  have rest : s.trials - 1 = left := by omega
  rw [trials, locate, ensures_bind, ← rest]
  refine (h.slope s.firstStep hs.firstStep_pos st hI).mono (fun slope t => ?_)
    fun _ _ failed => failed.1.elim
  rintro ⟨rfl, kept⟩
  by_cases settles : s.settles startSlope startSlope (startSlope + s.firstStep * curvature) = true
  · simp only [settles, if_true, ensures_pure]
    exact settled ((settles_first_iff hs).mp settles) t kept
  · obtain ⟨-, curved⟩ := not_or.mp (mt (settles_first_iff hs).mpr settles)
    rw [if_neg settles]
    simp only [nextStep_of_parabola curved hs.firstStep_pos, Exact.isFinite_eq, Bool.not_true,
      Bool.false_or, decide_eq_true_eq]
    split
    case isTrue behind => exact refused curved behind t kept
    case isFalse positive => exact ahead curved (not_le.mp positive) t kept

/-- Where the slope is zero the secant method settles, with one more slope if any are left. -/
theorem locate_of_flat (h : Parabolic line I startCost startSlope curvature) (hs : s.Admissible) {alpha : ℝ}
    (positive : 0 < alpha) (flat : startSlope + alpha * curvature = 0) (left : ℕ) (before slopeBefore : ℝ)
    (hI : I st) :
    (s.locate line startSlope left before slopeBefore alpha).Ensures st
      (fun found t => I t ∧ found.1 = alpha ∧ left ≤ found.2 + 1) fun _ _ => False := by
  cases left with
  | zero => exact ⟨hI, rfl, Nat.zero_le _⟩
  | succ left =>
    simp only [locate, ensures_bind]
    refine (h.slope alpha positive st hI).mono (fun slope t => ?_) fun _ _ failed => failed.1
    rintro ⟨answered, kept⟩
    have zero : slope = 0 := answered.trans flat
    have settled : s.settles startSlope slopeBefore slope = true := by
      have nonneg := mul_nonneg hs.tolerance_pos.le (abs_nonneg startSlope)
      simp [settles, zero, nonneg]
    simp only [settled, if_true, ensures_pure]
    exact ⟨kept, trivial, le_rfl⟩

/-! ### Ends of a search -/

/-- Where a search ends on a convex parabola, and after how many slopes: on the first step length, where the slope
is small, or on the one where the slope is zero. -/
inductive EndsAt (s : Secant ℝ) (startSlope curvature : ℝ) : ℝ → ℕ → Prop
  | first (small : |startSlope + s.firstStep * curvature| ≤ s.tolerance * |startSlope|) :
      EndsAt s startSlope curvature s.firstStep 1
  | minimum {trials : ℕ} (few : trials ≤ 2) : EndsAt s startSlope curvature (-startSlope / curvature) trials

/-- A slope that is small compared with that of the start has not risen higher than that has fallen. -/
theorem rise_le_of_small (small : s.tolerance ≤ 1) (descent : startSlope < 0) {slope : ℝ}
    (settled : |slope| ≤ s.tolerance * |startSlope|) : |slope| ≤ -startSlope :=
  calc |slope| ≤ s.tolerance * |startSlope| := settled
    _ ≤ 1 * |startSlope| := by gcongr
    _ = -startSlope := by rw [one_mul, abs_of_neg descent]

namespace EndsAt

variable {alpha : ℝ} {trials : ℕ}

theorem positive (h : EndsAt s startSlope curvature alpha trials) (hs : s.Admissible) (convex : 0 < curvature)
    (descent : startSlope < 0) : 0 < alpha := by
  cases h with
  | first => exact hs.firstStep_pos
  | minimum => exact div_pos (neg_pos.mpr descent) convex

/-- At neither end is the parabola higher than at the start. -/
theorem cost_le (h : EndsAt s startSlope curvature alpha trials) (hs : s.Admissible) (small : s.tolerance ≤ 1)
    (convex : 0 < curvature) (descent : startSlope < 0) :
    parabola startCost startSlope curvature alpha ≤ startCost := by
  rw [parabola_eq]
  cases h with
  | first settled =>
    have risen : startSlope + s.firstStep * curvature ≤ -startSlope :=
      (le_abs_self _).trans (rise_le_of_small small descent settled)
    have gained : s.firstStep * (2 * startSlope + s.firstStep * curvature) ≤ 0 :=
      mul_nonpos_of_nonneg_of_nonpos hs.firstStep_pos.le (by linarith)
    linarith
  | minimum =>
    have least : -startSlope / curvature * startSlope + (-startSlope / curvature) ^ 2 / 2 * curvature =
        -(startSlope ^ 2 / (2 * curvature)) := by
      field_simp
      ring
    have gained : 0 ≤ startSlope ^ 2 / (2 * curvature) := by positivity
    linarith

theorem trials_le (h : EndsAt s startSlope curvature alpha trials) : trials ≤ 2 := by
  cases h with
  | first => exact one_le_two
  | minimum few => exact few

end EndsAt

/-- A search that locates a step length where the cost is not higher ends there. -/
theorem search_of_located (h : Parabolic line I startCost startSlope curvature) {Q : ℝ → ℕ → Prop}
    (located : (s.locate line startSlope s.trials 0 startSlope s.firstStep).Ensures st
      (fun found t => I t ∧ Q found.1 (s.trials - found.2)) fun _ _ => False)
    (positive : ∀ alpha trials, Q alpha trials → 0 < alpha)
    (low : ∀ alpha trials, Q alpha trials →
      parabola startCost startSlope curvature alpha ≤ startCost) :
    (s.search line startCost startSlope).Ensures st (fun step t => I t ∧ Q step.alpha step.trials ∧
      step.cost = parabola startCost startSlope curvature step.alpha)
      fun _ _ => False := by
  simp only [search, ensures_bind]
  refine located.mono (fun found t => ?_) fun _ _ => id
  rintro ⟨kept, ends⟩
  refine (h.cost found.1 (positive _ _ ends) t kept).mono (fun cost u => ?_) fun _ _ failed => failed.1
  rintro ⟨rfl, kept⟩
  rw [if_neg (not_lt.mpr (low _ _ ends))]
  exact ⟨kept, ends, rfl⟩

/-- On a convex parabola the search ends, at one of the two step lengths. -/
theorem search_of_parabola (h : Parabolic line I startCost startSlope curvature) (hs : s.Admissible)
    (small : s.tolerance ≤ 1) (convex : 0 < curvature) (descent : startSlope < 0) (hI : I st) :
    (s.search line startCost startSlope).Ensures st
      (fun step t => I t ∧ EndsAt s startSlope curvature step.alpha step.trials ∧
        step.cost = parabola startCost startSlope curvature step.alpha)
      fun _ _ => False := by
  have positive : 0 < -startSlope / curvature := div_pos (neg_pos.mpr descent) convex
  have flat : startSlope + -startSlope / curvature * curvature = 0 := by
    rw [div_mul_cancel₀ _ convex.ne', add_neg_cancel]
  refine search_of_located h (locate_first h hs ?_ ?_ ?_ hI) (fun _ _ ends => ends.positive hs convex descent)
    fun _ _ ends => ends.cost_le hs small convex descent
  · intro settled t kept
    have one : s.trials - (s.trials - 1) = 1 := Nat.sub_sub_self hs.trials_pos
    exact ⟨kept, one.symm ▸ .first (settled.resolve_right convex.ne')⟩
  · exact fun _ behind => absurd positive (not_lt.mpr behind)
  · intro _ _ t kept
    refine (locate_of_flat h hs positive flat _ _ _ kept).mono (fun found u => ?_) fun _ _ => id
    rintro ⟨kept, same, most⟩
    exact ⟨kept, same.symm ▸ .minimum (by omega)⟩

/-- Along a straight line the slope stays the same, and the first step length is taken. -/
theorem search_of_straight (h : Parabolic line I startCost startSlope 0) (hs : s.Admissible)
    (descent : startSlope < 0) (hI : I st) :
    (s.search line startCost startSlope).Ensures st
      (fun step t => I t ∧ step.alpha = s.firstStep ∧ step.cost = startCost + step.alpha * startSlope)
      fun _ _ => False := by
  refine (search_of_located (Q := fun alpha _ => alpha = s.firstStep) h
    (locate_first h hs (fun _ t kept => ⟨kept, rfl⟩) (fun curved => absurd rfl curved)
      (fun curved => absurd rfl curved) hI) ?_ ?_).mono (fun step t => ?_) fun _ _ => id
  · rintro _ _ rfl
    exact hs.firstStep_pos
  · rintro _ _ rfl
    rw [parabola_of_straight, add_le_iff_nonpos_right]
    exact (mul_neg_of_pos_of_neg hs.firstStep_pos descent).le
  · rintro ⟨kept, same, cost⟩
    exact ⟨kept, same, cost.trans (parabola_of_straight _ _ _)⟩

/-- Along a concave parabola the slope falls, and the second step length would lie behind the start. -/
theorem search_of_concave (h : Parabolic line I startCost startSlope curvature) (hs : s.Admissible)
    (small : s.tolerance ≤ 1) (concave : curvature < 0) (descent : startSlope < 0) (hI : I st) :
    (s.search line startCost startSlope).Ensures st (fun _ _ => False)
      fun e _ => e = .search (.secantLeft (-startSlope / curvature)) := by
  have behind : -startSlope / curvature ≤ 0 :=
    div_nonpos_of_nonneg_of_nonpos (neg_pos.mpr descent).le concave.le
  simp only [search, ensures_bind]
  refine locate_first h hs (fun settled => ?_) (fun _ _ _ _ => rfl)
    (fun _ ahead => absurd ahead (not_lt.mpr behind)) hI
  rcases settled with settled | straight
  · have fallen := mul_neg_of_pos_of_neg hs.firstStep_pos concave
    have steep := (neg_le_abs _).trans (rise_le_of_small small descent settled)
    exact absurd steep (by linarith)
  · exact absurd straight concave.ne

/-! ### Quadratic costs -/

section Quadratic

variable {n : ℕ} {p : Problem ℝ σ} {family : Family} {A : Matrix (Fin n) (Fin n) ℝ} {b : Fin n → ℝ} {const : ℝ}

theorem value_ray_eq_parabola (symm : A.IsSymm) (x d : Fin n → ℝ) (alpha : ℝ) :
    Quadratic.value A b const (x + alpha • d) =
      parabola (Quadratic.value A b const x) ((A *ᵥ x - b) ⬝ᵥ d) (d ⬝ᵥ A *ᵥ d) alpha :=
  (Quadratic.value_ray A b const symm x d alpha).trans (parabola_eq _ _ _ _).symm

/-- Along a ray a problem that computes a quadratic cost answers a parabola. -/
theorem parabolic_ray (symm : A.IsSymm)
    (computes : p.Computes family (Quadratic.value A b const) fun x => A *ᵥ x - b) (x d : Fin n → ℝ) :
    Parabolic (p.line family (ofVector family x) (ofVector family d)) (fun l => l.Fits family)
      (Quadratic.value A b const x) ((A *ᵥ x - b) ⬝ᵥ d) (d ⬝ᵥ A *ᵥ d) := by
  have answers := computes.line_answers x d
  simp only [value_ray_eq_parabola symm, Quadratic.slope_ray] at answers
  exact answers

/-- A secant search from a point of a quadratic cost that is told the cost and the gradient there. -/
noncomputable def ofQuadratic (s : Secant ℝ) (family : Family) (A : Matrix (Fin n) (Fin n) ℝ)
    (b : Fin n → ℝ) (const : ℝ) (x d : Fin n → ℝ) : LineSearch ℝ :=
  LineSearch.configure { method := .secant s } ⟨some (ofVector family x), some (ofVector family (A *ᵥ x - b)),
    some (Quadratic.value A b const x), some (ofVector family d)⟩

section Ends

variable (symm : A.IsSymm) (computes : p.Computes family (Quadratic.value A b const) fun x => A *ᵥ x - b)
  {x d : Fin n → ℝ} (descent : (A *ᵥ x - b) ⬝ᵥ d < 0) (hs : s.Admissible) (small : s.tolerance ≤ 1)
  {ledger : Ledger σ} (fits : ledger.Fits family)

include symm computes descent hs small fits

theorem run_of_convex (convex : 0 < d ⬝ᵥ A *ᵥ d) :
    ((s.ofQuadratic family A b const x d).run p).Ensures ledger
      (fun found after => after.gradientCalls ≤ ledger.gradientCalls + 2 ∧ ∃ alpha trials,
        found = ⟨ofVector family (x + alpha • d), Quadratic.value A b const (x + alpha • d), alpha, trials⟩ ∧
        EndsAt s ((A *ᵥ x - b) ⬝ᵥ d) (d ⬝ᵥ A *ᵥ d) alpha trials) fun _ _ => False := by
  have analytic : p.gradient?.isSome = true :=
    Option.isSome_iff_exists.mpr (computes.gradient.imp fun _ own => own.1)
  have metered := Problem.line_metered analytic family (ofVector family x) (ofVector family d)
  have searched := (search_of_parabola (parabolic_ray symm computes x d) hs small convex descent fits).and
    (Method.search_spends (.secant s) (lt_irrefl 0) metered (Exact.isFinite_eq _))
  refine LineSearch.run_ensures_of_descent (.secant s) descent
    (searched.mono (fun step after both => ?_) fun _ _ => And.left)
  obtain ⟨⟨-, ends, cost⟩, -, -, steep, -, asked, -, trials, -⟩ := both
  have few := ends.trials_le
  refine ⟨by omega, step.alpha, step.trials, ?_, ends⟩
  rw [cost, value_ray_eq_parabola symm]

omit small in
theorem run_of_straight (straight : d ⬝ᵥ A *ᵥ d = 0) :
    ((s.ofQuadratic family A b const x d).run p).Ensures ledger
      (fun found _ => ∃ trials, found = ⟨ofVector family (x + s.firstStep • d),
        Quadratic.value A b const (x + s.firstStep • d), s.firstStep, trials⟩) fun _ _ => False := by
  have parabolic := parabolic_ray symm computes x d
  rw [straight] at parabolic
  refine LineSearch.run_ensures_of_descent (.secant s) descent
    ((search_of_straight parabolic hs descent fits).mono (fun step after ends => ?_) fun _ _ => id)
  obtain ⟨-, first, cost⟩ := ends
  refine ⟨step.trials, ?_⟩
  rw [cost, first, value_ray_eq_parabola symm, straight, parabola_of_straight]

theorem run_of_concave (concave : d ⬝ᵥ A *ᵥ d < 0) :
    ((s.ofQuadratic family A b const x d).run p).Ensures ledger (fun _ _ => False)
      fun e _ => e = .search (.secantLeft (-((A *ᵥ x - b) ⬝ᵥ d) / (d ⬝ᵥ A *ᵥ d))) :=
  LineSearch.run_ensures_of_descent (.secant s) descent
    (search_of_concave (parabolic_ray symm computes x d) hs small concave descent fits)

end Ends

/-- **The curvature along the ray decides how a secant search ends.** From a point of a quadratic cost, along a
direction of descent and with a tolerance of at most one, the search ends after at most two gradients where the
cost is convex, on the first step length with a small slope or on the one with slope zero; it takes the first step
length where the cost is straight, and fails where it is concave. -/
theorem run_follows_curvature (symm : A.IsSymm)
    (computes : p.Computes family (Quadratic.value A b const) fun x => A *ᵥ x - b) {x d : Fin n → ℝ}
    (descent : (A *ᵥ x - b) ⬝ᵥ d < 0) (hs : s.Admissible) (small : s.tolerance ≤ 1) {ledger : Ledger σ}
    (fits : ledger.Fits family) :
    let cost := fun alpha : ℝ => Quadratic.value A b const (x + alpha • d)
    let slope := fun alpha : ℝ => (A *ᵥ (x + alpha • d) - b) ⬝ᵥ d
    let startSlope := (A *ᵥ x - b) ⬝ᵥ d
    let curvature := d ⬝ᵥ A *ᵥ d
    let run := ((s.ofQuadratic family A b const x d).run p).outcome ledger
    (0 < curvature → ∃ alpha trials after,
      run = (.ok ⟨ofVector family (x + alpha • d), cost alpha, alpha, trials⟩, after) ∧
      after.gradientCalls ≤ ledger.gradientCalls + 2 ∧
      (alpha = s.firstStep ∧ |slope alpha| ≤ s.tolerance * |startSlope| ∨
        alpha = -startSlope / curvature ∧ slope alpha = 0)) ∧
    (curvature = 0 → ∃ trials after,
      run = (.ok ⟨ofVector family (x + s.firstStep • d), cost s.firstStep, s.firstStep, trials⟩, after) ∧
      cost s.firstStep < Quadratic.value A b const x) ∧
    (curvature < 0 → ∃ after, run = (.error (.search (.secantLeft (-startSlope / curvature))), after)) := by
  intro cost slope startSlope curvature run
  refine ⟨fun convex => ?_, fun straight => ?_, fun concave => ?_⟩
  · obtain ⟨_, after, ran, few, alpha, trials, rfl, ends⟩ :=
      (run_of_convex symm computes descent hs small fits convex).exists_ok
    refine ⟨alpha, trials, after, ran, few, ?_⟩
    have there : slope alpha = startSlope + alpha * curvature := Quadratic.slope_ray A b x d alpha
    rw [there]
    cases ends with
    | first settled => exact .inl ⟨rfl, settled⟩
    | minimum =>
      refine .inr ⟨rfl, ?_⟩
      rw [div_mul_cancel₀ _ convex.ne', add_neg_cancel]
  · obtain ⟨_, after, ran, trials, rfl⟩ := (run_of_straight symm computes descent hs fits straight).exists_ok
    refine ⟨trials, after, ran, ?_⟩
    have there : cost s.firstStep = parabola (Quadratic.value A b const x) startSlope curvature s.firstStep :=
      value_ray_eq_parabola symm x d s.firstStep
    rw [there, straight, parabola_of_straight]
    exact add_lt_of_neg_right _ (mul_neg_of_pos_of_neg hs.firstStep_pos descent)
  · obtain ⟨_, after, ran, rfl⟩ :=
      (run_of_concave symm computes descent hs small fits concave).exists_error
    exact ⟨after, ran⟩

/-- For instance, on half the square of the length the usual search from `(3, 4)` against the first axis leaves its
first step length for the one that leads to the second axis. -/
theorem halfSquare_follows_curvature :
    ∃ trials after, ((usual.ofQuadratic .lenient 1 0 0 ![3, 4] ![-1, 0]).run
        Quadratic.halfSquare.problem).outcome (.fresh none ()) =
      (.ok ⟨ofVector .lenient ![0, 4], 8, 3, trials⟩, after) ∧ after.gradientCalls ≤ 2 := by
  let x : Fin 2 → ℝ := ![3, 4]
  let d : Fin 2 → ℝ := ![-1, 0]
  have curvature : d ⬝ᵥ (1 : Matrix (Fin 2) (Fin 2) ℝ) *ᵥ d = 1 := by
    norm_num [d, dotProduct, Fin.sum_univ_two]
  have startSlope : ((1 : Matrix (Fin 2) (Fin 2) ℝ) *ᵥ x - 0) ⬝ᵥ d = -3 := by
    norm_num [x, d, dotProduct, Fin.sum_univ_two]
  have descent : ((1 : Matrix (Fin 2) (Fin 2) ℝ) *ᵥ x - 0) ⬝ᵥ d < 0 := by
    rw [startSlope]
    norm_num
  have fits : (Ledger.fresh none ()).Fits .lenient := nofun
  obtain ⟨convex, -⟩ := run_follows_curvature isSymm_one (Quadratic.halfSquare_computes .lenient) descent
    usual_admissible (by norm_num [usual]) fits
  obtain ⟨alpha, trials, after, ran, few, ends⟩ := convex (by rw [curvature]; norm_num)
  dsimp only at ran ends
  have least : alpha = 3 := by
    rcases ends with ⟨rfl, settled⟩ | ⟨rfl, -⟩
    · rw [Quadratic.slope_ray, startSlope, curvature] at settled
      norm_num [usual] at settled
    · rw [startSlope, curvature]
      norm_num
  have reached : x + (3 : ℝ) • d = ![0, 4] := by
    ext i
    fin_cases i <;> norm_num [x, d]
  have cost : Quadratic.value 1 0 0 ![0, 4] = 8 := by
    norm_num [Quadratic.value, dotProduct, Fin.sum_univ_two]
  subst least
  rw [reached, cost] at ran
  exact ⟨trials, after, ran, few⟩

end Quadratic

end Secant

end QuasiNewton
