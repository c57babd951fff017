import Mathlib.Algebra.Order.Star.Real
import QuasiNewton.Proofs.RankOne.LeastStep
import QuasiNewton.Proofs.RankOne.Newton
import QuasiNewton.Proofs.Run.Limits

/-!
# Termination on quadratic costs

What is true of exact steps is true of a run that makes them: `run_terminates_on_quadratic` is the result.
The number of steps is bounded by the number of unknowns, since the steps are linearly independent; and a
run that stops does so for success, since after that many steps the gradient is zero.
-/

set_option autoImplicit false

namespace QuasiNewton.RankOne

open Attempt Matrix Tensor
open QuasiNewton.Decimal (NumberText)

variable {σ : Type} {n : ℕ}

/-- The solver stops for reasons of its own only when it succeeds. -/
theorem stopReason_cases {α : Type} [Scalar α] {r : RankOne α} {state : IterState α} {reason : Reason}
    (h : r.stopReason state = .ok reason) : reason.converged = true ∨ reason.terminated = false := by
  simp only [stopReason, except_bind_ok] at h
  obtain ⟨norm, -, h⟩ := h
  split at h
  case isTrue =>
    obtain rfl := Except.ok.inj h
    exact .inl rfl
  case isFalse =>
    split at h
    case h_1 change _ =>
      split at h <;> obtain rfl := Except.ok.inj h
      · exact .inl rfl
      · exact .inr rfl
    case h_2 =>
      obtain rfl := Except.ok.inj h
      exact .inr rfl

theorem Stands.stopReason_of_gradient_eq_zero {v : Setting n} {k : ℕ} {c : Checkpoint ℝ (RankOne ℝ) σ}
    {x : Fin n → ℝ} {H : Matrix (Fin n) (Fin n) ℝ} (h : Stands v k c x H)
    (positive : 0 < v.tolerances.gradient) (zero : v.gradient x = 0) :
    c.run.work.solver.stopReason c.run.state = .ok .targetPrecision :=
  h.rests.stopReason_of_gradient_eq_zero positive zero

section Run

variable [NumberText ℝ] {plan : Plan ℝ} {p : Problem ℝ σ} {work : Workspace (RankOne ℝ) σ}

/-- A run ends at a check at which the gradient is zero. -/
theorem Rests.execute_of_gradient_eq_zero {clock : Clock ℝ} {v : Setting n} {k : ℕ}
    {c : Checkpoint ℝ (RankOne ℝ) σ} {x : Fin n → ℝ} {H : Matrix (Fin n) (Fin n) ℝ} (h : Rests v c x H)
    (reached : plan.checkpoint solver p work clock k = some c)
    (family : plan.family = v.family) (positive : 0 < v.tolerances.gradient) (zero : v.gradient x = 0) :
    ∃ o w clock', plan.execute solver p work clock = (.ok o, w, clock') ∧ o.steps = k ∧
      o.point = c.last.point ∧ o.reason = .targetPrecision ∧ w.solver = c.run.work.solver := by
  have decides : (plan.verdict solver clock.read.1 (plan.maxSteps - k)).Ensures c.run (fun _ _ => True)
      fun _ _ => False := Plan.verdict_ensures h.terminate_ensures _ _
  obtain ⟨reason, r, verdict, -⟩ := decides.exists_ok
  have checked := Plan.verdict_ok verdict
  obtain ⟨sameWork, sameState, -⟩ := checked_ok checked
  have target : reason = .targetPrecision := by
    obtain ⟨own, asked, decided⟩ := checked.decided
    obtain rfl := Except.ok.inj
      ((terminate_ok asked).1.symm.trans (h.stopReason_of_gradient_eq_zero positive zero))
    rcases decided with ⟨-, same⟩ | ⟨silent, -⟩
    · exact same
    · cases silent
  subst target
  have norm : ∃ gradient norm, c.last.gradient? = some gradient ∧ plan.family.norm gradient = .ok norm :=
    ⟨_, _, h.last, by rw [family, Family.norm_ofVector]⟩
  obtain ⟨o, r', closed, -⟩ := (Plan.closing_ensures norm .targetPrecision r).exists_ok
  obtain ⟨reason, reported⟩ := Plan.closing_ok closed
  refine ⟨o, r'.work, r'.clock, Plan.execute_of_stop reached verdict rfl closed, ?_, reported.point, reason,
    ?_⟩
  · rw [reported.steps, sameState, Plan.steps_of_checkpoint reached]
  · rw [reported.work.solver, sameWork]

/-- **Finite termination on quadratic costs.** For a positive definite matrix, from any start vector and
with any symmetric first matrix: if every search of the run ends where the slope along its direction is
zero, and every skipped correction had nothing to correct, then the run takes at most as many steps as
there are unknowns, and if it returns it has stopped for success. Its steps are pairwise conjugate, the
gradient is orthogonal to all earlier steps, and after as many corrections as unknowns the matrix is the
inverse. -/
theorem run_terminates_on_quadratic (clock : Clock ℝ) {A : Matrix (Fin n) (Fin n) ℝ} (hA : A.PosDef)
    (b : Fin n → ℝ) (const : ℝ) {family : Family}
    (computes : p.Computes family (Quadratic.value A b const) fun x => A *ᵥ x - b)
    {options : RunOptions ℝ} (planned : Plan.ofOptions options = .ok plan) {x₀ : Fin n → ℝ}
    (start : plan.start = ofVector family x₀) (enough : n ≤ options.maxSteps)
    (unlimited : options.maxTime? = none) {inverse : Tensor ℝ} {secant : Secant ℝ}
    (hs : secant.Admissible) {tolerances : Tolerances ℝ} (checked : tolerances.check = .ok tolerances)
    (made : make inverse (some { method := .secant secant }) tolerances = .ok work.solver)
    {H₀ : Matrix (Fin n) (Fin n) ℝ} (stores : work.solver.Stores family H₀) (hH : H₀.IsSymm)
    (fits : work.ledger.Fits family)
    (flat : ∀ k c c', plan.checkpoint solver p work clock k = some c →
      plan.checkpoint solver p work clock (k + 1) = some c' → EndsFlat c c')
    (idle : ∀ k c c', plan.checkpoint solver p work clock k = some c →
      plan.checkpoint solver p work clock (k + 1) = some c' → SkipsIdle c c') :
    (∀ k c, plan.checkpoint solver p work clock k = some c → k ≤ n) ∧
      ∀ o w clock', plan.execute solver p work clock = (.ok o, w, clock') →
        ∃ (N : ℕ) (x : ℕ → Fin n → ℝ), o.steps = N ∧ N ≤ n ∧ o.reason.converged = true ∧
          (∀ k ≤ N, ∃ c, plan.checkpoint solver p work clock k = some c ∧
            c.run.state.point = ofVector family (x k)) ∧
          (∀ i j, i < N → j < N → i ≠ j → (x (i + 1) - x i) ⬝ᵥ A *ᵥ (x (j + 1) - x j) = 0) ∧
          (∀ k ≤ N, ∀ j < k, (A *ᵥ x k - b) ⬝ᵥ (x (j + 1) - x j) = 0) ∧
          (w.solver.updates = n → ∃ H, w.solver.inverse = ofMatrix family H ∧ H * A = 1) := by
  have symm : A.IsSymm := isHermitian_iff_isSymm.mp hA.isHermitian
  obtain ⟨sameLimit, permits⟩ := ofOptions_limits planned
  obtain ⟨search, kept, unused⟩ := make_ok made
  let v : Setting n := ⟨family, Quadratic.value A b const, fun x => A *ᵥ x - b,
    { method := .secant secant }, tolerances⟩
  have begins : Begins plan work v x₀ H₀ := ⟨start, stores, search, kept, unused, fits⟩
  have exactly {N : ℕ} {c : Checkpoint ℝ (RankOne ℝ) σ}
      (reached : plan.checkpoint solver p work clock N = some c) :
      ExactSteps A b N (vectorAt n plan p work clock) (matrixAt n plan p work clock) :=
    exactSteps_of_checkpoint (v := v) rfl computes hs hH begins flat idle reached
  refine ⟨fun k c reached => (exactly reached).le_card hA, fun o w clock' returned => ?_⟩
  obtain ⟨N, c, r, reached, verdict, stops, reported⟩ := Plan.execute_ok returned
  have exact_ := exactly reached
  obtain ⟨x, H, stands⟩ := begins.exists_stands (v := v) computes hs reached
  have within : N ≤ n := exact_.le_card hA
  obtain ⟨sameWork, sameState, -⟩ := checked_ok verdict
  have sameSolver : w.solver = c.run.work.solver := by rw [reported.work.solver, sameWork]
  refine ⟨N, vectorAt n plan p work clock, by rw [reported.steps, sameState, stands.steps], within, ?_,
    fun k hk => ?_, fun i j hi hj ne => exact_.conjugate symm hi hj ne,
    fun k hk j hj => (exact_.reached symm hk).orthogonal j hj, fun full => ?_⟩
  · obtain ⟨own, asked, decided⟩ := verdict.decided
    have stopReason := (terminate_ok asked).1
    rcases decided with ⟨ended, same⟩ | ⟨open_, ⟨spent, -⟩ | ⟨-, ⟨late, -⟩ | goesOn⟩⟩
    · rw [same]
      rcases stopReason_cases stopReason with converged | open_
      · exact converged
      · exact absurd ended (by simp [open_])
    · -- with no step left the last step was one too many for the gradient not to be zero
      have full : N = n := le_antisymm within ((permits n enough).trans (by omega))
      have zero : v.gradient x = 0 := by
        have zero := exact_.gradient_eq_zero hA full
        rwa [(stands.at_eq reached).1] at zero
      have target := stands.stopReason_of_gradient_eq_zero (tolerances_pos checked) zero
      obtain rfl := Except.ok.inj (stopReason.symm.trans target)
      exact absurd open_ nofun
    · exact absurd (sameLimit.trans unlimited) late
    · exact absurd stops (by simp [goesOn, Reason.terminated])
  · obtain ⟨c', before⟩ := Plan.exists_checkpoint_of_le hk reached
    obtain ⟨x', H', stands'⟩ := begins.exists_stands (v := v) computes hs before
    exact ⟨c', before, (stands'.at_eq before).1 ▸ stands'.point⟩
  · have updates := stands.updates
    rw [sameSolver] at full ⊢
    exact ⟨H, stands.stores.inverse_eq, (stands.at_eq reached).2 ▸
      exact_.mul_eq_one hA (le_antisymm within (full ▸ updates))⟩

end Run

/-! ### A run of two steps -/

/-- A matrix that is different in the two directions. -/
noncomputable def unequal : Matrix (Fin 2) (Fin 2) ℝ := !![0.5, 0; 0, 1]

theorem unequal_posDef : unequal.PosDef := by
  have diagonal : unequal = diagonal ![0.5, 1] := by
    ext i j
    fin_cases i <;> fin_cases j <;> rfl
  rw [diagonal]
  exact PosDef.diagonal fun i => by fin_cases i <;> norm_num

/-- Half the identity. -/
noncomputable def halfIdentity : Matrix (Fin 2) (Fin 2) ℝ := !![0.5, 0; 0, 0.5]

/-- What the first correction makes of it. -/
noncomputable def nearer : Matrix (Fin 2) (Fin 2) ℝ := !![1.625, 0.375; 0.375, 0.625]

/-- The usual secant search on a quadratic cost with the unequal matrix, which is least at `(-9, 1)`. -/
noncomputable def unequalSetting : Setting 2 := ⟨.lenient, Quadratic.value unequal ![-4.5, 1] 0,
  fun x => unequal *ᵥ x - ![-4.5, 1], { method := .secant .usual }, {}⟩

theorem unequalSetting_convex : unequalSetting.Convex unequal ![-4.5, 1] 0 .usual :=
  ⟨unequal_posDef, rfl, rfl, rfl, Secant.usual_admissible, by norm_num [Secant.usual]⟩

theorem unequalSetting_gradient (x y : ℝ) : unequalSetting.gradient ![x, y] = ![0.5 * x + 4.5, y - 1] := by
  norm_num [unequalSetting, unequal, empty_eq, -mulVec_cons]

theorem first_step : LeastStep unequalSetting unequal .usual ![3, 4] halfIdentity ![-7, -1] := by
  apply LeastStep.of_vectors (g := ![6, 3]) (d := ![3, 3 / 2]) (s := ![-10, -5]) (y := ![-5, -5])
    (u := ![-15 / 2, -5 / 2]) <;>
  norm_num [unequalSetting_gradient, unequalSetting, unequal, halfIdentity, Secant.usual, empty_eq, -mulVec_cons]

theorem second_step : LeastStep unequalSetting unequal .usual ![-7, -1] nearer ![-9, 1] := by
  apply LeastStep.of_vectors (g := ![1, -2]) (d := ![7 / 8, -7 / 8]) (s := ![-2, 2]) (y := ![-1, 2])
    (u := ![-9 / 8, 9 / 8]) <;>
  norm_num [unequalSetting_gradient, unequalSetting, unequal, nearer, Secant.usual, empty_eq, -mulVec_cons]

theorem corrected_halfIdentity :
    corrected halfIdentity (![-7, -1] - ![3, 4]) (unequal *ᵥ (![-7, -1] - ![3, 4])) = nearer := by
  ext i j
  fin_cases i <;> fin_cases j <;>
    norm_num [corrected, residual, unequal, halfIdentity, nearer, vecMulVec, -mulVec_cons]

/-- What the run works on in the beginning. -/
noncomputable def unequalWork : Workspace (RankOne ℝ) Unit :=
  freshWork .lenient (ofMatrix .lenient halfIdentity) (.secant .usual) ()

/-- The problem of the run. -/
noncomputable def unequalProblem : Problem ℝ Unit := (Quadratic.ofMatrix unequal ![-4.5, 1] 0).problem

theorem unequalProblem_computes :
    unequalProblem.Computes unequalSetting.family unequalSetting.cost unequalSetting.gradient :=
  Quadratic.problem_computes unequal ![-4.5, 1] 0 .lenient

/-- From `(3, 4)` the run makes two steps to the least cost, with a correction after each. -/
theorem unequal_course :
    let check := (Plan.short false).checkpoint solver unequalProblem unequalWork .still
    ∃ c₀ c₁ c₂ H, check 0 = some c₀ ∧ check 1 = some c₁ ∧ check 2 = some c₂ ∧
      Stands unequalSetting 0 c₀ ![3, 4] halfIdentity ∧ Stands unequalSetting 1 c₁ ![-7, -1] nearer ∧
      Stands unequalSetting 2 c₂ ![-9, 1] H ∧ c₂.run.work.solver.updates = 2 ∧
      ∀ k c c', check k = some c → check (k + 1) = some c' → EndsFlat c c' ∧ SkipsIdle c c' := by
  intro check
  have computes := unequalProblem_computes
  have begins : Begins (Plan.short false) unequalWork unequalSetting ![3, 4] halfIdentity :=
    ⟨rfl, ⟨rfl, rfl⟩, rfl, rfl, rfl, Ledger.fits_of_eq rfl⟩
  have root : unequalSetting.tolerances.gradient ≤ 1 := by norm_num [unequalSetting, Scalar.rootEpsilon]
  obtain ⟨c₀, reached₀⟩ : ∃ c, check 0 = some c := begins.exists_checkpoint computes rfl rfl
  have prepared := Plan.checkpoint_zero reached₀
  have h₀ := begins.stands computes prepared
  have unknown : c₀.run.state.costChange = none := by
    rw [prepared.state]
    rfl
  have goesOn₀ := h₀.rests.stopReason_of_large
    (root.trans (Real.one_le_sqrt.mpr (by norm_num [unequalSetting_gradient]))) unknown
  obtain ⟨c₁, reached₁, h₁, updates₁, flat₁, idle₁⟩ :=
    h₀.least_step unequalSetting_convex computes rfl reached₀ rfl two_pos goesOn₀ first_step
  rw [corrected_halfIdentity] at h₁
  have goesOn₁ := h₀.stopReason_of_step h₁ reached₀ reached₁
    (root.trans (Real.one_le_sqrt.mpr (by norm_num [unequalSetting_gradient])))
    (by norm_num [unequalSetting, Quadratic.value, unequal, Scalar.epsilon, -mulVec_cons])
  obtain ⟨c₂, reached₂, h₂, updates₂, flat₂, idle₂⟩ :=
    h₁.least_step unequalSetting_convex computes rfl reached₁ rfl one_lt_two goesOn₁ second_step
  have unused : c₀.run.work.solver.updates = 0 := Nat.le_zero.mp h₀.updates
  refine ⟨c₀, c₁, c₂, _, reached₀, reached₁, reached₂, h₀, h₁, h₂, by omega, fun k c c' before after => ?_⟩
  -- no more than two steps are permitted
  have permitted : k + 1 ≤ 2 := Plan.le_maxSteps after
  obtain rfl | rfl : k = 0 ∨ k = 1 := by omega
  · obtain rfl := Option.some.inj (reached₀.symm.trans before)
    obtain rfl := Option.some.inj (reached₁.symm.trans after)
    exact ⟨flat₁, idle₁⟩
  · obtain rfl := Option.some.inj (reached₁.symm.trans before)
    obtain rfl := Option.some.inj (reached₂.symm.trans after)
    exact ⟨flat₂, idle₂⟩

/-- For instance, the run that starts at `(3, 4)` with half the identity returns after two steps. They are
conjugate, the gradient between them is orthogonal to the first one, and the solver has found the inverse. -/
theorem unequal_terminates :
    ∃ o w clock' H, (Plan.short false).execute solver unequalProblem unequalWork .still = (.ok o, w, clock') ∧
      o.steps = 2 ∧ o.reason.converged = true ∧
      (![-7, -1] - ![3, 4]) ⬝ᵥ unequal *ᵥ (![-9, 1] - ![-7, -1]) = 0 ∧
      (unequal *ᵥ ![-7, -1] - ![-4.5, 1]) ⬝ᵥ (![-7, -1] - ![3, 4]) = 0 ∧
      w.solver.inverse = ofMatrix .lenient H ∧ H * unequal = 1 := by
  obtain ⟨c₀, c₁, c₂, _, reached₀, reached₁, reached₂, h₀, h₁, h₂, updates, exactly⟩ := unequal_course
  have made : make (ofMatrix .lenient halfIdentity) (some { method := .secant .usual }) {} =
      .ok unequalWork.solver := rfl
  have symm : halfIdentity.IsSymm := by
    ext i j
    fin_cases i <;> fin_cases j <;> rfl
  obtain ⟨-, success⟩ := run_terminates_on_quadratic .still unequal_posDef ![-4.5, 1] 0
    unequalProblem_computes (Plan.short_planned false) rfl le_rfl rfl
    Secant.usual_admissible usual_tolerances made ⟨rfl, rfl⟩ symm (Ledger.fits_of_eq rfl)
    (fun k c c' before after => (exactly k c c' before after).1)
    fun k c c' before after => (exactly k c c' before after).2
  have zero : unequalSetting.gradient ![-9, 1] = 0 := by
    ext i
    fin_cases i <;> norm_num [unequalSetting_gradient]
  obtain ⟨o, w, clock', returned, two, -, -, kept⟩ :=
    h₂.rests.execute_of_gradient_eq_zero reached₂ rfl (tolerances_pos usual_tolerances) zero
  obtain ⟨N, x, same, -, converged, points, conjugate, orthogonal, inverse⟩ := success o w clock' returned
  obtain rfl : N = 2 := by omega
  have position {k : ℕ} {c : Checkpoint ℝ (RankOne ℝ) Unit} {y : Fin 2 → ℝ} {K : Matrix (Fin 2) (Fin 2) ℝ}
      (within : k ≤ 2) (stands : Stands unequalSetting k c y K)
      (reached : (Plan.short false).checkpoint solver unequalProblem unequalWork .still k = some c) :
      x k = y := by
    obtain ⟨c', reached', point⟩ := points k within
    obtain rfl := Option.some.inj (reached.symm.trans reached')
    exact stands.eq_of_point point
  have first := position (by omega) h₀ reached₀
  have second := position (by omega) h₁ reached₁
  have third := position (by omega) h₂ reached₂
  obtain ⟨H, held, inverse⟩ := inverse (kept ▸ updates)
  refine ⟨o, w, clock', H, returned, two, converged, ?_, ?_, held, inverse⟩
  · rw [← first, ← second, ← third]
    exact conjugate 0 1 two_pos one_lt_two zero_ne_one
  · rw [← first, ← second]
    exact orthogonal 1 one_le_two 0 one_pos

/-! ### A run of one step -/

/-- What a short run works on in the beginning: the solver holds the identity matrix. -/
noncomputable def shortWork : Workspace (RankOne ℝ) Unit :=
  freshWork .lenient (ofMatrix .lenient (1 : Matrix (Fin 2) (Fin 2) ℝ)) (.secant .usual) ()

/-- The short run returns. -/
theorem short_returns [NumberText ℝ] (history : Bool) : ∃ o w clock', (Plan.short history).execute solver
    Quadratic.halfSquare.problem shortWork .still = (.ok o, w, clock') := by
  let v : Setting 2 := ⟨.lenient, Quadratic.value 1 0 0, fun x => 1 *ᵥ x - 0,
    { method := .secant .usual }, {}⟩
  have newton : Newton v 1 0 0 .usual := ⟨rfl, rfl, rfl, Secant.usual_admissible, rfl⟩
  have begins : Begins (Plan.short history) shortWork v ![3, 4] 1 :=
    ⟨rfl, ⟨rfl, rfl⟩, rfl, rfl, rfl, Ledger.fits_of_eq rfl⟩
  exact newton.execute_returns isSymm_one PosDef.one (one_mul 1)
    (Quadratic.halfSquare_computes (σ := Unit) .lenient) begins rfl rfl (tolerances_pos usual_tolerances)

end QuasiNewton.RankOne
