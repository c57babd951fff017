import QuasiNewton.Proofs.LineSearch.FullStep
import QuasiNewton.Proofs.RankOne.OrderedRun

/-!
# The Newton step

A solver that is given the inverse of the matrix of a convex quadratic cost finds the minimizer in one step,
whatever the number of unknowns is and with each of the three searches, if the search tries a full step first:
`newton_step_ends_run` is the result. Along the direction of the step the cost is a parabola that ends flat after a
full step, so that the first trial is taken; the change of the gradient is what the matrix expects, so that
nothing is corrected; and there the gradient is zero, so that the run stops.
-/

set_option autoImplicit false

namespace QuasiNewton.RankOne

open Attempt Matrix Tensor
open QuasiNewton.Decimal (NumberText)

variable {σ : Type} {n : ℕ}

/-! ### Linear algebra -/

section Matrices

variable {A H : Matrix (Fin n) (Fin n) ℝ} (b : Fin n → ℝ)

/-- A full step from any vector leads to the vector at which the gradient is zero. -/
theorem full_step_eq (inverse : H * A = 1) (x : Fin n → ℝ) :
    x + (1 : ℝ) • -(H *ᵥ (A *ᵥ x - b)) = H *ᵥ b := by
  rw [one_smul, mulVec_sub, mulVec_mulVec, inverse, one_mulVec]
  abel

theorem gradient_minimizer (inverse : H * A = 1) : A *ᵥ (H *ᵥ b) - b = 0 := by
  rw [mulVec_mulVec, mul_eq_one_comm.mp inverse, one_mulVec, sub_self]

/-- There the cost is lowest. -/
theorem value_minimizer_le (hA : A.PosDef) (inverse : H * A = 1) (const : ℝ) (x : Fin n → ℝ) :
    Quadratic.value A b const (H *ᵥ b) ≤ Quadratic.value A b const x := by
  have symm : A.IsSymm := isHermitian_iff_isSymm.mp hA.isHermitian
  have nonneg := (posSemidef_iff_real.mp hA.posSemidef).2 (x - H *ᵥ b)
  have added := Quadratic.value_add A b const symm (H *ᵥ b) (x - H *ᵥ b)
  rw [gradient_minimizer b inverse, zero_dotProduct, add_sub_cancel] at added
  rw [added]
  linarith

/-- Along the direction of a full step the curvature is the size of the slope. -/
theorem curvature_full_step (inverse : H * A = 1) (g : Fin n → ℝ) :
    -(H *ᵥ g) ⬝ᵥ A *ᵥ -(H *ᵥ g) = -(g ⬝ᵥ -(H *ᵥ g)) := by
  rw [mulVec_neg, mulVec_mulVec, mul_eq_one_comm.mp inverse, one_mulVec]
  simp only [dotProduct_neg, neg_dotProduct, dotProduct_comm (H *ᵥ g)]

end Matrices

/-- A solver that holds the inverse of the matrix of a quadratic cost, with a search that tries a full step. -/
structure Setting.Exact (v : Setting n) (A H : Matrix (Fin n) (Fin n) ℝ) (b : Fin n → ℝ) (const : ℝ) :
    Prop where
  cost : v.cost = Quadratic.value A b const
  gradient : v.gradient = fun x => A *ᵥ x - b
  full : v.search.method.TriesFullStep
  symm : A.IsSymm
  inverse : H * A = 1

variable {v : Setting n} {A H : Matrix (Fin n) (Fin n) ℝ} {b : Fin n → ℝ} {const : ℝ} {p : Problem ℝ σ}

/-- Its first search takes the full step at once. -/
theorem Setting.Exact.search_ensures (e : v.Exact A H b const)
    (computes : p.Computes v.family v.cost v.gradient) {x : Fin n → ℝ}
    (descent : v.gradient x ⬝ᵥ -(H *ᵥ v.gradient x) < 0) {l : Ledger σ} (fits : l.Fits v.family) :
    (v.searchFrom p x H).Ensures l (fun found _ => found.alpha = 1 ∧ found.trials = 1)
      fun _ _ => False := by
  have curvature := curvature_full_step e.inverse (v.gradient x)
  have answers := computes.line_answers x (-(H *ᵥ v.gradient x))
  have gradient : A *ᵥ x - b = v.gradient x := by rw [e.gradient]
  rw [searchFrom, searchWith]
  refine (Method.search_of_fullStep e.full answers descent ?_ ?_ fits).mono (fun found t same => ?_)
    fun _ _ => id
  · rintro cost rfl
    rw [e.cost, Quadratic.value_ray A b const e.symm, curvature, gradient]
    ring
  · intro slope answered
    rw [answered, e.gradient]
    dsimp only
    rw [gradient, Quadratic.slope_ray, curvature, gradient]
    ring
  · rw [same]
    exact ⟨rfl, rfl⟩

/-- What the search of a step accepts is what its method has found along the direction of the step. -/
theorem Rests.search_of_searchOf {c : Checkpoint ℝ (RankOne ℝ) σ} {x : Fin n → ℝ} (h : Rests v c x H)
    {cost : ℝ} (known : c.run.state.cost? = some cost) {a : Accepted ℝ} {l l' : Ledger σ}
    (found : (c.run.work.solver.searchOf p c.run.state (ofVector v.family (v.gradient x))).outcome l =
      (.ok a, l')) :
    (v.searchWith p x H cost).outcome l = (.ok ⟨a.alpha, a.cost, a.trials⟩, l') := by
  simp only [searchOf, h.stores.direction_eq, ofOperands_of_ok, pure_bind, LineSearch.configure, h.point,
    known, h.search] at found
  obtain ⟨family, slope, own, product, -, searched, -⟩ := LineSearch.run_ok found
  obtain rfl := Except.ok.inj ((Family.ofTensor_ofVector _ _).symm.trans own)
  obtain rfl := Except.ok.inj ((Family.dot_ofVector _ _ _).symm.trans product)
  exact searched

section Run

variable [NumberText ℝ] {plan : Plan ℝ} {work : Workspace (RankOne ℝ) σ} {clock : Clock ℝ}

/-- After the step the run rests at the minimizer, with its matrix as it was and one correction skipped. -/
theorem Setting.Exact.advance (e : v.Exact A H b const)
    (computes : p.Computes v.family v.cost v.gradient) {k left : ℕ} {c c' : Checkpoint ℝ (RankOne ℝ) σ}
    {x : Fin n → ℝ} (h : Stands v k c x H) {r : RunState ℝ (RankOne ℝ) σ}
    (checked : plan.Checked solver left c.run .notTerminated r)
    (advanced : plan.Advanced solver p r c'.last c'.run) :
    Rests v c' (H *ᵥ b) H ∧ c'.last.point = ofVector v.family (H *ᵥ b) ∧
      c'.run.work.solver.updates = c.run.work.solver.updates ∧
      c'.run.work.solver.skips = c.run.work.solver.skips + 1 ∧
      ∃ a, nextSearch p c = some (.ok a) ∧ a.alpha = 1 ∧ a.trials = 1 := by
  obtain ⟨x₁, H₁, rests, -⟩ := h.rests.advance computes checked advanced
  obtain ⟨sameWork, sameState, -⟩ := checked_ok checked
  obtain ⟨w, stepped, same⟩ := advanced.step
  rw [sameState, sameWork] at stepped
  obtain ⟨found, after, correction, x', moved, descent, search, last, computed, solver, -⟩ :=
    h.rests.step_vectors computes h.cost stepped
  obtain ⟨full, -⟩ := (e.search_ensures computes descent h.fits).of_ok search
  have minimizer : x' = H *ᵥ b := by
    rw [moved, full, e.gradient]
    exact full_step_eq b e.inverse x
  have point : c'.last.point = ofVector v.family (H *ᵥ b) := by rw [last, minimizer]
  -- the matrix maps the change of the gradient to the step, so that nothing is to be corrected
  have change : v.gradient x' - v.gradient x = A *ᵥ (x' - x) := by
    rw [e.gradient, mulVec_sub]
    exact sub_sub_sub_cancel_right _ _ _
  have idle : residual H (x' - x) (v.gradient x' - v.gradient x) = 0 := by
    rw [residual, change, mulVec_mulVec, e.inverse, one_mulVec, sub_self]
  obtain ⟨size, threshold, skipped⟩ : ∃ size threshold, correction = .skipped size threshold := by
    rcases h.stores.correction_eq (x' - x) (v.gradient x' - v.gradient x) with
      ⟨size, threshold, skipped⟩ | ⟨large, -⟩
    · exact ⟨size, threshold, Except.ok.inj (computed.symm.trans skipped)⟩
    · exact absurd (by rw [idle, zero_dotProduct]) large
  have kept : c'.run.work.solver = { c.run.work.solver with skips := c.run.work.solver.skips + 1 } := by
    rw [same.solver, solver, skipped]
    rfl
  have sameMatrix : H₁ = H := by
    have stores : c'.run.work.solver.Stores v.family H := by
      rw [kept]
      exact ⟨h.stores.family_eq, h.stores.inverse_eq⟩
    exact rests.stores.unique stores
  have sameVector : x₁ = H *ᵥ b := by
    have current := rests.point
    rw [advanced.state] at current
    have equal := congrArg (toVector n) (current.symm.trans point)
    rwa [toVector_ofVector, toVector_ofVector] at equal
  subst sameMatrix sameVector
  refine ⟨rests, point, by rw [kept], by rw [kept], ?_⟩
  obtain ⟨g, a, searched, -, -, known, accepted, -⟩ := step_parts stepped
  obtain rfl := Option.some.inj (h.gradient.symm.trans known)
  refine ⟨a, ?_, (e.search_ensures computes descent h.fits).of_ok
    (h.rests.search_of_searchOf h.cost accepted)⟩
  rw [nextSearch, h.gradient, Option.map_some, accepted]

omit [NumberText ℝ] in
theorem make_ofMatrix (family : Family) (H : Matrix (Fin n) (Fin n) ℝ) (search : LineSearch ℝ)
    (tolerances : Tolerances ℝ) : make (ofMatrix family H) (some search) tolerances =
      .ok { family, inverse := ofMatrix family H, search, tolerances } := by
  have own : Family.ofTensor (ofMatrix family H) = .ok family := by cases family <;> rfl
  have copied : family.copy (ofMatrix family H) = .ok (ofMatrix family H) := by cases family <;> rfl
  exact make_of_copy own rfl copied search tolerances

/-- **The Newton step law.** For a positive definite matrix `A` and a vector `b` with any number of unknowns,
from any vector at which the gradient is not small, and with each of the searches that tries a full step first and
demands at most half of the promised decrease: a run of a solver that was made with the inverse of `A`, and that
may take a step and has no time limit, returns after one step. It has accepted the first trial, a full step, and
ends at the minimizer for the target precision. The matrix of the solver is what it was, since the one correction
was skipped. -/
theorem newton_step_ends_run {A : Matrix (Fin n) (Fin n) ℝ} (hA : A.PosDef) (b : Fin n → ℝ) (const : ℝ)
    {family : Family} (computes : p.Computes family (Quadratic.value A b const) fun x => A *ᵥ x - b)
    {options : RunOptions ℝ} (planned : Plan.ofOptions options = .ok plan) {x₀ : Fin n → ℝ}
    (start : options.start = ofVector family x₀) (permitted : 1 ≤ options.maxSteps)
    (unlimited : options.maxTime? = none) {search : LineSearch ℝ} (full : search.method.TriesFullStep)
    {tolerances : Tolerances ℝ} (checked : tolerances.check = .ok tolerances)
    (made : make (ofMatrix family A⁻¹) (some search) tolerances = .ok work.solver)
    (fresh : work.lifecycle.status = .notStarted) (fits : work.ledger.Fits family)
    (large : tolerances.gradient ≤ Real.sqrt ((A *ᵥ x₀ - b) ⬝ᵥ (A *ᵥ x₀ - b))) (clock : Clock ℝ) :
    (∀ x, Quadratic.value A b const (A⁻¹ *ᵥ b) ≤ Quadratic.value A b const x) ∧
      ∃ o w clock', plan.execute solver p work clock = (.ok o, w, clock') ∧ o.steps = 1 ∧
        o.point = ofVector family (A⁻¹ *ᵥ b) ∧ o.reason = .targetPrecision ∧
        w.solver.inverse = ofMatrix family A⁻¹ ∧ w.solver.updates = 0 ∧ w.solver.skips = 1 ∧
        ∃ c a, plan.checkpoint solver p work clock 0 = some c ∧ nextSearch p c = some (.ok a) ∧
          a.alpha = 1 ∧ a.trials = 1 := by
  have symm : A.IsSymm := isHermitian_iff_isSymm.mp hA.isHermitian
  have inverse : A⁻¹ * A = 1 := nonsing_inv_mul A ((isUnit_iff_isUnit_det A).mp hA.isUnit)
  refine ⟨value_minimizer_le b hA inverse const, ?_⟩
  have solved := Except.ok.inj ((make_ofMatrix family A⁻¹ search tolerances).symm.trans made)
  let v : Setting n := ⟨family, Quadratic.value A b const, fun x => A *ᵥ x - b, search, tolerances⟩
  have e : v.Exact A A⁻¹ b const := ⟨rfl, rfl, full, symm, inverse⟩
  obtain ⟨sameFamily, startsAt⟩ := ofOptions_start planned start
  obtain ⟨sameLimit, permits⟩ := ofOptions_limits planned
  have begins : Begins plan work v x₀ A⁻¹ := {
    start := startsAt
    stores := by rw [← solved]; exact ⟨rfl, rfl⟩
    search := by rw [← solved]
    tolerances := by rw [← solved]
    unused := by rw [← solved]
    fits := fits }
  have positive : 0 < v.tolerances.gradient := tolerances_pos checked
  -- the first check goes on
  obtain ⟨c, reached⟩ : ∃ c, plan.checkpoint solver p work clock 0 = some c :=
    begins.exists_checkpoint computes sameFamily fresh
  have prepared := Plan.checkpoint_zero reached
  have h : Stands v 0 c x₀ A⁻¹ := begins.stands computes prepared
  have first : c.run.work.solver = work.solver := by
    obtain ⟨w, w', before, started, after⟩ := prepared.init
    obtain ⟨-, -, -, -, -, -, kept, -⟩ := init_ok started
    exact after.solver.trans (kept.trans before.solver)
  have unknown : c.run.state.costChange = none := by
    rw [prepared.state]
    rfl
  have goesOn := h.rests.stopReason_of_large large unknown
  have descent := h.rests.descent hA.inv positive goesOn
  have falls : v.gradient x₀ ⬝ᵥ -(A⁻¹ *ᵥ v.gradient x₀) < 0 := by simpa using descent
  obtain ⟨c', reached'⟩ : ∃ c', plan.checkpoint solver p work clock 1 = some c' :=
    h.exists_checkpoint computes sameFamily reached (sameLimit.trans unlimited)
      (permits 1 (by exact_mod_cast permitted)) goesOn descent
      ((e.search_ensures computes falls h.fits).mono (fun _ _ _ => trivial) fun _ _ => id)
  obtain ⟨c₀, r, here, verdict, advanced⟩ := Plan.checkpoint_succ reached'
  obtain rfl := Option.some.inj (reached.symm.trans here)
  obtain ⟨rests, point, updates, skips, a, found, fullStep, once⟩ := e.advance computes h verdict advanced
  -- the second check stops, since the gradient is zero there
  have zero : v.gradient (A⁻¹ *ᵥ b) = 0 := gradient_minimizer b inverse
  obtain ⟨o, w, clock', returned, steps, last, reason, kept⟩ :=
    rests.execute_of_gradient_eq_zero reached' sameFamily positive zero
  refine ⟨o, w, clock', returned, steps, last.trans point, reason, ?_, ?_, ?_, c, a, reached, found,
    fullStep, once⟩
  · rw [kept, rests.stores.inverse_eq]
  · rw [kept, updates, first, ← solved]
  · rw [kept, skips, first, ← solved]

end Run

/-! ### A run with one trial -/

/-- The strictest search that takes a full step: half of the promised decrease, in one trial. -/
noncomputable def strictest : Backtracking ℝ := ⟨1, 0.5, 0.5, 1⟩

theorem strictest_made : Backtracking.ofOptions ⟨1, 0.5, 0.5, 1⟩ = .ok strictest := by
  have half : (0 : ℝ) < 0.5 := by norm_num
  have less : (0.5 : ℝ) < 1 := by norm_num
  have some : ¬ (1 : ℝ) ≤ 0 := not_le.mpr one_pos
  simp only [Backtracking.ofOptions, require, half, less, some, and_self, decide_true, decide_false,
    Bool.not_false, if_true, Exact.countOf_of_nonneg zero_le_one, Nat.floor_one, bind, Except.bind]
  rfl

/-- What a run works on that holds the inverse of twice the identity. -/
noncomputable def halvedWork : Workspace (RankOne ℝ) Unit :=
  freshWork .lenient (ofMatrix .lenient (1 + 1 : Matrix (Fin 2) (Fin 2) ℝ)⁻¹) (.backtracking strictest) ()

/-- For instance, from `(3, 4)` a run on the sum of `x² - x` and `y² - y` makes one step. -/
theorem sumOfSquares_one_step :
    ∃ o w clock', (Plan.short false).execute solver
        (Quadratic.ofMatrix (1 + 1) ![1, 1] 0).problem halvedWork .still = (.ok o, w, clock') ∧
      o.steps = 1 ∧ o.reason = .targetPrecision ∧ w.solver.skips = 1 := by
  have large : Scalar.rootEpsilon ≤ Real.sqrt (((1 + 1 : Matrix (Fin 2) (Fin 2) ℝ) *ᵥ ![3, 4] - ![1, 1]) ⬝ᵥ
      ((1 + 1 : Matrix (Fin 2) (Fin 2) ℝ) *ᵥ ![3, 4] - ![1, 1])) := by
    have small : (Scalar.rootEpsilon : ℝ) ≤ 1 := by norm_num [Scalar.rootEpsilon]
    have gradient : (1 + 1 : Matrix (Fin 2) (Fin 2) ℝ) *ᵥ ![3, 4] - ![1, 1] = ![5, 7] := by
      rw [add_mulVec, one_mulVec]
      ext i
      fin_cases i <;> norm_num
    rw [gradient]
    refine small.trans (Real.one_le_sqrt.mpr ?_)
    norm_num [dotProduct, Fin.sum_univ_two]
  have modest : (0.5 : ℝ) ≤ 1 / 2 := by norm_num
  have fits : halvedWork.ledger.Fits .lenient := Ledger.fits_of_eq rfl
  have made : make (ofMatrix .lenient (1 + 1 : Matrix (Fin 2) (Fin 2) ℝ)⁻¹)
      (some { method := .backtracking strictest }) {} = .ok halvedWork.solver := make_ofMatrix _ _ _ _
  obtain ⟨-, o, w, clock', returned, steps, -, reason, -, -, skips, -⟩ := newton_step_ends_run
    (PosDef.one.add PosDef.one) ![1, 1] 0 (Quadratic.problem_computes (1 + 1) ![1, 1] 0 .lenient)
    (Plan.short_planned false) rfl one_le_two rfl (.backtracking strictest_made rfl modest le_rfl)
    usual_tolerances made rfl fits large .still
  exact ⟨o, w, clock', returned, steps, reason, skips⟩

end QuasiNewton.RankOne
