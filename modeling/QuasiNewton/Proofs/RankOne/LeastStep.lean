import QuasiNewton.Proofs.LineSearch.SecantSearch
import QuasiNewton.Proofs.RankOne.ExactRun
import QuasiNewton.Proofs.RankOne.Progress
import QuasiNewton.Proofs.Run.Iterates

/-!
# Steps to the least cost

On a convex quadratic cost a secant search finds a step along every direction of descent
(`Setting.Convex.search_ensures`). Unless the slope at its first step length is small, it is the step to the least
cost along the direction. `LeastStep` says this in terms of vectors, and that the correction after the step passes
the guard. From a check at which a run goes on such a step leads to the next check (`Stands.least_step`).
-/

set_option autoImplicit false

namespace QuasiNewton.RankOne

open Attempt Matrix Tensor
open QuasiNewton.Decimal (NumberText)

variable {σ : Type} {n : ℕ} {v : Setting n} {A H : Matrix (Fin n) (Fin n) ℝ} {b : Fin n → ℝ} {const : ℝ}
  {secant : Secant ℝ} {x x' : Fin n → ℝ} {p : Problem ℝ σ}

/-! ### The search -/

/-- A secant search that is not too lax, on a convex quadratic cost. -/
structure Setting.Convex (v : Setting n) (A : Matrix (Fin n) (Fin n) ℝ) (b : Fin n → ℝ) (const : ℝ)
    (secant : Secant ℝ) : Prop where
  definite : A.PosDef
  cost : v.cost = Quadratic.value A b const
  gradient : v.gradient = fun x => A *ᵥ x - b
  method : v.search.method = .secant secant
  admissible : secant.Admissible
  small : secant.tolerance ≤ 1

namespace Setting.Convex

theorem method_admissible (q : v.Convex A b const secant) : v.search.method.Admissible :=
  q.method ▸ q.admissible

/-- Along the direction of a step the cost is curved. -/
theorem curvature_pos (q : v.Convex A b const secant) (descent : 0 < v.gradient x ⬝ᵥ H *ᵥ v.gradient x) :
    0 < H *ᵥ v.gradient x ⬝ᵥ A *ᵥ (H *ᵥ v.gradient x) := by
  have moves : H *ᵥ v.gradient x ≠ 0 := by
    intro stays
    rw [stays, dotProduct_zero] at descent
    exact lt_irrefl 0 descent
  exact q.definite.dotProduct_mulVec_pos moves

/-- Along every direction of descent the search finds a step. -/
theorem search_ensures (q : v.Convex A b const secant) (computes : p.Computes v.family v.cost v.gradient)
    (descent : 0 < v.gradient x ⬝ᵥ H *ᵥ v.gradient x) {ledger : Ledger σ} (fits : ledger.Fits v.family) :
    (v.searchFrom p x H).Ensures ledger
      (fun step _ => secant.EndsAt (-(v.gradient x ⬝ᵥ H *ᵥ v.gradient x))
        (H *ᵥ v.gradient x ⬝ᵥ A *ᵥ (H *ᵥ v.gradient x)) step.alpha step.trials) fun _ _ => False := by
  have symm : A.IsSymm := isHermitian_iff_isSymm.mp q.definite.isHermitian
  have curved := q.curvature_pos descent
  rw [q.cost, q.gradient] at computes
  have parabolic := Secant.parabolic_ray symm computes x (-(H *ᵥ v.gradient x))
  rw [Setting.searchFrom, Setting.searchWith, q.method, dotProduct_neg]
  generalize directed : H *ᵥ v.gradient x = d at descent curved parabolic ⊢
  rw [q.gradient] at descent
  simp only [q.cost, q.gradient]
  simp only [mulVec_neg, dotProduct_neg, neg_dotProduct, neg_neg] at parabolic
  exact (Secant.search_of_parabola parabolic q.admissible q.small curved (neg_lt_zero.mpr descent) fits).mono
    (fun _ _ found => found.2.1) fun _ _ => id

end Setting.Convex

/-! ### The step -/

/-- From the vector `x` with the matrix `H` the search leaves its first step length for the one that leads to `x'`,
where the cost is least along the direction, and the correction then passes the guard. -/
structure LeastStep (v : Setting n) (A : Matrix (Fin n) (Fin n) ℝ) (secant : Secant ℝ) (x : Fin n → ℝ)
    (H : Matrix (Fin n) (Fin n) ℝ) (x' : Fin n → ℝ) : Prop where
  descent : 0 < v.gradient x ⬝ᵥ H *ᵥ v.gradient x
  steep : secant.tolerance * (v.gradient x ⬝ᵥ H *ᵥ v.gradient x) <
    |secant.firstStep * (H *ᵥ v.gradient x ⬝ᵥ A *ᵥ (H *ᵥ v.gradient x)) - v.gradient x ⬝ᵥ H *ᵥ v.gradient x|
  moved : x' = x - (v.gradient x ⬝ᵥ H *ᵥ v.gradient x / H *ᵥ v.gradient x ⬝ᵥ A *ᵥ (H *ᵥ v.gradient x)) •
    H *ᵥ v.gradient x
  nonzero : residual H (x' - x) (A *ᵥ (x' - x)) ⬝ᵥ A *ᵥ (x' - x) ≠ 0
  passes : v.tolerances.denominator * ((x' - x) ⬝ᵥ (x' - x)) *
      (residual H (x' - x) (A *ᵥ (x' - x)) ⬝ᵥ residual H (x' - x) (A *ᵥ (x' - x))) ≤
    |residual H (x' - x) (A *ᵥ (x' - x)) ⬝ᵥ A *ᵥ (x' - x)|

namespace LeastStep

/-- A step to the least cost, from the vectors that are computed for it. -/
theorem of_vectors {g d s y u : Fin n → ℝ} (gradient : v.gradient x = g) (direction : H *ᵥ g = d)
    (step : x' - x = s) (change : A *ᵥ s = y) (missed : s - H *ᵥ y = u) (descent : 0 < g ⬝ᵥ d)
    (steep : secant.tolerance * (g ⬝ᵥ d) < |secant.firstStep * (d ⬝ᵥ A *ᵥ d) - g ⬝ᵥ d|)
    (moved : s = -(g ⬝ᵥ d / d ⬝ᵥ A *ᵥ d) • d) (nonzero : u ⬝ᵥ y ≠ 0)
    (passes : v.tolerances.denominator * (s ⬝ᵥ s) * (u ⬝ᵥ u) ≤ |u ⬝ᵥ y|) :
    LeastStep v A secant x H x' := by
  subst gradient direction step change missed
  refine ⟨descent, steep, ?_, nonzero, passes⟩
  rw [sub_eq_add_neg, ← neg_smul, ← moved, add_sub_cancel]

/-- A search that ends on the way ends there. -/
theorem minimum (least : LeastStep v A secant x H x') {alpha : ℝ} {trials : ℕ}
    (ends : secant.EndsAt (-(v.gradient x ⬝ᵥ H *ᵥ v.gradient x))
      (H *ᵥ v.gradient x ⬝ᵥ A *ᵥ (H *ᵥ v.gradient x)) alpha trials) :
    x' = x - alpha • H *ᵥ v.gradient x := by
  cases ends with
  | first settled =>
    rw [abs_neg, abs_of_pos least.descent, neg_add_eq_sub] at settled
    exact absurd least.steep (not_lt.mpr settled)
  | minimum =>
    rw [neg_neg]
    exact least.moved

/-- There the slope is zero. -/
theorem flat (least : LeastStep v A secant x H x') (q : v.Convex A b const secant) :
    v.gradient x' ⬝ᵥ H *ᵥ v.gradient x = 0 := by
  have curved := (q.curvature_pos least.descent).ne'
  have gradient : A *ᵥ x - b = v.gradient x := by rw [q.gradient]
  have moved := least.moved
  generalize H *ᵥ v.gradient x = d at moved curved ⊢
  generalize alpha_eq : v.gradient x ⬝ᵥ d / d ⬝ᵥ A *ᵥ d = alpha at moved
  have there : v.gradient x' = v.gradient x - alpha • A *ᵥ d := by
    rw [moved, ← gradient, q.gradient]
    simp only [mulVec_sub, mulVec_smul]
    abel
  rw [there, sub_dotProduct, smul_dotProduct, smul_eq_mul, dotProduct_comm (A *ᵥ d), ← alpha_eq,
    div_mul_cancel₀ _ curved, sub_self]

end LeastStep

/-! ### The run -/

section Run

variable [NumberText ℝ] {plan : Plan ℝ} {work : Workspace (RankOne ℝ) σ} {clock : Clock ℝ} {k : ℕ}
  {c c' : Checkpoint ℝ (RankOne ℝ) σ}

/-- The correction between two checks is computed from the vectors at which the run rests there. -/
theorem Rests.correction_of_advance (computes : p.Computes v.family v.cost v.gradient) (h : Rests v c x H)
    {H' : Matrix (Fin n) (Fin n) ℝ} (h' : Rests v c' x' H') {left : ℕ} {r : RunState ℝ (RankOne ℝ) σ}
    (checked : plan.Checked solver left c.run .notTerminated r)
    (advanced : plan.Advanced solver p r c'.last c'.run) :
    ∃ correction, c.run.work.solver.correction (ofVector v.family (x' - x))
        (ofVector v.family (v.gradient x' - v.gradient x)) = .ok correction ∧
      c'.run.work.solver = c.run.work.solver.apply correction := by
  obtain ⟨sameWork, sameState, -⟩ := checked_ok checked
  obtain ⟨w, stepped, same⟩ := advanced.step
  rw [sameState, sameWork] at stepped
  obtain ⟨cost, known⟩ := h.cost
  obtain ⟨_, _, correction, x₁, -, -, -, last, computed, solver, -⟩ := h.step_vectors computes known stepped
  have current := h'.point
  rw [advanced.state, last] at current
  have equal : x₁ = x' := by
    rw [← toVector_ofVector v.family x₁, ← toVector_ofVector v.family x']
    exact congrArg (toVector n) current
  exact ⟨correction, equal ▸ computed, same.solver.trans solver⟩

/-- After a step that has changed the cost a run goes on where the gradient is not small. -/
theorem Stands.stopReason_of_step {H' : Matrix (Fin n) (Fin n) ℝ} (h : Stands v k c x H)
    (h' : Stands v (k + 1) c' x' H') (reached : plan.checkpoint solver p work clock k = some c)
    (reached' : plan.checkpoint solver p work clock (k + 1) = some c')
    (large : v.tolerances.gradient ≤ Real.sqrt (v.gradient x' ⬝ᵥ v.gradient x'))
    (changed : v.tolerances.cost ≤ |v.cost x - v.cost x'|) :
    c'.run.work.solver.stopReason c'.run.state = .ok .notTerminated := by
  refine h'.rests.stopReason_of_changing large fun change known => ?_
  obtain ⟨j, before, last, earlier, rfl⟩ := (Plan.costChange_eq_some_iff reached').mp known
  obtain rfl := Nat.succ.inj last
  obtain rfl := Option.some.inj (reached.symm.trans earlier)
  rw [h.last, h'.last]
  exact changed

/-- **A step to the least cost leads to the next check**, where the matrix is corrected. The search has ended flat,
and no correction was skipped. -/
theorem Stands.least_step (q : v.Convex A b const secant) (computes : p.Computes v.family v.cost v.gradient)
    (family : plan.family = v.family) (h : Stands v k c x H)
    (reached : plan.checkpoint solver p work clock k = some c) (unlimited : plan.maxTime? = none)
    (left : k < plan.maxSteps) (goesOn : c.run.work.solver.stopReason c.run.state = .ok .notTerminated)
    (least : LeastStep v A secant x H x') :
    ∃ c', plan.checkpoint solver p work clock (k + 1) = some c' ∧
      Stands v (k + 1) c' x' (corrected H (x' - x) (A *ᵥ (x' - x))) ∧
      c'.run.work.solver.updates = c.run.work.solver.updates + 1 ∧ EndsFlat c c' ∧ SkipsIdle c c' := by
  have search := q.search_ensures computes least.descent h.fits
  obtain ⟨c', reached'⟩ := h.exists_checkpoint computes family reached unlimited left goesOn least.descent
    (search.mono (fun _ _ _ => trivial) fun _ _ => id)
  obtain ⟨c₁, r, here, checked, advanced⟩ := Plan.checkpoint_succ reached'
  obtain rfl := Option.some.inj (reached.symm.trans here)
  obtain ⟨x₁, H₁, alpha, moves, stands⟩ := h.advance computes q.method_admissible checked advanced
  obtain ⟨trials, after, found⟩ := moves.found
  obtain rfl : x₁ = x' := moves.moved.trans (least.minimum (search.of_ok found)).symm
  have change : v.gradient x₁ - v.gradient x = A *ᵥ (x₁ - x) := by
    rw [q.gradient, mulVec_sub]
    exact sub_sub_sub_cancel_right _ _ _
  obtain ⟨correction, computed, solver⟩ := h.rests.correction_of_advance computes stands.rests checked advanced
  -- the guard lets the correction pass
  rw [change, h.stores.correction_decided, h.tolerances, if_neg] at computed
  case hnc => simpa [least.nonzero] using least.passes
  obtain rfl := Except.ok.inj computed
  have stores : c'.run.work.solver.Stores v.family (corrected H (x₁ - x) (A *ᵥ (x₁ - x))) := by
    rw [solver]
    exact ⟨h.stores.family_eq, rfl⟩
  obtain rfl := stands.stores.unique stores
  refine ⟨c', reached', stands, ?_, ?_, ?_⟩
  · rw [solver]
    rfl
  · exact (h.endsFlat_iff stands).mpr (least.flat q)
  · refine fun skipped => absurd ?_ skipped
    rw [solver]
    rfl

end Run

end QuasiNewton.RankOne
