import QuasiNewton.Proofs.RankOne.ExactRun
import QuasiNewton.Proofs.RankOne.Progress

/-!
# Newton steps

A solver that is given the inverse of the matrix of a quadratic cost has nothing to correct, and a secant
search that tries a full step first finds it flat. Such a run returns from any start vector
(`Newton.execute_returns`), and it makes a step where the gradient is not small (`Newton.exists_step`).
-/

set_option autoImplicit false

namespace QuasiNewton.RankOne

open Attempt Matrix Tensor
open QuasiNewton.Decimal (NumberText)

variable {σ : Type} {n : ℕ}

/-- A run with Newton steps on a quadratic cost: the secant search tries a full step first. -/
structure Newton (v : Setting n) (A : Matrix (Fin n) (Fin n) ℝ) (b : Fin n → ℝ) (const : ℝ)
    (secant : Secant ℝ) : Prop where
  cost : v.cost = Quadratic.value A b const
  gradient : v.gradient = fun x => A *ᵥ x - b
  method : v.search.method = .secant secant
  admissible : secant.Admissible
  full : secant.firstStep = 1

variable {v : Setting n} {A H : Matrix (Fin n) (Fin n) ℝ} {b : Fin n → ℝ} {const : ℝ}
  {secant : Secant ℝ}

theorem Newton.gradient_eq_zero (newton : Newton v A b const secant) (inverse : H * A = 1)
    (x : Fin n → ℝ) : v.gradient (x + (1 : ℝ) • -(H *ᵥ v.gradient x)) = 0 := by
  have right : A * H = 1 := mul_eq_one_comm.mp inverse
  simp only [newton.gradient, one_smul, mulVec_add, mulVec_neg, mulVec_mulVec, right, one_mulVec]
  abel

theorem Newton.residual_eq_zero (newton : Newton v A b const secant) (inverse : H * A = 1)
    (x x' : Fin n → ℝ) : residual H (x' - x) (v.gradient x' - v.gradient x) = 0 := by
  have change : v.gradient x' - v.gradient x = A *ᵥ (x' - x) := by
    rw [newton.gradient, mulVec_sub]
    exact sub_sub_sub_cancel_right _ _ _
  rw [residual, change, mulVec_mulVec, inverse, one_mulVec, sub_self]

theorem Newton.cost_le (newton : Newton v A b const secant) (hA : A.IsSymm) (inverse : H * A = 1)
    {x : Fin n → ℝ} (descent : 0 < v.gradient x ⬝ᵥ H *ᵥ v.gradient x) :
    v.cost (x + (1 : ℝ) • -(H *ᵥ v.gradient x)) ≤ v.cost x := by
  have right : A * H = 1 := mul_eq_one_comm.mp inverse
  have turned : A *ᵥ -(H *ᵥ v.gradient x) = -v.gradient x := by
    rw [mulVec_neg, mulVec_mulVec, right, one_mulVec]
  have gradient : A *ᵥ x - b = v.gradient x := by rw [newton.gradient]
  rw [newton.cost, one_smul, Quadratic.value_add A b const hA, turned, gradient]
  simp only [dotProduct_neg, neg_dotProduct, dotProduct_comm (H *ᵥ v.gradient x)]
  linarith

theorem Newton.search_ensures {p : Problem ℝ σ} (newton : Newton v A b const secant)
    (hA : A.IsSymm) (inverse : H * A = 1) (computes : p.Computes v.family v.cost v.gradient)
    {x : Fin n → ℝ} (descent : 0 < v.gradient x ⬝ᵥ H *ᵥ v.gradient x) {ledger : Ledger σ}
    (fits : ledger.Fits v.family) :
    (v.searchFrom p x H).Ensures ledger (fun step _ => step.alpha = 1) fun _ _ => False := by
  rw [Setting.searchFrom, Setting.searchWith, newton.method, ← newton.full]
  refine Secant.search_of_flat (computes.line_answers x _) newton.admissible ?_ ?_ fits
  · rintro slope rfl
    rw [newton.full, newton.gradient_eq_zero inverse, zero_dotProduct]
  · rintro cost rfl
    rw [newton.full]
    exact newton.cost_le hA inverse descent

section Run

variable [NumberText ℝ] {p : Problem ℝ σ} {plan : Plan ℝ} {work : Workspace (RankOne ℝ) σ}
  {clock : Clock ℝ}

/-- A Newton step ends where the gradient is zero, and the matrix stays what it is. -/
theorem Newton.advance (newton : Newton v A b const secant) (hA : A.IsSymm) (inverse : H * A = 1)
    (computes : p.Computes v.family v.cost v.gradient) {k left : ℕ}
    {c c' : Checkpoint ℝ (RankOne ℝ) σ} {x : Fin n → ℝ} (h : Stands v k c x H)
    {r : RunState ℝ (RankOne ℝ) σ} (checked : plan.Checked solver left c.run .notTerminated r)
    (advanced : plan.Advanced solver p r c'.last c'.run) :
    ∃ x', Stands v (k + 1) c' x' H ∧ v.gradient x' = 0 := by
  have admissible : v.search.method.Admissible := newton.method ▸ newton.admissible
  obtain ⟨x', H', alpha, moves, stands⟩ := h.advance computes admissible checked advanced
  obtain ⟨trials, after, found⟩ := moves.found
  obtain rfl : alpha = 1 :=
    (newton.search_ensures hA inverse computes moves.descent h.fits).of_ok found
  have same : H' = H := by
    have corrects := moves.corrects
    have none := newton.residual_eq_zero inverse x x'
    cases corrects with
    | skipped => rfl
    | made large => exact absurd (by rw [none, zero_dotProduct]) large
  refine ⟨x', same ▸ stands, ?_⟩
  rw [moves.moved, sub_eq_add_neg, ← smul_neg]
  exact newton.gradient_eq_zero inverse x

/-- At every check of a run with Newton steps the matrix is the first one. -/
theorem Newton.stands_of_checkpoint (newton : Newton v A b const secant) (hA : A.IsSymm)
    (inverse : H * A = 1) (computes : p.Computes v.family v.cost v.gradient) {x₀ : Fin n → ℝ}
    (begins : Begins plan work v x₀ H) {k : ℕ} {c : Checkpoint ℝ (RankOne ℝ) σ}
    (reached : plan.checkpoint solver p work clock k = some c) : ∃ x, Stands v k c x H := by
  induction k generalizing c with
  | zero => exact ⟨x₀, begins.stands computes (Plan.checkpoint_zero reached)⟩
  | succ k ih =>
    obtain ⟨c₀, r, hc₀, checked, advanced⟩ := Plan.checkpoint_succ reached
    obtain ⟨x, h⟩ := ih hc₀
    obtain ⟨x', h', -⟩ := newton.advance hA inverse computes h checked advanced
    exact ⟨x', h'⟩

/-- A run with Newton steps returns, since none of its searches fails. -/
theorem Newton.execute_returns (newton : Newton v A b const secant) (hA : A.IsSymm) (hH : H.PosDef)
    (inverse : H * A = 1) (computes : p.Computes v.family v.cost v.gradient) {x₀ : Fin n → ℝ}
    (begins : Begins plan work v x₀ H) (family : plan.family = v.family)
    (fresh : work.lifecycle.status = .notStarted) (positive : 0 < v.tolerances.gradient) :
    ∃ o w clock', plan.execute solver p work clock = (.ok o, w, clock') := by
  rcases ended : plan.execute solver p work clock with ⟨e | o, w, clock'⟩
  · exfalso
    refine begins.fails_in_search (E := fun _ => False) computes family fresh
      (fun k c x H' cost reached rests known goesOn => ?_) (Plan.fails_of_execute ended)
    obtain ⟨x', stands⟩ := newton.stands_of_checkpoint hA inverse computes begins reached
    obtain ⟨rfl, rfl⟩ := stands.eq_of_rests rests
    obtain rfl := Option.some.inj (stands.cost.symm.trans known)
    have descent : 0 < v.gradient x ⬝ᵥ H' *ᵥ v.gradient x := by
      apply hH.dotProduct_mulVec_pos
      intro zero
      rw [rests.stopReason_of_gradient_eq_zero positive zero] at goesOn
      exact absurd goesOn nofun
    exact ⟨descent, (newton.search_ensures hA inverse computes descent rests.fits).mono
      (fun _ _ _ => trivial) fun _ _ => id⟩
  · exact ⟨o, w, clock', rfl⟩

/-- Where the gradient at the start is not small, a Newton step is made. -/
theorem Newton.exists_step (newton : Newton v A b const secant) (hA : A.IsSymm) (inverse : H * A = 1)
    (computes : p.Computes v.family v.cost v.gradient) {x₀ : Fin n → ℝ}
    (begins : Begins plan work v x₀ H) (family : plan.family = v.family)
    (fresh : work.lifecycle.status = .notStarted) (unlimited : plan.maxTime? = none)
    (permitted : 0 < plan.maxSteps)
    (large : v.tolerances.gradient ≤ Real.sqrt (v.gradient x₀ ⬝ᵥ v.gradient x₀))
    (descent : 0 < v.gradient x₀ ⬝ᵥ H *ᵥ v.gradient x₀) :
    ∃ c, plan.checkpoint solver p work clock 1 = some c := by
  have admissible : v.search.method.Admissible := newton.method ▸ newton.admissible
  obtain ⟨c, reached⟩ : ∃ c, plan.checkpoint solver p work clock 0 = some c :=
    begins.exists_checkpoint computes family fresh
  have prepared := Plan.checkpoint_zero reached
  have h := begins.stands computes prepared
  have unknown : c.run.state.costChange = none := by
    rw [prepared.state]
    rfl
  have goesOn : c.run.work.solver.stopReason c.run.state = .ok .notTerminated :=
    h.rests.stopReason_of_large large unknown
  exact h.exists_checkpoint computes family reached unlimited permitted goesOn descent
    ((newton.search_ensures hA inverse computes descent h.fits).mono (fun _ _ _ => trivial)
      fun _ _ => id)

end Run

end QuasiNewton.RankOne
