import Mathlib.LinearAlgebra.Matrix.PosDef
import Mathlib.LinearAlgebra.SesquilinearForm.Basic
import QuasiNewton.Proofs.RankOne.Secant

/-!
# Exact steps on a quadratic cost

Steps against the product of matrix and gradient, each to the point where the slope along it is zero,
with a correction of the matrix after each of them that is skipped only where nothing is to be corrected.
On a quadratic cost with a positive definite matrix such steps are conjugate, so that there are at most as
many of them as unknowns, and after that many the gradient is zero and the matrix is the inverse.
`ExactSteps.reached` is the invariant: all secant equations, and a gradient orthogonal to all steps.
-/

set_option autoImplicit false

namespace QuasiNewton.RankOne

open Matrix

variable {n : ℕ}

/-- The vectors `x 0`, ..., `x N` and the matrices `H 0`, ..., `H N` of `N` exact steps. -/
structure ExactSteps (A : Matrix (Fin n) (Fin n) ℝ) (b : Fin n → ℝ) (N : ℕ) (x : ℕ → Fin n → ℝ)
    (H : ℕ → Matrix (Fin n) (Fin n) ℝ) : Prop where
  symm : (H 0).IsSymm
  moves : ∀ k < N, ∃ alpha : ℝ, 0 < alpha ∧ x (k + 1) = x k - alpha • H k *ᵥ (A *ᵥ x k - b)
  /-- The cost falls along it. -/
  descent : ∀ k < N, 0 < (A *ᵥ x k - b) ⬝ᵥ H k *ᵥ (A *ᵥ x k - b)
  flat : ∀ k < N, (A *ᵥ x (k + 1) - b) ⬝ᵥ H k *ᵥ (A *ᵥ x k - b) = 0
  corrects : ∀ k < N,
    H (k + 1) = H k ∧ residual (H k) (x (k + 1) - x k) (A *ᵥ (x (k + 1) - x k)) = 0 ∨
      residual (H k) (x (k + 1) - x k) (A *ᵥ (x (k + 1) - x k)) ⬝ᵥ A *ᵥ (x (k + 1) - x k) ≠ 0 ∧
        H (k + 1) = corrected (H k) (x (k + 1) - x k) (A *ᵥ (x (k + 1) - x k))

/-- What is true after `k` exact steps. -/
structure Reached (A : Matrix (Fin n) (Fin n) ℝ) (b : Fin n → ℝ) (x : ℕ → Fin n → ℝ)
    (H : ℕ → Matrix (Fin n) (Fin n) ℝ) (k : ℕ) : Prop where
  symm : (H k).IsSymm
  secant : ∀ j < k, H k *ᵥ (A *ᵥ (x (j + 1) - x j)) = x (j + 1) - x j
  orthogonal : ∀ j < k, (A *ᵥ x k - b) ⬝ᵥ (x (j + 1) - x j) = 0

namespace ExactSteps

variable {A : Matrix (Fin n) (Fin n) ℝ} {b : Fin n → ℝ} {N : ℕ} {x : ℕ → Fin n → ℝ}
  {H : ℕ → Matrix (Fin n) (Fin n) ℝ} (h : ExactSteps A b N x H)

include h

/-- A step is a negative multiple of the product of matrix and gradient. -/
theorem exists_step {k : ℕ} (hk : k < N) :
    ∃ alpha : ℝ, 0 < alpha ∧ x (k + 1) - x k = -(alpha • H k *ᵥ (A *ᵥ x k - b)) := by
  obtain ⟨alpha, positive, moved⟩ := h.moves k hk
  exact ⟨alpha, positive, by rw [moved, sub_sub_cancel_left]⟩

/-- A step is conjugate to all earlier ones. -/
theorem conjugate_of_reached {k : ℕ} (hk : k < N) (before : Reached A b x H k) {j : ℕ}
    (hj : j < k) : (x (k + 1) - x k) ⬝ᵥ A *ᵥ (x (j + 1) - x j) = 0 := by
  obtain ⟨alpha, -, step⟩ := h.exists_step hk
  calc (x (k + 1) - x k) ⬝ᵥ A *ᵥ (x (j + 1) - x j)
      = -(alpha * (H k *ᵥ (A *ᵥ x k - b) ⬝ᵥ A *ᵥ (x (j + 1) - x j))) := by
        rw [step, neg_dotProduct, smul_dotProduct, smul_eq_mul]
    _ = -(alpha * ((A *ᵥ x k - b) ⬝ᵥ H k *ᵥ (A *ᵥ (x (j + 1) - x j)))) := by
        rw [Exact.mulVec_dotProduct before.symm]
    _ = 0 := by rw [before.secant j hj, before.orthogonal j hj, mul_zero, neg_zero]

/-- One more exact step. -/
theorem reached_succ {k : ℕ} (hk : k < N) (hA : A.IsSymm) (before : Reached A b x H k) :
    Reached A b x H (k + 1) := by
  have gradient : A *ᵥ x (k + 1) - b = (A *ᵥ x k - b) + A *ᵥ (x (k + 1) - x k) := by
    rw [mulVec_sub]
    abel
  refine ⟨?_, fun j hj => ?_, fun j hj => ?_⟩
  -- symmetry
  · rcases h.corrects k hk with ⟨same, -⟩ | ⟨-, changed⟩
    · exact same ▸ before.symm
    · exact changed ▸ corrected_isSymm before.symm
  -- the secant equations: the earlier ones are inherited, and the last step satisfies its own either
  -- because of its correction or because nothing was to be corrected
  · rcases Nat.lt_succ_iff_lt_or_eq.mp hj with hj | rfl
    · rcases h.corrects k hk with ⟨same, -⟩ | ⟨-, changed⟩
      · rw [same, before.secant j hj]
      · rw [changed, corrected_mulVec_of_secant hA before.symm (before.secant j hj)]
    · rcases h.corrects j hk with ⟨same, exact_⟩ | ⟨large, changed⟩
      · rw [same]
        exact (sub_eq_zero.mp exact_).symm
      · rw [changed, corrected_mulVec_self large]
  -- orthogonality: for earlier steps by conjugacy, for the last one because the search ended flat
  · rcases Nat.lt_succ_iff_lt_or_eq.mp hj with hj | rfl
    · rw [gradient, add_dotProduct, before.orthogonal j hj, Exact.mulVec_dotProduct hA,
        h.conjugate_of_reached hk before hj, add_zero]
    · obtain ⟨alpha, -, step⟩ := h.exists_step hk
      rw [step, dotProduct_neg, dotProduct_smul, h.flat j hk, smul_zero, neg_zero]

/-- What is true after each exact step, by induction on the steps. -/
theorem reached (hA : A.IsSymm) {k : ℕ} (hk : k ≤ N) : Reached A b x H k := by
  induction k with
  | zero => exact ⟨h.symm, nofun, nofun⟩
  | succ k ih => exact h.reached_succ hk hA (ih (Nat.le_of_succ_le hk))

theorem conjugate (hA : A.IsSymm) {i j : ℕ} (hi : i < N) (hj : j < N) (ne : i ≠ j) :
    (x (i + 1) - x i) ⬝ᵥ A *ᵥ (x (j + 1) - x j) = 0 := by
  rcases Nat.lt_or_gt_of_ne ne with lt | gt
  · rw [← Exact.mulVec_dotProduct hA, dotProduct_comm]
    exact h.conjugate_of_reached hj (h.reached hA hj.le) lt
  · exact h.conjugate_of_reached hi (h.reached hA hi.le) gt

theorem step_ne_zero {k : ℕ} (hk : k < N) : x (k + 1) - x k ≠ 0 := by
  obtain ⟨alpha, positive, step⟩ := h.exists_step hk
  intro zero
  rw [step, neg_eq_zero, smul_eq_zero] at zero
  rcases zero with none | none
  · exact positive.ne' none
  · exact (h.descent k hk).ne' (by rw [none, dotProduct_zero])

variable (hA : A.PosDef)

include hA

theorem linearIndependent : LinearIndependent ℝ fun j : Fin N => x (j + 1) - x j := by
  have symm : A.IsSymm := isHermitian_iff_isSymm.mp hA.isHermitian
  have orthogonal : (toLinearMap₂' ℝ A).IsOrthoᵢ fun j : Fin N => x (j + 1) - x j := by
    intro i j ne
    rw [Function.onFun, toLinearMap₂'_apply']
    exact h.conjugate symm i.isLt j.isLt fun same => ne (Fin.ext same)
  refine LinearMap.linearIndependent_of_isOrthoᵢ orthogonal fun j => ?_
  rw [toLinearMap₂'_apply']
  exact (hA.dotProduct_mulVec_pos (h.step_ne_zero j.isLt)).ne'

/-- There are at most as many exact steps as unknowns. -/
theorem le_card : N ≤ n := by
  simpa using (h.linearIndependent hA).fintype_card_le_finrank

variable (full : N = n)

include full

theorem span_eq_top :
    Submodule.span ℝ (Set.range fun j : Fin N => x (j + 1) - x j) = ⊤ :=
  (h.linearIndependent hA).span_eq_top_of_card_eq_finrank' (by simp [full])

theorem gradient_eq_zero : A *ᵥ x N - b = 0 := by
  have reached := h.reached (isHermitian_iff_isSymm.mp hA.isHermitian) le_rfl
  -- the gradient is orthogonal to all steps, and these span everything
  have orthogonal (u : Fin n → ℝ) : (A *ᵥ x N - b) ⬝ᵥ u = 0 := by
    have hu : u ∈ Submodule.span ℝ (Set.range fun j : Fin N => x (j + 1) - x j) :=
      h.span_eq_top hA full ▸ Submodule.mem_top
    induction hu using Submodule.span_induction with
    | mem y hy =>
      obtain ⟨j, rfl⟩ := hy
      exact reached.orthogonal j j.isLt
    | zero => exact dotProduct_zero _
    | add y z _ _ hy hz => rw [dotProduct_add, hy, hz, add_zero]
    | smul c y _ hy => rw [dotProduct_smul, hy, smul_zero]
  exact dotProduct_self_eq_zero.mp (orthogonal _)

/-- After as many exact steps as unknowns the matrix is the inverse. -/
theorem mul_eq_one : H N * A = 1 := by
  have reached := h.reached (isHermitian_iff_isSymm.mp hA.isHermitian) le_rfl
  exact mul_eq_one_of_span_eq_top (fun j : Fin N => reached.secant j j.isLt)
    (h.span_eq_top hA full)

end ExactSteps

end QuasiNewton.RankOne
