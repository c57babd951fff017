import Mathlib.LinearAlgebra.Matrix.ToLinearEquiv
import QuasiNewton.Proofs.RankOne.Correction

/-!
# Corrections of the inverse

The solver corrects the inverse `H` of a Hessian matrix. The direct form of the method corrects the matrix `B` that
`H` is the inverse of, with the roles of the step `s` and the change `y` exchanged: what it lacks is `w = y - B s`,
and `v = -(H w)`. The corrected `H` shortens or stretches `w` into the direction of `v`, by the factor
`(w · s) / (v · y)` (`corrected_mulVec_residual`). So it is singular where `w · s` is zero, which the guard of the
correction does not ask for, and everywhere else the direct correction of `B` is its inverse
(`corrected_mul_corrected`).
-/

set_option autoImplicit false

namespace QuasiNewton.RankOne

open Attempt Matrix Tensor
open QuasiNewton.Decimal (NumberText)

variable {σ : Type} {n : ℕ} {B H : Matrix (Fin n) (Fin n) ℝ} {s y : Fin n → ℝ}

/-! ### Two residuals -/

theorem residual_eq_neg_mulVec (inverse : B * H = 1) : residual H s y = -(H *ᵥ residual B y s) := by
  rw [residual, residual, mulVec_sub, mulVec_mulVec, mul_eq_one_comm.mp inverse, one_mulVec, neg_sub]

theorem mulVec_residual (inverse : B * H = 1) : B *ᵥ residual H s y = -residual B y s := by
  rw [residual_eq_neg_mulVec inverse, mulVec_neg, mulVec_mulVec, inverse, one_mulVec]

/-- What the old matrix gives for the other residual is the residual, but for the sign. -/
theorem residual_dotProduct_mulVec (inverse : B * H = 1) (symm : H.IsSymm) (x : Fin n → ℝ) :
    residual B y s ⬝ᵥ H *ᵥ x = -(residual H s y ⬝ᵥ x) := by
  rw [residual_eq_neg_mulVec inverse, neg_dotProduct, neg_neg, Exact.mulVec_dotProduct symm]

/-- The product of the residuals is the sum of the products that the two corrections divide by. -/
theorem residual_dotProduct_residual (inverse : B * H = 1) (symm : H.IsSymm) :
    residual B y s ⬝ᵥ residual H s y = residual B y s ⬝ᵥ s + residual H s y ⬝ᵥ y := by
  calc residual B y s ⬝ᵥ residual H s y
      = residual B y s ⬝ᵥ s - residual B y s ⬝ᵥ H *ᵥ y := dotProduct_sub _ _ _
    _ = residual B y s ⬝ᵥ s + residual H s y ⬝ᵥ y := by
      rw [residual_dotProduct_mulVec inverse symm, sub_neg_eq_add]

/-! ### Two corrections -/

/-- The corrected matrix takes the other residual into the direction of the residual. -/
theorem corrected_mulVec_residual (inverse : B * H = 1) (symm : H.IsSymm)
    (nonzero : residual H s y ⬝ᵥ y ≠ 0) :
    corrected H s y *ᵥ residual B y s =
      ((residual B y s ⬝ᵥ s) / (residual H s y ⬝ᵥ y)) • residual H s y := by
  have turned : H *ᵥ residual B y s = -residual H s y := by
    rw [residual_eq_neg_mulVec inverse, neg_neg]
  rw [corrected_mulVec, turned, dotProduct_comm (residual H s y), residual_dotProduct_residual inverse symm,
    add_div, div_self nonzero, add_smul, one_smul]
  abel

theorem residual_dotProduct_corrected (inverse : B * H = 1) (symm : H.IsSymm)
    (nonzero : residual H s y ⬝ᵥ y ≠ 0) (x : Fin n → ℝ) :
    residual B y s ⬝ᵥ corrected H s y *ᵥ x =
      (residual H s y ⬝ᵥ x) / (residual H s y ⬝ᵥ y) * (residual B y s ⬝ᵥ s) := by
  rw [← Exact.mulVec_dotProduct (corrected_isSymm symm), corrected_mulVec_residual inverse symm nonzero,
    smul_dotProduct, smul_eq_mul]
  ring

/-- **The direct correction is the inverse of the correction of the inverse.** -/
theorem corrected_mul_corrected (inverse : B * H = 1) (symm : H.IsSymm)
    (nonzero : residual H s y ⬝ᵥ y ≠ 0) (regular : residual B y s ⬝ᵥ s ≠ 0) :
    corrected B y s * corrected H s y = 1 := by
  have undone (x : Fin n → ℝ) : corrected B y s *ᵥ (corrected H s y *ᵥ x) = x := by
    calc corrected B y s *ᵥ (corrected H s y *ᵥ x)
        = B *ᵥ (corrected H s y *ᵥ x) +
            ((residual H s y ⬝ᵥ x) / (residual H s y ⬝ᵥ y)) • residual B y s := by
          rw [corrected_mulVec, residual_dotProduct_corrected inverse symm nonzero,
            mul_div_cancel_right₀ _ regular]
      _ = x := by
          rw [corrected_mulVec, mulVec_add, mulVec_mulVec, inverse, one_mulVec, mulVec_smul,
            mulVec_residual inverse, smul_neg, neg_add_cancel_right]
  refine ext_of_mulVec_single fun i => ?_
  rw [← mulVec_mulVec, one_mulVec, undone]

/-- Where the direct correction would divide by zero, the corrected inverse has lost a direction. -/
theorem det_corrected_eq_zero (inverse : B * H = 1) (symm : H.IsSymm)
    (nonzero : residual H s y ⬝ᵥ y ≠ 0) (singular : residual B y s ⬝ᵥ s = 0) : (corrected H s y).det = 0 := by
  -- the direction lost is that of the other residual, which is not zero since the residual itself is not
  refine exists_mulVec_eq_zero_iff.mp ⟨residual B y s, fun none => nonzero ?_, ?_⟩
  · rw [residual_eq_neg_mulVec inverse, none, mulVec_zero, neg_zero, zero_dotProduct]
  · rw [corrected_mulVec_residual inverse symm nonzero, singular, zero_div, zero_smul]

theorem isUnit_corrected_iff (inverse : B * H = 1) (symm : H.IsSymm) (nonzero : residual H s y ⬝ᵥ y ≠ 0) :
    IsUnit (corrected H s y) ↔ residual B y s ⬝ᵥ s ≠ 0 := by
  constructor
  · intro unit singular
    have regular := ((isUnit_iff_isUnit_det _).mp unit).ne_zero
    exact regular (det_corrected_eq_zero inverse symm nonzero singular)
  · intro regular
    have direct := corrected_mul_corrected inverse symm nonzero regular
    exact .of_mul_eq_one _ (mul_eq_one_comm.mp direct)

/-- **A correction of the inverse is the inverse of a correction.** Where a call answers that a correction was made
to the inverse `H` of `B`, the solver holds a matrix that is invertible if and only if `w · s` is not zero, for
`w = y - B s`; its inverse is then the direct correction of `B`, and otherwise it is singular. -/
theorem made_correction_inverts [NumberText ℝ] {family : Family} (symm : H.IsSymm) (inverse : B * H = 1)
    {work after : Workspace (RankOne ℝ) σ} (stores : work.solver.Stores family H)
    (made : (update (ofVector family s) (ofVector family y)).outcome work = (.ok true, after)) :
    let w := y - B *ᵥ s
    ∃ H', after.solver.Stores family H' ∧ (IsUnit H' ↔ w ⬝ᵥ s ≠ 0) ∧
      (w ⬝ᵥ s ≠ 0 → H'⁻¹ = B + (1 / (w ⬝ᵥ s)) • vecMulVec w w) ∧ (w ⬝ᵥ s = 0 → H'.det = 0) := by
  intro w
  obtain ⟨nonzero, stores'⟩ := stores.of_update made
  exact ⟨corrected H s y, stores', isUnit_corrected_iff inverse symm nonzero,
    fun regular => inv_eq_left_inv (corrected_mul_corrected inverse symm nonzero regular),
    det_corrected_eq_zero inverse symm nonzero⟩

/-- For instance, the identity is corrected for the step `(2, 1)` and the change `(1, 1)` to a matrix that doubles
the first entry. -/
theorem unitWork_inverted : ∃ after, ∃ H' : Matrix (Fin 2) (Fin 2) ℝ,
    (update (ofVector .lenient ![2, 1]) (ofVector .lenient ![1, 1])).outcome unitWork = (.ok true, after) ∧
      after.solver.Stores .lenient H' ∧ IsUnit H' ∧ H'⁻¹ = !![1 / 2, 0; 0, 1] := by
  obtain ⟨after, made⟩ := unitWork_corrected
  obtain ⟨H', stores, unit, direct, -⟩ := made_correction_inverts isSymm_one (one_mul 1) unitWork_stores made
  have missed : ![1, 1] - (1 : Matrix (Fin 2) (Fin 2) ℝ) *ᵥ ![2, 1] = ![-1, 0] := by
    rw [one_mulVec]
    ext i
    fin_cases i <;> norm_num
  have product : ![-1, 0] ⬝ᵥ ![2, 1] = (-2 : ℝ) := by
    norm_num [dotProduct, Fin.sum_univ_two]
  rw [missed, product] at unit direct
  refine ⟨after, H', made, stores, unit.mpr (by norm_num), (direct (by norm_num)).trans ?_⟩
  ext i j
  fin_cases i <;> fin_cases j <;> norm_num [vecMulVec]

end QuasiNewton.RankOne
