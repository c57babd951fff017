import Mathlib.Analysis.Matrix.Order
import Mathlib.LinearAlgebra.Matrix.SesquilinearForm
import QuasiNewton.Proofs.RankOne.Hereditary

/-!
# The order of corrections

On a quadratic cost with a positive definite matrix `A` a correction takes from the error `E = H - A⁻¹` its
part in one direction, `E - (E y) (E y)ᵀ / (y · E y)`. By the inequality of Cauchy and Schwarz a semidefinite
error stays semidefinite: a matrix above `A⁻¹` shrinks towards it and never below it, and a matrix below it
grows. In the order of matrices that is `Approaches`, and on both sides matrices stay positive definite.
-/

set_option autoImplicit false

namespace QuasiNewton.RankOne

open Attempt Matrix Tensor
open scoped MatrixOrder
open QuasiNewton.Decimal (NumberText)

variable {σ : Type} {n : ℕ}

section Matrices

variable {A B E H H' H'' K : Matrix (Fin n) (Fin n) ℝ} {s y : Fin n → ℝ}

/-! ### Less in one direction -/

theorem posSemidef_iff_real : E.PosSemidef ↔ E.IsSymm ∧ ∀ x, 0 ≤ x ⬝ᵥ E *ᵥ x := by
  rw [posSemidef_iff_dotProduct_mulVec, isHermitian_iff_isSymm]
  rfl

/-- The inequality of Cauchy and Schwarz for a semidefinite matrix. -/
theorem dotProduct_mulVec_sq_le (h : E.PosSemidef) (x y : Fin n → ℝ) :
    (x ⬝ᵥ E *ᵥ y) ^ 2 ≤ (x ⬝ᵥ E *ᵥ x) * (y ⬝ᵥ E *ᵥ y) := by
  obtain ⟨symm, nonneg⟩ := posSemidef_iff_real.mp h
  have form (u v : Fin n → ℝ) : Matrix.toLinearMap₂' ℝ E u v = u ⬝ᵥ E *ᵥ v :=
    Matrix.toLinearMap₂'_apply' E u v
  have bilinear := LinearMap.BilinForm.apply_sq_le_of_symm (Matrix.toLinearMap₂' ℝ E)
    (fun u => by rw [form]; exact nonneg u) ⟨fun u v => by
      rw [form, form, RingHom.id_apply, ← Exact.mulVec_dotProduct symm, dotProduct_comm]⟩ x y
  rwa [form, form, form] at bilinear

/-- A matrix without its part in the direction of `E y`. -/
noncomputable def deflated (E : Matrix (Fin n) (Fin n) ℝ) (y : Fin n → ℝ) : Matrix (Fin n) (Fin n) ℝ :=
  E - (1 / (y ⬝ᵥ E *ᵥ y)) • vecMulVec (E *ᵥ y) (E *ᵥ y)

theorem deflated_neg (E : Matrix (Fin n) (Fin n) ℝ) (y : Fin n → ℝ) :
    deflated (-E) y = -deflated E y := by
  unfold deflated
  rw [neg_mulVec, dotProduct_neg, neg_vecMulVec, vecMulVec_neg, neg_neg, div_neg, neg_smul]
  abel

theorem dotProduct_vecMulVec_mulVec (u x : Fin n → ℝ) : x ⬝ᵥ vecMulVec u u *ᵥ x = (x ⬝ᵥ u) ^ 2 := by
  rw [vecMulVec_mulVec, op_smul_eq_smul, dotProduct_smul, smul_eq_mul, dotProduct_comm u x, sq]

/-- What a semidefinite matrix loses in one direction is semidefinite, and so is what remains. -/
theorem deflated_posSemidef (h : E.PosSemidef) (y : Fin n → ℝ) :
    (deflated E y).PosSemidef ∧ (E - deflated E y).PosSemidef := by
  obtain ⟨symm, nonneg⟩ := posSemidef_iff_real.mp h
  have part : ((1 / (y ⬝ᵥ E *ᵥ y)) • vecMulVec (E *ᵥ y) (E *ᵥ y)).IsSymm :=
    (vecMulVec_self_isSymm _).smul _
  have value (x : Fin n → ℝ) : x ⬝ᵥ ((1 / (y ⬝ᵥ E *ᵥ y)) • vecMulVec (E *ᵥ y) (E *ᵥ y)) *ᵥ x =
      (x ⬝ᵥ E *ᵥ y) ^ 2 / (y ⬝ᵥ E *ᵥ y) := by
    rw [smul_mulVec, dotProduct_smul, dotProduct_vecMulVec_mulVec, smul_eq_mul, one_div_mul_eq_div]
  constructor
  · refine posSemidef_iff_real.mpr ⟨symm.sub part, fun x => ?_⟩
    unfold deflated
    rw [sub_mulVec, dotProduct_sub, value, sub_nonneg]
    exact div_le_of_le_mul₀ (nonneg y) (nonneg x) (dotProduct_mulVec_sq_le h x y)
  · unfold deflated
    rw [sub_sub_cancel]
    refine posSemidef_iff_real.mpr ⟨part, fun x => ?_⟩
    rw [value]
    exact div_nonneg (sq_nonneg _) (nonneg y)

/-! ### Corrections -/

/-- On a quadratic cost a correction deflates the error of the matrix. -/
theorem corrected_sub (inverse : B * A = 1) (s : Fin n → ℝ) :
    corrected H s (A *ᵥ s) - B = deflated (H - B) (A *ᵥ s) := by
  have missed : residual H s (A *ᵥ s) = -((H - B) *ᵥ (A *ᵥ s)) := by
    have step : B *ᵥ (A *ᵥ s) = s := by rw [mulVec_mulVec, inverse, one_mulVec]
    rw [residual, sub_mulVec, step, neg_sub]
  unfold corrected deflated
  rw [missed, neg_dotProduct, neg_vecMulVec, vecMulVec_neg, neg_neg, div_neg, neg_smul,
    dotProduct_comm (A *ᵥ s)]
  abel

/-- The matrix `H'` lies between `B` and `H`, on whichever side of `B` the matrix `H` lies. -/
structure Approaches (B H H' : Matrix (Fin n) (Fin n) ℝ) : Prop where
  above : B ≤ H → B ≤ H' ∧ H' ≤ H
  below : H ≤ B → H' ≤ B ∧ H ≤ H'

theorem Approaches.refl (B H : Matrix (Fin n) (Fin n) ℝ) : Approaches B H H :=
  ⟨fun above => ⟨above, le_rfl⟩, fun below => ⟨below, le_rfl⟩⟩

theorem Approaches.trans (h : Approaches B H H') (h' : Approaches B H' H'') : Approaches B H H'' where
  above above := by
    obtain ⟨above', less⟩ := h.above above
    obtain ⟨above'', less'⟩ := h'.above above'
    exact ⟨above'', less'.trans less⟩
  below below := by
    obtain ⟨below', more⟩ := h.below below
    obtain ⟨below'', more'⟩ := h'.below below'
    exact ⟨below'', more.trans more'⟩

theorem approaches_corrected (inverse : B * A = 1) (s : Fin n → ℝ) :
    Approaches B H (corrected H s (A *ᵥ s)) where
  above above := by
    have error := corrected_sub (H := H) inverse s
    obtain ⟨rest, lost⟩ := deflated_posSemidef (le_iff.mp above) (A *ᵥ s)
    constructor
    · rw [le_iff, error]
      exact rest
    · rw [le_iff]
      rwa [← error, sub_sub_sub_cancel_right] at lost
  below below := by
    have error : B - corrected H s (A *ᵥ s) = deflated (B - H) (A *ᵥ s) := by
      rw [← neg_sub, corrected_sub inverse s, ← deflated_neg, neg_sub]
    obtain ⟨rest, lost⟩ := deflated_posSemidef (le_iff.mp below) (A *ᵥ s)
    constructor
    · rw [le_iff, error]
      exact rest
    · rw [le_iff]
      rwa [← error, sub_sub_sub_cancel_left] at lost

theorem posDef_of_le (h : H.PosDef) (le : H ≤ K) : K.PosDef := by
  rw [← add_sub_cancel H K]
  exact h.add_posSemidef (le_iff.mp le)

/-- A positive definite matrix on one side of `B`. -/
structure Beside (B H : Matrix (Fin n) (Fin n) ℝ) : Prop where
  definite : H.PosDef
  side : B ≤ H ∨ H ≤ B

theorem Beside.of_approaches (hB : B.PosDef) (h : Beside B H) (approaches : Approaches B H H') :
    Beside B H' := by
  rcases h.side with above | below
  · obtain ⟨above', -⟩ := approaches.above above
    exact ⟨posDef_of_le hB above', .inl above'⟩
  · obtain ⟨below', more⟩ := approaches.below below
    exact ⟨posDef_of_le h.definite more, .inr below'⟩

end Matrices

end QuasiNewton.RankOne
