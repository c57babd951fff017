import QuasiNewton.Proofs.LineSearch.Descent
import QuasiNewton.Proofs.RankOne.Secant

/-!
# The correction of rank one

A matrix can be made to map the change `y` of the gradient to the step `s` by adding a multiple of the square of
one vector. There is no choice in it: what is added maps `y` to the residual `v = s - H y`, so that the vector is a
multiple of `v`, and `v · y` fixes the factor (`eq_corrected_of_mulVec`). The matrix need not be symmetric. So a
call that answers that a correction was made has put the only such matrix in the place of the old one, and this
matrix maps all that is orthogonal to `v` as the old one did.
-/

set_option autoImplicit false

namespace QuasiNewton.RankOne

open Attempt Matrix Tensor
open QuasiNewton.Decimal (NumberText)

variable {σ : Type} {n : ℕ} {H : Matrix (Fin n) (Fin n) ℝ} {s y : Fin n → ℝ}

/-- What a multiple of a square contributes to a product. -/
theorem smul_vecMulVec_self_mulVec (k : ℝ) (u x : Fin n → ℝ) :
    (k • vecMulVec u u) *ᵥ x = (k * (u ⬝ᵥ x)) • u := by
  rw [smul_mulVec, vecMulVec_mulVec, op_smul_eq_smul, smul_smul]

/-- The only correction by a multiple of a square that maps `y` to `s`. -/
theorem eq_corrected_of_mulVec {k : ℝ} {u : Fin n → ℝ} (nonzero : residual H s y ⬝ᵥ y ≠ 0)
    (maps : (H + k • vecMulVec u u) *ᵥ y = s) : H + k • vecMulVec u u = corrected H s y := by
  have missed : residual H s y = (k * (u ⬝ᵥ y)) • u := by
    rw [residual, ← maps, add_mulVec, add_sub_cancel_left, smul_vecMulVec_self_mulVec]
  have product : residual H s y ⬝ᵥ y = k * (u ⬝ᵥ y) * (u ⬝ᵥ y) := by
    rw [missed, smul_dotProduct, smul_eq_mul]
  have some : k * (u ⬝ᵥ y) ≠ 0 := left_ne_zero_of_mul (product ▸ nonzero)
  have factor : 1 / (k * (u ⬝ᵥ y) * (u ⬝ᵥ y)) * (k * (u ⬝ᵥ y) * (k * (u ⬝ᵥ y))) = k := by
    have multiple := left_ne_zero_of_mul some
    have along := right_ne_zero_of_mul some
    field_simp
  have square : vecMulVec (residual H s y) (residual H s y) =
      (k * (u ⬝ᵥ y) * (k * (u ⬝ᵥ y))) • vecMulVec u u := by
    rw [missed, smul_vecMulVec, vecMulVec_smul, smul_smul]
  rw [corrected, square, product, smul_smul, factor]

/-- A matrix comes from another one by a multiple of the square of a vector. -/
def DiffersByASquare (H K : Matrix (Fin n) (Fin n) ℝ) : Prop :=
  ∃ (k : ℝ) (u : Fin n → ℝ), K = H + k • vecMulVec u u

/-- The corrected matrix is the only one that differs from the old one by a multiple of a square and maps `y` to
`s`. -/
theorem differsByASquare_and_mulVec_iff (nonzero : residual H s y ⬝ᵥ y ≠ 0)
    (K : Matrix (Fin n) (Fin n) ℝ) : DiffersByASquare H K ∧ K *ᵥ y = s ↔ K = corrected H s y := by
  constructor
  · rintro ⟨⟨k, u, rfl⟩, maps⟩
    exact eq_corrected_of_mulVec nonzero maps
  · rintro rfl
    exact ⟨⟨_, _, rfl⟩, corrected_mulVec_self nonzero⟩

section Calls

variable [NumberText ℝ]

/-- **A correction is the only one of rank one.** Where a call answers that a correction was made for the step `s`
and the change `y`, the solver holds a matrix that maps `y` to `s` and that maps what is orthogonal to the residual
as the old matrix did; among the matrices that differ from the old one by a multiple of a square it is the only
one that maps `y` to `s`. -/
theorem made_correction_is_unique {family : Family} {work after : Workspace (RankOne ℝ) σ}
    (stores : work.solver.Stores family H)
    (made : (update (ofVector family s) (ofVector family y)).outcome work = (.ok true, after)) :
    let v := s - H *ᵥ y
    ∃ H', after.solver.Stores family H' ∧ H' *ᵥ y = s ∧ (∀ z, v ⬝ᵥ z = 0 → H' *ᵥ z = H *ᵥ z) ∧
      ∀ K, DiffersByASquare H K ∧ K *ᵥ y = s ↔ K = H' := by
  obtain ⟨nonzero, stores'⟩ := stores.of_update made
  exact ⟨corrected H s y, stores', corrected_mulVec_self nonzero,
    fun z orthogonal => corrected_mulVec_of_orthogonal orthogonal, differsByASquare_and_mulVec_iff nonzero⟩

end Calls

/-- A solver for two unknowns that holds the identity matrix. -/
noncomputable def unitWork : Workspace (RankOne ℝ) Unit :=
  freshWork .lenient (ofMatrix .lenient (1 : Matrix (Fin 2) (Fin 2) ℝ)) (.secant .usual) ()

theorem unitWork_stores : unitWork.solver.Stores .lenient (1 : Matrix (Fin 2) (Fin 2) ℝ) := ⟨rfl, rfl⟩

/-- The identity misses the first entry of the step `(2, 1)` with the change `(1, 1)`. -/
theorem residual_unit : residual (1 : Matrix (Fin 2) (Fin 2) ℝ) ![2, 1] ![1, 1] = ![1, 0] := by
  rw [residual, one_mulVec]
  ext i
  fin_cases i <;> norm_num

/-- The correction for this step passes the guard. -/
theorem unitWork_corrected : ∃ after,
    (update (ofVector .lenient ![2, 1]) (ofVector .lenient ![1, 1])).outcome unitWork = (.ok true, after) := by
  have tolerance : unitWork.solver.tolerances.denominator = 1e-8 := rfl
  refine unitWork_stores.update_of_passes ?_ ?_
  · rw [residual_unit]
    norm_num [dotProduct, Fin.sum_univ_two]
  · rw [residual_unit, tolerance]
    norm_num [dotProduct, Fin.sum_univ_two]

/-- For instance, the identity is corrected for the step `(2, 1)` and the change `(1, 1)`, and the second unit
vector is orthogonal to the residual. -/
theorem unitWork_corrected_uniquely : ∃ after, ∃ H' : Matrix (Fin 2) (Fin 2) ℝ,
    (update (ofVector .lenient ![2, 1]) (ofVector .lenient ![1, 1])).outcome unitWork = (.ok true, after) ∧
      after.solver.Stores .lenient H' ∧ H' *ᵥ ![1, 1] = ![2, 1] ∧ H' *ᵥ ![0, 1] = ![0, 1] ∧
      ∀ K, DiffersByASquare 1 K ∧ K *ᵥ ![1, 1] = ![2, 1] ↔ K = H' := by
  obtain ⟨after, made⟩ := unitWork_corrected
  obtain ⟨H', stores, maps, keeps, only⟩ := made_correction_is_unique unitWork_stores made
  refine ⟨after, H', made, stores, maps, ?_, only⟩
  have orthogonal : residual (1 : Matrix (Fin 2) (Fin 2) ℝ) ![2, 1] ![1, 1] ⬝ᵥ ![0, 1] = 0 := by
    rw [residual_unit]
    norm_num [dotProduct, Fin.sum_univ_two]
  rw [keeps _ orthogonal, one_mulVec]

end QuasiNewton.RankOne
