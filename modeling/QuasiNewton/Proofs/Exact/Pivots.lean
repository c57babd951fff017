import Mathlib.Algebra.Order.Star.Real
import Mathlib.Analysis.Matrix.PosDef
import QuasiNewton.Proofs.Exact.Vectors

/-!
# Pivots, forms and eigenvalues

Whether a matrix is definite is decided by elimination. Each step of it completes a square of the form `x · M x`
(`form_cons`): the first pivot is the factor of the square, and what is left is the form of the remainder. So the
pivots of a symmetric matrix are all positive exactly if the matrix is positive definite (`positivePivots_iff`).

The test asks this of the symmetric part of a matrix after the tolerance has been taken off the diagonal. The
symmetric part has the form of the whole matrix, and by the spectral theorem all its eigenvalues exceed the tolerance
exactly if the form exceeds the tolerance times `x · x` at every vector but zero.
-/

set_option autoImplicit false

namespace QuasiNewton

open Matrix
open scoped Pointwise

variable {n : ℕ}

namespace Exact

/-! ### Forms -/

theorem posDef_iff_real {m : Matrix (Fin n) (Fin n) ℝ} :
    m.PosDef ↔ m.IsSymm ∧ ∀ x, x ≠ 0 → 0 < x ⬝ᵥ m *ᵥ x := by
  rw [posDef_iff_dotProduct_mulVec, isHermitian_iff_isSymm]
  rfl

/-- The symmetric part of a matrix. -/
noncomputable def symmetricPart (m : Matrix (Fin n) (Fin n) ℝ) : Matrix (Fin n) (Fin n) ℝ :=
  (0.5 : ℝ) • (m + mᵀ)

theorem symmetricPart_isSymm (m : Matrix (Fin n) (Fin n) ℝ) : (symmetricPart m).IsSymm :=
  (isSymm_add_transpose_self m).smul _

/-- A matrix and its symmetric part have one form. -/
theorem form_symmetricPart (m : Matrix (Fin n) (Fin n) ℝ) (x : Fin n → ℝ) :
    x ⬝ᵥ symmetricPart m *ᵥ x = x ⬝ᵥ m *ᵥ x := by
  have transposed : x ⬝ᵥ mᵀ *ᵥ x = x ⬝ᵥ m *ᵥ x := by
    rw [mulVec_transpose, dotProduct_comm, ← dotProduct_mulVec]
  rw [symmetricPart, smul_mulVec, add_mulVec, dotProduct_smul, dotProduct_add, transposed, smul_eq_mul]
  ring

theorem form_sub_smul_one (m : Matrix (Fin n) (Fin n) ℝ) (tolerance : ℝ) (x : Fin n → ℝ) :
    x ⬝ᵥ (m - tolerance • 1) *ᵥ x = x ⬝ᵥ m *ᵥ x - tolerance * (x ⬝ᵥ x) := by
  rw [sub_mulVec, smul_mulVec, one_mulVec, dotProduct_sub, dotProduct_smul, smul_eq_mul]

theorem isSymm_sub_smul_one {m : Matrix (Fin n) (Fin n) ℝ} (symm : m.IsSymm) (tolerance : ℝ) :
    (m - tolerance • 1 : Matrix (Fin n) (Fin n) ℝ).IsSymm :=
  symm.sub (isSymm_one.smul tolerance)

/-! ### Elimination -/

section Elimination

/-- What elimination leaves of a matrix behind its first row and column. -/
noncomputable def remainder (m : Matrix (Fin (n + 1)) (Fin (n + 1)) ℝ) : Matrix (Fin n) (Fin n) ℝ :=
  m.submatrix Fin.succ Fin.succ -
    (vecHead (vecHead m))⁻¹ • vecMulVec (fun i => vecHead (m i.succ)) (vecTail (vecHead m))

theorem remainder_eq (m : Matrix (Fin (n + 1)) (Fin (n + 1)) ℝ) :
    remainder m = m.submatrix Fin.succ Fin.succ -
      (m 0 0)⁻¹ • vecMulVec (fun i => m i.succ 0) fun j => m 0 j.succ := rfl

variable {m : Matrix (Fin (n + 1)) (Fin (n + 1)) ℝ}

theorem remainder_isSymm (symm : m.IsSymm) : (remainder m).IsSymm := by
  refine IsSymm.ext fun i j => ?_
  simp only [remainder_eq, Matrix.sub_apply, submatrix_apply, Matrix.smul_apply, vecMulVec_apply, smul_eq_mul]
  rw [symm.apply i.succ j.succ, symm.apply 0 j.succ, ← symm.apply 0 i.succ, mul_comm (m 0 j.succ)]

/-- **The square is completed.** At a vector that starts with `t` the form is a multiple of a square and the form of
the remainder at the rest of the vector. -/
theorem form_cons (symm : m.IsSymm) (pivot : m 0 0 ≠ 0) (t : ℝ) (y : Fin n → ℝ) :
    vecCons t y ⬝ᵥ m *ᵥ vecCons t y =
      m 0 0 * (t + (fun j => m 0 j.succ) ⬝ᵥ y / m 0 0) ^ 2 + y ⬝ᵥ remainder m *ᵥ y := by
  set row : Fin n → ℝ := fun j => m 0 j.succ
  have column : (fun i : Fin n => m i.succ 0) = row := funext fun i => symm.apply _ _
  have product : m *ᵥ vecCons t y =
      vecCons (m 0 0 * t + row ⬝ᵥ y) (t • row + m.submatrix Fin.succ Fin.succ *ᵥ y) := by
    funext i
    refine Fin.cases ?_ (fun i => ?_) i
    · simp [mulVec, dotProduct, Fin.sum_univ_succ, row]
    · simp [mulVec, dotProduct, Fin.sum_univ_succ, ← column, mul_comm]
  have rest : y ⬝ᵥ remainder m *ᵥ y =
      y ⬝ᵥ m.submatrix Fin.succ Fin.succ *ᵥ y - (m 0 0)⁻¹ * (row ⬝ᵥ y) ^ 2 := by
    rw [remainder_eq, column, sub_mulVec, smul_mulVec, vecMulVec_mulVec, dotProduct_sub, dotProduct_smul,
      op_smul_eq_smul, dotProduct_smul, dotProduct_comm y row, smul_eq_mul, smul_eq_mul, ← sq]
  rw [product, rest, cons_dotProduct_cons, dotProduct_add, dotProduct_smul, dotProduct_comm y row, smul_eq_mul]
  field_simp
  ring

/-- A matrix is positive definite if and only if its first pivot is positive and its remainder is positive
definite. -/
theorem posDef_iff_remainder (symm : m.IsSymm) : m.PosDef ↔ 0 < m 0 0 ∧ (remainder m).PosDef := by
  constructor
  · intro definite
    have pivot : 0 < m 0 0 := definite.diag_pos
    refine ⟨pivot, posDef_iff_real.mpr ⟨remainder_isSymm symm, fun y moves => ?_⟩⟩
    -- the first entry is chosen such that the square vanishes
    have form := form_cons symm pivot.ne' (-((fun j => m 0 j.succ) ⬝ᵥ y / m 0 0)) y
    rw [neg_add_cancel, zero_pow two_ne_zero, mul_zero, zero_add] at form
    rw [← form]
    refine (posDef_iff_real.mp definite).2 _ fun none => moves ?_
    exact congrArg vecTail none
  · rintro ⟨pivot, definite⟩
    refine posDef_iff_real.mpr ⟨symm, fun x moves => ?_⟩
    obtain ⟨t, y, rfl⟩ : ∃ t y, x = vecCons t y := ⟨vecHead x, vecTail x, (cons_head_tail x).symm⟩
    rw [form_cons symm pivot.ne']
    by_cases rest : y = 0
    · subst rest
      have start : t ≠ 0 := fun none => moves (by rw [none]; exact cons_zero_zero)
      rw [dotProduct_zero, zero_div, add_zero, zero_dotProduct, add_zero]
      exact mul_pos pivot (by positivity)
    · exact add_pos_of_nonneg_of_pos (by positivity) ((posDef_iff_real.mp definite).2 y rest)

/-- The matrix with the given rows. -/
def ofRows (rows : Vector (Vector ℝ n) n) : Matrix (Fin n) (Fin n) ℝ := fun i j => (rows.get i).get j

theorem ofRows_ofFn (f : Fin n → Fin n → ℝ) :
    ofRows (Vector.ofFn fun i => Vector.ofFn fun j => f i j) = f := by
  funext i j
  simp only [ofRows, Dense.get_ofFn]

theorem ofRows_eliminate (rows : Vector (Vector ℝ (n + 1)) (n + 1)) :
    ofRows (Dense.eliminate rows) = remainder (ofRows rows) := by
  rw [Dense.eliminate, ofRows_ofFn fun i j => _]
  funext i j
  simp only [remainder_eq, Matrix.sub_apply, submatrix_apply, Matrix.smul_apply, vecMulVec_apply, smul_eq_mul, ofRows]
  ring

/-- **Of the symmetric matrices it is the positive definite ones in which elimination meets only positive pivots.**
The induction is on the number of rows. -/
theorem positivePivots_iff {rows : Vector (Vector ℝ n) n} (symm : (ofRows rows).IsSymm) :
    Dense.positivePivots n rows = true ↔ (ofRows rows).PosDef := by
  induction n with
  | zero =>
    refine iff_of_true rfl (posDef_iff_real.mpr ⟨symm, fun x moves => ?_⟩)
    exact absurd (Subsingleton.elim x 0) moves
  | succ n ih =>
    have left : (ofRows (Dense.eliminate rows)).IsSymm := by
      rw [ofRows_eliminate]
      exact remainder_isSymm symm
    rw [posDef_iff_remainder symm, ← ofRows_eliminate, ← ih left, Dense.positivePivots, Bool.and_eq_true,
      decide_eq_true_eq]
    rfl

end Elimination

/-! ### Eigenvalues -/

/-- A symmetric matrix with a number taken off its diagonal is positive definite if and only if all eigenvalues of
the matrix exceed the number. -/
theorem posDef_sub_smul_one_iff {m : Matrix (Fin n) (Fin n) ℝ} (symm : m.IsSymm) (tolerance : ℝ) :
    (m - tolerance • 1 : Matrix (Fin n) (Fin n) ℝ).PosDef ↔
      ∀ μ, Module.End.HasEigenvalue (toLin' m) μ → tolerance < μ := by
  have hermitian : (m - tolerance • 1 : Matrix (Fin n) (Fin n) ℝ).IsHermitian :=
    isHermitian_iff_isSymm.mpr (isSymm_sub_smul_one symm tolerance)
  have shifted : spectrum ℝ (m - tolerance • 1 : Matrix (Fin n) (Fin n) ℝ) = spectrum ℝ m - {tolerance} := by
    rw [spectrum.sub_singleton_eq, Algebra.algebraMap_eq_smul_one]
  rw [hermitian.posDef_iff_eigenvalues_pos, ← Set.forall_mem_range,
    ← hermitian.spectrum_real_eq_range_eigenvalues, shifted]
  simp only [Module.End.hasEigenvalue_iff_mem_spectrum, spectrum_toLin']
  simp

end Exact

open Exact

namespace Tensor

variable {t : Tensor ℝ} {m : Matrix (Fin n) (Fin n) ℝ}

/-- The test for definiteness always answers for a square matrix: whether its symmetric part is positive definite
with the tolerance taken off the diagonal. -/
theorem isDefinite_answers (holds : t.values = .matrix fun i j => m i j) (tolerance : ℝ) :
    ∃ answer, t.isDefinite tolerance = .ok answer ∧
      (answer = true ↔ (symmetricPart m - tolerance • 1 : Matrix (Fin n) (Fin n) ℝ).PosDef) := by
  refine ⟨_, isDefinite_of_values holds tolerance, ?_⟩
  set rows : Vector (Vector ℝ n) n := Vector.ofFn fun i => Vector.ofFn fun j =>
    let entry := 0.5 * (m i j + m j i)
    if i = j then entry - tolerance else entry
  have tested : ofRows rows = symmetricPart m - tolerance • 1 := by
    rw [ofRows_ofFn fun i j => _]
    funext i j
    have half : 0.5 * (m i j + m j i) = symmetricPart m i j := rfl
    simp only [half, Matrix.sub_apply, Matrix.smul_apply, one_apply]
    split <;> simp
  rw [← tested]
  exact positivePivots_iff (tested ▸ isSymm_sub_smul_one (symmetricPart_isSymm m) tolerance)

/-- **The test for definiteness compares the form of a matrix with a multiple of `x · x`.** Given any routine that
lists the eigenvalues of symmetric matrices, the test of a square matrix, be it symmetric or not, and whatever it is
stored as, answers whether all eigenvalues of the symmetric part exceed the tolerance. This is so if and only if
`x · M x` exceeds the tolerance times `x · x` for all vectors but zero. -/
theorem isDefinite_iff_form_exceeds {eigenvalues : Matrix (Fin n) (Fin n) ℝ → List ℝ}
    (complete : ∀ s : Matrix (Fin n) (Fin n) ℝ, s.IsSymm →
      ∀ μ, μ ∈ eigenvalues s ↔ Module.End.HasEigenvalue (toLin' s) μ)
    (holds : t.values = .matrix fun i j => m i j) (tolerance : ℝ) :
    t.isDefinite tolerance = .ok ((eigenvalues (symmetricPart m)).all fun μ => decide (tolerance < μ)) ∧
      (t.isDefinite tolerance = .ok true ↔ ∀ x, x ≠ 0 → tolerance * (x ⬝ᵥ x) < x ⬝ᵥ m *ᵥ x) := by
  have symm := symmetricPart_isSymm m
  obtain ⟨answer, answered, definite⟩ := isDefinite_answers holds tolerance
  rw [answered]
  constructor
  · refine congrArg Except.ok (Bool.eq_iff_iff.mpr ?_)
    rw [definite, posDef_sub_smul_one_iff symm, List.all_eq_true]
    simp only [complete _ symm, decide_eq_true_eq]
  · rw [Except.ok.injEq, definite, posDef_iff_real, and_iff_right (isSymm_sub_smul_one symm tolerance)]
    simp only [form_sub_smul_one, form_symmetricPart, sub_pos]

/-- The roots of the characteristic polynomial, each as often as it is one. -/
noncomputable def characteristicRoots (m : Matrix (Fin n) (Fin n) ℝ) : List ℝ := m.charpoly.roots.toList

theorem mem_characteristicRoots (μ : ℝ) :
    μ ∈ characteristicRoots m ↔ Module.End.HasEigenvalue (toLin' m) μ := by
  rw [characteristicRoots, Multiset.mem_toList, Polynomial.mem_roots m.charpoly_monic.ne_zero,
    ← mem_spectrum_iff_isRoot_charpoly, Module.End.hasEigenvalue_iff_mem_spectrum, spectrum_toLin']

/-- A shear, of which one is the only eigenvalue. -/
def shear (k : ℝ) : Matrix (Fin 2) (Fin 2) ℝ := !![1, k; 0, 1]

theorem form_shear (k : ℝ) (x : Fin 2 → ℝ) : x ⬝ᵥ shear k *ᵥ x = x 0 ^ 2 + k * x 0 * x 1 + x 1 ^ 2 := by
  simp only [shear, mulVec, dotProduct, Fin.sum_univ_two, of_apply, cons_val', cons_val_zero, cons_val_one,
    cons_val_fin_one]
  ring

/-- The symmetric part of a shear can have a negative eigenvalue, here minus one. -/
theorem shear_definiteness :
    (∀ s : Matrix (Fin 2) (Fin 2) ℝ, s.IsSymm →
      ∀ μ, μ ∈ characteristicRoots s ↔ Module.End.HasEigenvalue (toLin' s) μ) ∧
    (ofMatrix .lenient (shear 4)).isDefinite 0 = .ok false ∧
    (ofMatrix .strict (shear 4)).isDefinite (-2) = .ok true := by
  have complete : ∀ s : Matrix (Fin 2) (Fin 2) ℝ, s.IsSymm →
      ∀ μ, μ ∈ characteristicRoots s ↔ Module.End.HasEigenvalue (toLin' s) μ :=
    fun _ _ => mem_characteristicRoots
  refine ⟨complete, ?_, ?_⟩
  · obtain ⟨answered, exceeds⟩ := isDefinite_iff_form_exceeds complete (values_ofMatrix .lenient (shear 4)) 0
    rw [answered] at exceeds ⊢
    refine congrArg Except.ok (Bool.eq_false_iff.mpr fun positive => ?_)
    have form := exceeds.mp (congrArg Except.ok positive) ![1, -1] (by simp)
    rw [form_shear] at form
    norm_num at form
  · obtain ⟨-, exceeds⟩ := isDefinite_iff_form_exceeds complete (values_ofMatrix .strict (shear 4)) (-2)
    refine exceeds.mpr fun x moves => ?_
    have size : 0 < x 0 * x 0 + x 1 * x 1 := by
      rw [← Fin.sum_univ_two fun i => x i * x i]
      exact dotProduct_star_self_pos_iff.mpr moves
    rw [form_shear, dotProduct, Fin.sum_univ_two]
    nlinarith [sq_nonneg (x 0 + x 1)]

end Tensor

end QuasiNewton
