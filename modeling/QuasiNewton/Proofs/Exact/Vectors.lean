import Mathlib.LinearAlgebra.Matrix.Symmetric
import QuasiNewton.Proofs.Exact.Arrays
import QuasiNewton.Proofs.Exact.Reals

/-!
# Vectors and matrices as arrays

An array of double precision with one axis is a vector, and one with two axes of one length is a square
matrix. In exact arithmetic the operations of both families are the operations of linear algebra:
`Tensor.ofVector` and `Tensor.ofMatrix` turn one into the other, and each operation of the library has
one lemma here. Later proofs see arrays through these lemmas only.
-/

set_option autoImplicit false

namespace QuasiNewton

open Matrix

variable {n : ℕ}

theorem Exact.mulVec_dotProduct {m : Matrix (Fin n) (Fin n) ℝ} (symm : m.IsSymm) (x y : Fin n → ℝ) :
    m *ᵥ x ⬝ᵥ y = x ⬝ᵥ m *ᵥ y := by
  rw [dotProduct_mulVec, ← mulVec_transpose, symm.eq]

namespace Tensor

/-- The array of a family that holds numbers of double precision. -/
def ofDense (family : Family) (xs : Dense ℝ) : Tensor ℝ := ⟨some family, .real .double xs⟩

/-- The array of a family that holds a vector. -/
def ofVector (family : Family) (x : Fin n → ℝ) : Tensor ℝ := ofDense family (.ofFn x)

/-- The array of a family that holds a square matrix. -/
def ofMatrix (family : Family) (m : Matrix (Fin n) (Fin n) ℝ) : Tensor ℝ :=
  ofDense family (.matrix fun i j => m i j)

/-- The first `n` entries of an array. -/
noncomputable def toVector (n : ℕ) (t : Tensor ℝ) : Fin n → ℝ := fun i => t.values.getD i 0

/-- The first `n` rows of `n` entries of an array. -/
noncomputable def toMatrix (n : ℕ) (t : Tensor ℝ) : Matrix (Fin n) (Fin n) ℝ :=
  fun i j => t.values.getD (Shape.cell i j) 0

variable (family : Family) (x y : Fin n → ℝ) (m k : Matrix (Fin n) (Fin n) ℝ)

@[simp] theorem shape_ofVector : (ofVector family x).shape = .ok [n] := rfl

@[simp] theorem length_ofVector : (ofVector family x).length = .ok n := rfl

@[simp] theorem values_ofVector : (ofVector family x).values = .ofFn x := rfl

@[simp] theorem values_ofMatrix : (ofMatrix family m).values = .matrix fun i j => m i j := rfl

@[simp] theorem toVector_ofVector : (ofVector family x).toVector n = x :=
  funext fun i => Dense.getD_ofFn x i 0

@[simp] theorem toMatrix_ofMatrix : (ofMatrix family m).toMatrix n = m :=
  funext fun i => funext fun j => Dense.getD_matrix m i j 0

@[simp] theorem sub_ofVector :
    (ofVector family x).sub (ofVector family y) = .ok (ofVector family (x - y)) :=
  sub_double family x y

@[simp] theorem add_ofMatrix :
    (ofMatrix family m).add (ofMatrix family k) = .ok (ofMatrix family (m + k)) :=
  addMatrix_double family m k

@[simp] theorem scale_ofVector (c : ℝ) :
    (ofVector family x).scale (.real c) = .ok (ofVector family (c • x)) :=
  scaleVector_double family x c

@[simp] theorem scale_ofMatrix (c : ℝ) :
    (ofMatrix family m).scale (.real c) = .ok (ofMatrix family (c • m)) :=
  scaleMatrix_double family m c

theorem mul_ofMatrix :
    (ofMatrix family m).mul (ofVector family x) = .ok (ofVector family (m *ᵥ x)) := by
  have multiplied := mul_double family x m
  simp only [Exact.sum_eq] at multiplied
  exact multiplied

theorem isDefinite_ofMatrix (tolerance : ℝ) :
    ∃ answer, (ofMatrix family m).isDefinite tolerance = .ok answer :=
  ⟨_, isDefinite_of_values (values_ofMatrix family m) tolerance⟩

end Tensor

namespace Family

open Tensor

variable (family : Family) (x y : Fin n → ℝ) (m : Matrix (Fin n) (Fin n) ℝ)

@[simp] theorem ofTensor_ofVector : ofTensor (ofVector family x) = .ok family :=
  ofTensor_double family _

@[simp] theorem copy_ofVector : family.copy (ofVector family x) = .ok (ofVector family x) :=
  copy_double family _

@[simp] theorem adopt_ofFn : family.adopt (.ofFn y) (ofVector family x) = ofVector family y :=
  adopt_double family _ _

@[simp] theorem allFinite_ofVector : family.allFinite (ofVector family x) = .ok true := by
  cases family <;> simp [allFinite, ofVector, ofDense, Dense.all]

/-- The inner product of two lists of entries is that of linear algebra. -/
theorem dot_entries : (Arithmetic.real .double).dot (Vector.ofFn x) (Vector.ofFn y) = x ⬝ᵥ y := by
  simp only [Arithmetic.dot, Dense.get_ofFn]
  exact Exact.sum_eq .double _

@[simp] theorem dot_ofVector :
    family.dot (ofVector family x) (ofVector family y) = .ok (x ⬝ᵥ y) :=
  (dot_double family x y).trans (congrArg _ (dot_entries x y))

@[simp] theorem outer_ofVector :
    family.outer (ofVector family x) (ofVector family y) = .ok (ofMatrix family (vecMulVec x y)) :=
  outer_double family x y

@[simp] theorem mulVec_ofMatrix :
    family.mulVec (ofMatrix family m) (ofVector family x) = .ok (ofVector family (m *ᵥ x)) := by
  rw [mulVec, mul_ofMatrix]
  cases family <;> rfl

@[simp] theorem norm_ofVector : family.norm (ofVector family x) = .ok (Real.sqrt (x ⬝ᵥ x)) := by
  rw [← dot_entries]
  exact norm_double family (.ofFn x)

@[simp] theorem scaledAdd_ofVector (c : ℝ) :
    family.scaledAdd (ofVector family x) (.real c) (ofVector family y) =
      .ok (ofVector family (x + c • y)) :=
  scaledAdd_double family x y c

end Family

end QuasiNewton
