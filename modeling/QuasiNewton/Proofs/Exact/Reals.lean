import Mathlib.Analysis.SpecialFunctions.Pow.Real
import QuasiNewton.Decimal.Text
import QuasiNewton.Dense.Arithmetic
import QuasiNewton.Setting

/-!
# Exact arithmetic

The real numbers as a number system: every operation is exact, every number is finite, and both
precisions keep all numbers. What is proved of the method over this number system is what the method
does before any rounding.
-/

set_option autoImplicit false

namespace QuasiNewton

noncomputable instance : Scalar ℝ where
  ltDecision _ _ := Classical.propDecidable _
  leDecision _ _ := Classical.propDecidable _
  abs x := |x|
  sqrt := Real.sqrt
  isFinite _ := true
  ofInt k := k
  truncate x := .ok (if 0 ≤ x then ⌊x⌋ else ⌈x⌉)
  toSingle x := x
  singleOfInt k := k

/-- What messages say of an exact number is the integer below it. -/
noncomputable instance : Decimal.NumberText ℝ where
  scientific _ x := toString ⌊x⌋
  shortest x := toString ⌊x⌋

namespace Exact

@[simp] theorem abs_eq (x : ℝ) : Scalar.abs x = |x| := rfl

@[simp] theorem sqrt_eq (x : ℝ) : Scalar.sqrt x = Real.sqrt x := rfl

@[simp] theorem isFinite_eq (x : ℝ) : Scalar.isFinite x = true := rfl

@[simp] theorem ofInt_eq (k : ℤ) : (Scalar.ofInt k : ℝ) = k := rfl

@[simp] theorem round_eq (p : Precision) (x : ℝ) : p.round x = x := by cases p <;> rfl

/-- The sum of finitely many entries from left to right is their sum. -/
@[simp] theorem sum_eq (p : Precision) {n : ℕ} (f : Fin n → ℝ) :
    (Arithmetic.real p).sum f = ∑ i, f i := by
  induction n with
  | zero => simp [Arithmetic.real]
  | succ n ih =>
    rw [Arithmetic.sum_succ, ih, Fin.sum_univ_castSucc]
    simp [Arithmetic.real]

theorem countOf_of_nonneg {x : ℝ} (h : 0 ≤ x) : (countOf x : Except (Fault ℝ) ℕ) = .ok ⌊x⌋₊ := by
  have truncated : (Scalar.truncate x : Except NoCount ℤ) = .ok ⌊x⌋ := congrArg Except.ok (if_pos h)
  rw [countOf, truncated, ← Int.floor_toNat]

end Exact

end QuasiNewton
