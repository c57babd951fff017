import QuasiNewton.Proofs.Exact.Reals

/-!
# Exact arithmetic with infinities

The real numbers together with two infinities and an undefined value: a number system in which operations on
finite numbers are exact, and in which a cost can still fail to be finite. Its operations follow the
floating-point standard, but that there is one zero only, which counts as positive where it divides. A
comparison with the undefined value is false.

Where all operands are finite, each operation is the one of the real numbers; this is what the lemmas of this
module say.
-/

set_option autoImplicit false

namespace QuasiNewton

/-- A real number, or a value that is none. -/
inductive Extended where
  | finite (x : ℝ)
  | infinite (negative : Bool)
  | undefined

namespace Extended

/-- The real number that a value is, and zero where it is none. -/
def toReal : Extended → ℝ
  | finite x => x
  | _ => 0

/-- An infinity times a number that is not zero. -/
noncomputable def scaled (x : ℝ) (negative : Bool) : Extended :=
  if x = 0 then undefined else infinite (negative != decide (x < 0))

/-- One divided by a value. -/
noncomputable def inverse : Extended → Extended
  | finite x => if x = 0 then infinite false else finite x⁻¹
  | infinite _ => finite 0
  | undefined => undefined

noncomputable instance : Add Extended where
  add
    | finite x, finite y => finite (x + y)
    | finite _, infinite n => infinite n
    | infinite n, finite _ => infinite n
    | infinite m, infinite n => if m = n then infinite m else undefined
    | _, _ => undefined

noncomputable instance : Neg Extended where
  neg
    | finite x => finite (-x)
    | infinite n => infinite (!n)
    | undefined => undefined

noncomputable instance : Sub Extended where
  sub
    | finite x, finite y => finite (x - y)
    | a, b => a + -b

noncomputable instance : Mul Extended where
  mul
    | finite x, finite y => finite (x * y)
    | finite x, infinite n => scaled x n
    | infinite n, finite x => scaled x n
    | infinite m, infinite n => infinite (m != n)
    | _, _ => undefined

noncomputable instance : Div Extended where
  div a b := a * b.inverse

instance : LT Extended where
  lt
    | finite x, finite y => x < y
    | finite _, infinite n => n = false
    | infinite n, finite _ => n = true
    | infinite m, infinite n => m = true ∧ n = false
    | _, _ => False

instance : LE Extended where
  le
    | finite x, finite y => x ≤ y
    | finite _, infinite n => n = false
    | infinite n, finite _ => n = true
    | infinite m, infinite n => m = true ∨ n = false
    | _, _ => False

noncomputable instance : BEq Extended where
  beq
    | finite x, finite y => x == y
    | infinite m, infinite n => m == n
    | _, _ => false

noncomputable instance : Scalar Extended where
  zero := finite 0
  one := finite 1
  ofScientific m negative e := finite (OfScientific.ofScientific m negative e)
  ltDecision _ _ := Classical.propDecidable _
  leDecision _ _ := Classical.propDecidable _
  abs
    | finite x => finite |x|
    | infinite _ => infinite false
    | undefined => undefined
  sqrt
    | finite x => if x < 0 then undefined else finite (Real.sqrt x)
    | infinite n => if n then undefined else infinite false
    | undefined => undefined
  isFinite
    | finite _ => true
    | _ => false
  ofInt k := finite k
  truncate
    | finite x => Scalar.truncate x
    | infinite _ => .error .infinite
    | undefined => .error .undefined
  toSingle x := x
  singleOfInt k := finite k

theorem isFinite_iff {a : Extended} : Scalar.isFinite a = true ↔ ∃ x, a = finite x := by
  cases a with
  | finite x => exact ⟨fun _ => ⟨x, rfl⟩, fun _ => rfl⟩
  | infinite n => exact ⟨nofun, nofun⟩
  | undefined => exact ⟨nofun, nofun⟩

section Operations

variable (x y : ℝ)

@[simp] theorem zero_eq : (0 : Extended) = finite 0 := rfl

theorem add_finite : finite x + finite y = finite (x + y) := rfl

theorem mul_finite : finite x * finite y = finite (x * y) := rfl

theorem sub_finite : finite x - finite y = finite (x - y) := rfl

theorem div_finite (h : y ≠ 0) : finite x / finite y = finite (x / y) := by
  have inverted : (finite y).inverse = finite y⁻¹ := if_neg h
  change finite x * (finite y).inverse = _
  rw [inverted, mul_finite, div_eq_mul_inv]

@[simp] theorem lt_finite : finite x < finite y ↔ x < y := Iff.rfl

@[simp] theorem le_finite : finite x ≤ finite y ↔ x ≤ y := Iff.rfl

end Operations

end Extended

end QuasiNewton
