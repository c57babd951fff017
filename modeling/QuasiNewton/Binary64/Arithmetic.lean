import QuasiNewton.Scalar
import QuasiNewton.Binary64.Reading

/-!
# Double precision as a number system

The binary floating-point numbers, with the comparisons of the floating-point standard: `<`, `≤` and
`==` are false as soon as one side is undefined, and the two zeros are equal.
-/

set_option autoImplicit false

namespace QuasiNewton.Binary64

/-- The integer next to a double-precision number on the side of zero. -/
def truncate (x : Float) : Except NoCount Int :=
  match Reading.of x with
  | .undefined => .error .undefined
  | .infinite _ => .error .infinite
  | .finite negative mantissa exponent =>
    let magnitude : Int := wholePart mantissa exponent
    .ok (if negative then -magnitude else magnitude)

instance : Scalar Float where
  ltDecision := inferInstance
  leDecision := inferInstance
  abs := Float.abs
  sqrt := Float.sqrt
  isFinite := Float.isFinite
  ofInt := Float.ofInt
  truncate := truncate
  toSingle x := x.toFloat32.toFloat
  singleOfInt k := (Float32.ofInt k).toFloat

end QuasiNewton.Binary64
