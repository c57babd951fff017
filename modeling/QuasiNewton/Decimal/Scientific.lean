import QuasiNewton.Decimal.Rounding

/-!
# A fixed number of significant digits

`scientific` rounds a positive ratio to a given number of significant decimal digits, a tie going to
the even neighbour. A carry out of the leading digit moves the decimal place up by one.
-/

set_option autoImplicit false

namespace QuasiNewton.Decimal

/-- Significant digits, read as one natural number, and the decimal place of the first of them. -/
structure Significand where
  digits : Nat
  /-- The power of ten that the first digit counts. -/
  place : Int
deriving DecidableEq, Repr

/-- A positive ratio rounded to `count` significant digits. -/
def scientific (count : Nat) (r : Ratio) : Significand :=
  let place := r.leadingPlace
  let scaled := r.shift ((count : Int) - 1 - place)
  let digits := roundToEven scaled.numerator scaled.denominator
  if digits = Nat.pow 10 count then ⟨Nat.pow 10 (count - 1), place + 1⟩ else ⟨digits, place⟩

example : scientific 3 ⟨1, 8⟩ = ⟨125, -1⟩ := by decide +kernel

example : scientific 2 ⟨1, 8⟩ = ⟨12, -1⟩ := by decide +kernel

example : scientific 2 ⟨9996, 1⟩ = ⟨10, 4⟩ := by decide +kernel

end QuasiNewton.Decimal
