/-!
# Rounding ratios

A positive number is given as a ratio of natural numbers. This module rounds one to the nearest
integer, a tie going to the even neighbour, and finds the decimal place of its leading digit. Nothing
here leaves the natural numbers, so nothing is rounded twice.
-/

set_option autoImplicit false

namespace QuasiNewton.Decimal

/-- The integer nearest to `numerator / denominator`; a tie goes to the even neighbour. -/
def roundToEven (numerator denominator : Nat) : Nat :=
  let quotient := numerator / denominator
  let rest := numerator % denominator
  if 2 * rest < denominator then quotient
  else if denominator < 2 * rest then quotient + 1
  else if quotient % 2 = 0 then quotient else quotient + 1

/-- Rounding is to within half a unit. -/
theorem roundToEven_near (numerator denominator : Nat) (h : 0 < denominator) :
    2 * (roundToEven numerator denominator * denominator) ≤ 2 * numerator + denominator ∧
      2 * numerator ≤ 2 * (roundToEven numerator denominator * denominator) + denominator := by
  have split := Nat.div_add_mod numerator denominator
  have small := Nat.mod_lt numerator h
  rw [Nat.mul_comm] at split
  simp only [roundToEven]
  split
  · omega
  · split
    · rw [Nat.add_mul]; omega
    · split
      · omega
      · rw [Nat.add_mul]; omega

/-- A ratio of natural numbers times a power of ten, with the power moved to the side where it is
natural. -/
structure Ratio where
  numerator : Nat
  denominator : Nat
deriving DecidableEq, Repr

namespace Ratio

/-- The number `mantissa · 2 ^ exponent` as a ratio. -/
def ofBinary (mantissa : Nat) (exponent : Int) : Ratio :=
  if 0 ≤ exponent then ⟨mantissa * Nat.pow 2 exponent.toNat, 1⟩
  else ⟨mantissa, Nat.pow 2 (-exponent).toNat⟩

/-- The ratio times `10 ^ power`. -/
def shift (r : Ratio) (power : Int) : Ratio :=
  if 0 ≤ power then ⟨r.numerator * Nat.pow 10 power.toNat, r.denominator⟩
  else ⟨r.numerator, r.denominator * Nat.pow 10 (-power).toNat⟩

/-- How many decimal digits a natural number has. -/
def digitCount (n : Nat) : Nat := (Nat.toDigits 10 n).length

/-- The exponent `e` with `10 ^ e ≤ r < 10 ^ (e + 1)`, for a positive ratio `r`: the digit counts
of the two parts leave two candidates, and one comparison decides between them. -/
def leadingPlace (r : Ratio) : Int :=
  let guess : Int := (digitCount r.numerator : Int) - digitCount r.denominator
  let scaled := r.shift (-guess)
  if scaled.denominator ≤ scaled.numerator then guess else guess - 1

end Ratio

example : roundToEven 5 2 = 2 ∧ roundToEven 7 2 = 4 ∧ roundToEven 8 3 = 3 := by decide

end QuasiNewton.Decimal
