/-!
# Number systems

The method is written once, for every number system with field operations, order tests, absolute
value and square root. `Scalar` lists what it asks of one. Order tests are propositions with a
decision procedure, so that a comparison with an undefined value is simply false. A number system
without infinities and undefined values satisfies `Scalar` with `isFinite` constantly true.
-/

set_option autoImplicit false

namespace QuasiNewton

/-- Why a number does not stand for a count. -/
inductive NoCount where
  | undefined
  | infinite
deriving DecidableEq, Repr

/-- A number system in which the method computes. -/
class Scalar (α : Type) extends Add α, Sub α, Mul α, Div α, Neg α, Zero α, One α, LT α, LE α, BEq α,
    OfScientific α where
  ltDecision (a b : α) : Decidable (a < b)
  leDecision (a b : α) : Decidable (a ≤ b)
  abs : α → α
  sqrt : α → α
  /-- Whether a number is neither infinite nor undefined. -/
  isFinite : α → Bool
  /-- The number an integer stands for, rounded if it has to be. -/
  ofInt : Int → α
  /-- The integer next to a number on the side of zero. -/
  truncate : α → Except NoCount Int
  /-- The number rounded to single precision; exact number systems keep it. -/
  toSingle : α → α
  /-- The number of single precision that an integer stands for, rounded once if it has to be; exact
  number systems keep the integer. -/
  singleOfInt : Int → α

variable {α : Type} [Scalar α]

instance decidableLt (a b : α) : Decidable (a < b) := Scalar.ltDecision a b

instance decidableLe (a b : α) : Decidable (a ≤ b) := Scalar.leDecision a b

namespace Scalar

/-- The distance from one to the next number of double precision. -/
def epsilon : α := 1 / ofInt (Int.pow 2 52)

/-- The square root of the distance from one to the next number of double precision. -/
def rootEpsilon : α := 1 / ofInt (Int.pow 2 26)

/-- The largest finite number of single precision. -/
def largestSingle : α := ofInt (Int.pow 2 128 - Int.pow 2 104)

end Scalar

end QuasiNewton
