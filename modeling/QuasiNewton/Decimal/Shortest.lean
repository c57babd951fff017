import QuasiNewton.Binary64.Reading
import QuasiNewton.Decimal.Scientific

/-!
# The fewest digits that read back

A binary number owns the interval of reals that round to it. `shortest` looks for the first count of
significant digits at which one of the number's two neighbours on that decimal grid lies in the
interval; of two such neighbours it takes the nearer one. Seventeen digits always suffice.
-/

set_option autoImplicit false

namespace QuasiNewton.Decimal

/-- The reals that round to one binary number, in units of a quarter of its last place: `low` and
`high` over the common denominator of `value`, with the ends included or not. -/
structure Neighbourhood where
  value : Ratio
  low : Nat
  high : Nat
  /-- Whether the ends round to the number as well. -/
  closed : Bool
deriving Repr

namespace Neighbourhood

/-- The neighbourhood of `mantissa · 2 ^ exponent`: half a unit in the last place on both sides, and
a quarter below where the next smaller number is closer. The ends belong to it when the mantissa is
even. -/
def ofBinary (mantissa : Nat) (exponent : Int) : Neighbourhood :=
  let unit := Ratio.ofBinary 1 (exponent - 2)
  let narrow := mantissa = Nat.pow 2 52 ∧ -1074 < exponent
  { value := ⟨4 * mantissa * unit.numerator, unit.denominator⟩
    low := (4 * mantissa - (if narrow then 1 else 2)) * unit.numerator
    high := (4 * mantissa + 2) * unit.numerator
    closed := mantissa % 2 = 0 }

/-- Whether `digits · 10 ^ power` rounds to the number. -/
def holds (n : Neighbourhood) (digits : Nat) (power : Int) : Bool :=
  let point := Ratio.shift ⟨digits * n.value.denominator, 1⟩ power
  let low := n.low * point.denominator
  let high := n.high * point.denominator
  if n.closed then low ≤ point.numerator ∧ point.numerator ≤ high
  else low < point.numerator ∧ point.numerator < high

/-- The neighbour on the grid of `count` significant digits that reads back as the number, the nearer
one if both do. -/
def onGrid (n : Neighbourhood) (count : Nat) : Option Significand :=
  let place := n.value.leadingPlace
  let power := place - ((count : Int) - 1)
  let scaled := n.value.shift (-power)
  let below := scaled.numerator / scaled.denominator
  let nearer := roundToEven scaled.numerator scaled.denominator
  let farther := if nearer = below then below + 1 else below
  let normal (digits : Nat) : Significand :=
    if digits = Nat.pow 10 count then ⟨Nat.pow 10 (count - 1), place + 1⟩ else ⟨digits, place⟩
  if n.holds nearer power then some (normal nearer)
  else if n.holds farther power then some (normal farther)
  else none

end Neighbourhood

/-- The digit counts that are tried, the fewest first. -/
def digitCounts : List Nat := (List.range 17).map (· + 1)

/-- The digits of the positive number `mantissa · 2 ^ exponent`: the fewest that read back, with
their count. -/
def shortest (mantissa : Nat) (exponent : Int) : Nat × Significand :=
  let n := Neighbourhood.ofBinary mantissa exponent
  let found := digitCounts.findSome? fun count => (n.onGrid count).map fun s => (count, s)
  found.getD (17, scientific 17 n.value)

example : shortest 1 (-1074) = (1, ⟨5, -324⟩) := by decide +kernel

example : shortest 7205759403792794 (-56) = (1, ⟨1, -1⟩) := by decide +kernel

end QuasiNewton.Decimal
