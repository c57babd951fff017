/-!
# Reading binary floating-point numbers

A double-precision word is a sign, eleven exponent bits and fifty-two fraction bits. `Reading.of`
takes it apart: a finite number is `mantissa · 2 ^ exponent` with a natural mantissa, which makes
every later question about its decimal digits or its integer part one about natural numbers.
-/

set_option autoImplicit false

namespace QuasiNewton.Binary64

/-- What a double-precision word says. -/
inductive Reading where
  | undefined
  | infinite (negative : Bool)
  /-- The number `± mantissa · 2 ^ exponent`. -/
  | finite (negative : Bool) (mantissa : Nat) (exponent : Int)
deriving DecidableEq, Repr

/-- The sign bit of a word. -/
def signBit (word : Nat) : Bool := word / Nat.pow 2 63 % 2 == 1

/-- The exponent bits of a word. -/
def exponentBits (word : Nat) : Nat := word / Nat.pow 2 52 % Nat.pow 2 11

/-- The fraction bits of a word. -/
def fractionBits (word : Nat) : Nat := word % Nat.pow 2 52

/-- The reading of a word: exponent bits all set mark infinities and undefined values, exponent bits
all clear mark the subnormal numbers, which lack the hidden leading bit. -/
def Reading.ofWord (word : Nat) : Reading :=
  if exponentBits word = 2047 then
    if fractionBits word = 0 then .infinite (signBit word) else .undefined
  else if exponentBits word = 0 then .finite (signBit word) (fractionBits word) (-1074)
  else .finite (signBit word) (Nat.pow 2 52 + fractionBits word) (exponentBits word - 1075)

/-- The reading of a double-precision number. -/
def Reading.of (x : Float) : Reading := .ofWord x.toBits.toNat

/-- The integer next to `mantissa · 2 ^ exponent` on the side of zero. -/
def wholePart (mantissa : Nat) (exponent : Int) : Nat :=
  if 0 ≤ exponent then mantissa * Nat.pow 2 exponent.toNat else mantissa / Nat.pow 2 (-exponent).toNat

example : Reading.ofWord 0x3FF8000000000000 = .finite false (3 * 2 ^ 51) (-52) := by decide

example : Reading.ofWord 0xFFF0000000000000 = .infinite true := by decide

end QuasiNewton.Binary64
