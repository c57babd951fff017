import QuasiNewton.Decimal.Shortest

/-!
# Numbers in texts

Two ways of writing a double-precision number. `scientificText` has a fixed count of significant
digits and always an exponent; `shortestText` has the fewest digits that read back and an exponent
only for very large and very small numbers. Both write an exponent with a sign and at least two
digits, and the three words of `Words` for the values that have no digits. `NumberText` is what the
messages of the library ask of a number system.
-/

set_option autoImplicit false

namespace QuasiNewton.Decimal

open QuasiNewton.Binary64 (Reading)

/-- A number system whose numbers can be written into messages. -/
class NumberText (α : Type) where
  /-- The text with the given count of significant digits and an exponent. -/
  scientific : Nat → α → String
  /-- The text with the fewest digits that read back. -/
  shortest : α → String

/-- The decimal digits of a natural number, with zeros in front up to the given width. -/
def padded (width n : Nat) : String :=
  let digits := Nat.toDigits 10 n
  String.ofList (List.replicate (width - digits.length) '0' ++ digits)

/-- A minus sign for negative numbers. -/
def signText (negative : Bool) : String := if negative then "-" else ""

/-- An exponent: its sign always, and at least two digits. -/
def exponentText (place : Int) : String :=
  "e" ++ (if place < 0 then "-" else "+") ++ padded 2 place.natAbs

/-- A point after the first of several digits. -/
def pointed (digits : String) : String :=
  match digits.toList with
  | first :: next :: rest => String.ofList (first :: '.' :: next :: rest)
  | _ => digits

/-- The word for an infinity. -/
def infinityText (negative : Bool) : String := signText negative ++ "inf"

/-- The word for an undefined value. -/
def undefinedText : String := "nan"

/-- The text of a number with `count` significant digits and an exponent. -/
def scientificText (count : Nat) (x : Float) : String :=
  match Reading.of x with
  | .undefined => undefinedText
  | .infinite negative => infinityText negative
  | .finite negative mantissa exponent =>
    let s := if mantissa = 0 then ⟨0, 0⟩ else scientific count (.ofBinary mantissa exponent)
    signText negative ++ pointed (padded count s.digits) ++ exponentText s.place

/-- The decimal places whose numbers are written without an exponent. -/
structure PlainRange where
  lowest : Int
  bound : Int

/-- Numbers from a ten-thousandth up to ten to the sixteenth are written without an exponent. -/
def plainRange : PlainRange := ⟨-4, 16⟩

/-- Digits with the point where the place of the first of them demands it, at least one digit on
either side. -/
def plainText (digits : String) (place : Int) : String :=
  let cs := digits.toList
  if place < 0 then
    "0." ++ String.ofList (List.replicate (-place - 1).toNat '0' ++ cs)
  else
    let whole := place.toNat + 1
    let before := cs.take whole ++ List.replicate (whole - cs.length) '0'
    let after := cs.drop whole
    String.ofList before ++ "." ++ (if after.isEmpty then "0" else String.ofList after)

/-- The text of a number with the fewest digits that read back. -/
def shortestText (x : Float) : String :=
  match Reading.of x with
  | .undefined => undefinedText
  | .infinite negative => infinityText negative
  | .finite negative mantissa exponent =>
    let (count, s) := if mantissa = 0 then (1, ⟨0, 0⟩) else shortest mantissa exponent
    let digits := padded count s.digits
    signText negative ++
      if plainRange.lowest ≤ s.place ∧ s.place < plainRange.bound then plainText digits s.place
      else pointed digits ++ exponentText s.place

instance : NumberText Float where
  scientific := scientificText
  shortest := shortestText

example : plainText "25" 0 = "2.5" ∧ plainText "25" 3 = "2500.0" ∧ plainText "25" (-3) = "0.0025" := by
  decide +kernel

end QuasiNewton.Decimal
