/-!
# Texts in quotes

A text is quoted by single quotes, or by double quotes if that saves a backslash. Inside, a backslash
stands in front of the quote and of itself, and characters that cannot be printed are written by their
numbers.
-/

set_option autoImplicit false

namespace QuasiNewton.Quotation

/-- Whether a character is written by its number. Beyond the Latin letters every character counts as
one that can be printed. -/
def isHidden (c : Char) : Bool := c.toNat < 32 || (127 ≤ c.toNat && c.toNat ≤ 160) || c.toNat = 173

/-- The number of a character below 256, with two digits to the base sixteen. -/
def numbered (c : Char) : List Char :=
  ['\\', 'x', Nat.digitChar (c.toNat / 16), Nat.digitChar (c.toNat % 16)]

/-- A character between the given quotes. -/
def within (quote c : Char) : List Char :=
  if c = quote || c = '\\' then ['\\', c]
  else if c = '\n' then ['\\', 'n']
  else if c = '\r' then ['\\', 'r']
  else if c = '\t' then ['\\', 't']
  else if isHidden c then numbered c
  else [c]

/-- The quote for a text: the double one if the text has single ones only. -/
def quoteFor (cs : List Char) : Char :=
  if cs.contains '\'' && !cs.contains '"' then '"' else '\''

/-- A text in quotes. -/
def quoted (s : String) : String :=
  let quote := quoteFor s.toList
  String.ofList ([quote] ++ s.toList.flatMap (within quote) ++ [quote])

example : quoted "a" = "'a'" ∧ quoted "it's" = "\"it's\"" ∧ quoted "a\n\\" = "'a\\n\\\\'" := by
  decide +kernel

end QuasiNewton.Quotation
