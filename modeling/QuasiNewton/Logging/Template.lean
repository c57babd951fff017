import QuasiNewton.Decimal.Text
import QuasiNewton.Logging.Level

/-!
# Templates for lines

A template says how an entry is written: text, and fields such as `%(message)s` with a width and an
alignment in front of the last letter. Two percent signs stand for one. A template without any field
is refused.
-/

set_option autoImplicit false

namespace QuasiNewton.Logging

/-- A field of a template: what it shows, and how. -/
structure Conversion where
  /-- What it shows; a percent sign shows itself. -/
  key : String
  flags : List Char
  width : Nat
  /-- The greatest width of a text, or the least number of digits. -/
  precision? : Option Nat
  letter : Char
deriving DecidableEq, Repr

/-- A part of a template. -/
inductive Piece where
  | text (c : Char)
  | field (conversion : Conversion)
deriving DecidableEq, Repr

/-- A template. -/
abbrev Template := List Piece

/-- What an entry offers to the fields of a template. -/
structure Line where
  name : String
  level : Severity
  message : String
deriving DecidableEq, Repr

namespace Conversion

/-- Whether a character can stand in front of a width. -/
def isFlag (c : Char) : Bool := "#0- +".toList.contains c

/-- Whether a character is a letter for a sort of field. -/
def isLetter (c : Char) : Bool := "diouxefgcrsa%".toList.contains c.toLower

/-- Whether a character can be part of a key; letters outside the Latin alphabet can. -/
def isKeyLetter (c : Char) : Bool := c.isAlphanum || c = '_' || 128 ≤ c.toNat

/-- The number in front of a text, zero if there is none, and the rest. -/
def readNumber (cs : List Char) : Nat × List Char :=
  (((cs.takeWhile Char.isDigit).foldl fun n c => 10 * n + (c.toNat - '0'.toNat)) 0,
    cs.dropWhile Char.isDigit)

/-- The key in parentheses in front of a text, empty if there is none, and the rest. -/
def readKey : List Char → String × List Char
  | '(' :: cs => (String.ofList (cs.takeWhile (· != ')')), (cs.dropWhile (· != ')')).drop 1)
  | cs => ("", cs)

/-- The number behind a point in front of a text, if there is a point, and the rest. -/
def readPrecision : List Char → Option Nat × List Char
  | '.' :: cs => let (n, rest) := readNumber cs; (some n, rest)
  | cs => (none, cs)

/-- The field whose percent sign stands in front of a text, and the rest. -/
def read (cs : List Char) : Option (Conversion × List Char) :=
  let (key, cs) := readKey cs
  let flags := cs.takeWhile isFlag
  let (width, cs) := readNumber (cs.dropWhile isFlag)
  let (precision?, cs) := readPrecision cs
  match cs with
  | letter :: rest => if isLetter letter then some (⟨key, flags, width, precision?, letter⟩, rest) else none
  | [] => none

/-- A text brought to the least width. -/
def pad (v : Conversion) (numeric : Bool) (sign body : String) : String :=
  let missing := v.width - (sign.length + body.length)
  let fill (c : Char) : String := String.ofList (List.replicate missing c)
  if v.flags.contains '-' then sign ++ body ++ fill ' '
  else if numeric && v.flags.contains '0' then sign ++ fill '0' ++ body
  else fill ' ' ++ sign ++ body

/-- A text as a field. -/
def ofText (v : Conversion) (s : String) : String :=
  v.pad false "" (match v.precision? with
    | some most => String.ofList (s.toList.take most)
    | none => s)

/-- An integer as a field. -/
def ofInt (v : Conversion) (k : Int) : String :=
  let sign := if k < 0 then "-" else if v.flags.contains '+' then "+"
    else if v.flags.contains ' ' then " " else ""
  v.pad true sign (Decimal.padded (v.precision?.getD 1) k.natAbs)

/-- What a field shows of an entry. -/
def display (v : Conversion) (line : Line) : String :=
  if v.letter = '%' then "%"
  else if v.key = "name" then v.ofText line.name
  else if v.key = "levelname" then v.ofText (levelName line.level)
  else if v.key = "message" then v.ofText line.message
  else if v.key = "levelno" then
    if v.letter = 's' then v.ofText (toString line.level) else v.ofInt line.level
  else ""

/-- Whether a field names what it shows. -/
def named (v : Conversion) : Bool := !v.key.isEmpty && v.key.toList.all isKeyLetter

end Conversion

namespace Template

/-- The parts of a text, of which at most `left` are read. -/
def readPieces : (left : Nat) → List Char → Template
  | 0, _ => []
  | _, [] => []
  | left + 1, '%' :: cs =>
    match Conversion.read cs with
    | some (conversion, rest) => .field conversion :: readPieces left rest
    | none => .text '%' :: readPieces left cs
  | left + 1, c :: cs => .text c :: readPieces left cs

/-- Whether a text has a field that names what it shows, wherever it starts. -/
def hasField : List Char → Bool
  | [] => false
  | c :: cs =>
    (c == '%' && (Conversion.read cs).any fun found => found.1.named) || hasField cs

/-- The template that a text describes, if it has a field. -/
def ofText (s : String) : Option Template :=
  if hasField s.toList then some (readPieces s.length s.toList) else none

/-- An entry written as the template says. -/
def render (t : Template) (line : Line) : String :=
  String.join (t.map fun
    | .text c => c.toString
    | .field conversion => conversion.display line)

/-- The text of the template that is used where none is given. -/
def standardText : String := "[%(levelname)s] %(name)s: %(message)s"

/-- The template that is used where none is given. -/
def standard : Template := readPieces standardText.length standardText.toList

example : render standard ⟨"a", .info, "50% done"⟩ = "[INFO] a: 50% done" := by decide +kernel

example : ofText "plain" = none ∧ ofText "%" = none := by decide +kernel

end Template

end QuasiNewton.Logging
