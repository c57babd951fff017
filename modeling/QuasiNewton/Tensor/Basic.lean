import QuasiNewton.Dense.Product

/-!
# Arrays and the families they belong to

A tensor is a dense array with numbers or integers as entries, in one of two families. Arrays of the
lenient family are widened to double precision where precisions meet and take part in products of any
shape; arrays of the strict family keep their precision and have products of vectors and matrices
only. An operator with a strict array on its left and a lenient one on its right goes by the lenient
rules and gives a strict array; the other way round it is refused. A plain list belongs to neither
family: it has entries, but no shape that can be asked for, and alone it cannot be computed with.

`Mismatch` lists how operands can fail to fit; these failures carry no text.
-/

set_option autoImplicit false

namespace QuasiNewton

/-- The two families of arrays. -/
inductive Family where
  /-- Widens precisions and flattens or broadcasts where it can. -/
  | lenient
  /-- Keeps precisions and demands operands of fitting shapes. -/
  | strict
deriving DecidableEq, Repr

/-- The name under which a family is known. -/
def Family.name : Family → String
  | lenient => "numpy"
  | strict => "torch"

/-- How operands fail to fit an operation. -/
inductive Mismatch where
  /-- The shapes or precisions of the operands do not fit in a family. -/
  | operands (family : Family)
  /-- A contraction leaves an array where a number is needed. -/
  | notNumber
  /-- An operand is of a kind that the operation does not accept. -/
  | kind
  /-- A value is asked for a part that it does not have, such as a plain list for its shape. -/
  | noShape
  /-- A place is asked for that does not exist, such as the first axis of an array without axes. -/
  | noPlace
  /-- An array that is no matrix is asked for its eigenvalues. -/
  | notMatrix
  /-- An integer that is to be multiplied with entries is out of their range. -/
  | factor
  | count (why : NoCount)
deriving DecidableEq, Repr

/-- What the entries of an array are. -/
inductive ElementType where
  | real (p : Precision)
  | whole
deriving DecidableEq, Repr

namespace ElementType

/-- The entries that can hold both of two kinds of entries, in the lenient family: integers and
numbers of different precision meet in double precision. -/
def joinLenient : ElementType → ElementType → ElementType
  | whole, whole => whole
  | real p, real q => real (p.join q)
  | _, _ => real .double

/-- The entries that can hold both of two kinds of entries, in the strict family: integers take the
precision of the numbers they meet. -/
def joinEqualRank : ElementType → ElementType → ElementType
  | whole, whole => whole
  | real p, real q => real (p.join q)
  | real p, whole => real p
  | whole, real p => real p

/-- In the strict family an array without axes adapts to one with axes, unless it alone holds
numbers. -/
def joinStrict (s t : Shape) (a b : ElementType) : ElementType :=
  match s.isEmpty, t.isEmpty, a, b with
  | true, false, real _, whole => a
  | true, false, _, _ => b
  | false, true, whole, real _ => b
  | false, true, _, _ => a
  | _, _, _, _ => joinEqualRank a b

end ElementType

/-- The entries of an array with their kind. -/
inductive Entries (α : Type) where
  | real (p : Precision) (xs : Dense α)
  | whole (xs : Dense Int)

namespace Entries

variable {α : Type}

/-- The kind of the entries. -/
def type : Entries α → ElementType
  | real p _ => .real p
  | whole _ => .whole

/-- The lengths of the axes. -/
def shape : Entries α → Shape
  | real _ xs => xs.shape
  | whole xs => xs.shape

/-- An operation on the arrangement of entries, whatever they are. -/
def rearrange (f : (ε : Type) → Arithmetic ε → Dense ε → Dense ε) [Scalar α] : Entries α → Entries α
  | real p xs => real p (f α (.real p) xs)
  | whole xs => whole (f Int .whole xs)

variable [Scalar α]

/-- The entries as numbers of a precision. -/
def toReal (p : Precision) : Entries α → Dense α
  | real q xs =>
    match q, p with
    | .double, .single => xs.map (Precision.round .single)
    | _, _ => xs
  | whole xs => xs.map p.ofInt

/-- The integer that stands for a number that is no integer of sixty-four bits. -/
def outOfRange : Int := -Int.pow 2 63

/-- Whether an integer has sixty-four bits, one of them for its sign. -/
def isWord (k : Int) : Bool := -Int.pow 2 63 ≤ k ∧ k < Int.pow 2 63

/-- The integer of sixty-four bits next to a number on the side of zero. -/
def toWord (x : α) : Int :=
  match Scalar.truncate x with
  | .ok k => if isWord k then k else outOfRange
  | .error _ => outOfRange

/-- The entries as integers. -/
def toWhole : Entries α → Dense Int
  | real _ xs => xs.map toWord
  | whole xs => xs

/-- The entries turned into another kind. -/
def cast (t : ElementType) (e : Entries α) : Entries α :=
  match t with
  | .real p => real p (e.toReal p)
  | .whole => whole e.toWhole

/-- Two arrays combined after turning their entries into one kind. -/
def combine (t : ElementType) (f : (ε : Type) → Arithmetic ε → Dense ε → Dense ε → Option (Dense ε))
    (a b : Entries α) : Option (Entries α) :=
  match t with
  | .real p => (f α (.real p) (a.toReal p) (b.toReal p)).map (real p)
  | .whole => (f Int .whole a.toWhole b.toWhole).map whole

/-- Entries put end to end along the first axis; integers stay integers among themselves. -/
def join : Entries α → Entries α → Option (Entries α)
  | whole xs, whole ys => (xs.join ys).map whole
  | a, b => ((a.toReal .double).join (b.toReal .double)).map (real .double)

/-- Entries a number of times end to end along the first axis. -/
def replicate (k : Nat) : Entries α → Option (Entries α)
  | real p xs => (xs.replicate k).map (real p)
  | whole xs => (xs.replicate k).map whole

end Entries

/-- An array of a family, or a plain list. -/
structure Tensor (α : Type) where
  /-- The family of the array; a plain list has none. -/
  family? : Option Family
  entries : Entries α

namespace Tensor

variable {α : Type}

/-- An array of the lenient family with numbers of double precision. -/
def lenient (xs : Dense α) : Tensor α := ⟨some .lenient, .real .double xs⟩

/-- An array of the strict family with numbers of double precision. -/
def strict (xs : Dense α) : Tensor α := ⟨some .strict, .real .double xs⟩

/-- A plain list of numbers, possibly nested. -/
def list (xs : Dense α) : Tensor α := ⟨none, .real .double xs⟩

/-- The lengths of the axes, which a plain list has as well. -/
def extent (t : Tensor α) : Shape := t.entries.shape

/-- The shape of an array; a plain list has none. -/
def shape (t : Tensor α) : Except Mismatch Shape :=
  match t.family? with
  | some _ => .ok t.extent
  | none => .error .noShape

/-- The length of the first axis of an array. -/
def length (t : Tensor α) : Except Mismatch Nat := do
  match ← t.shape with
  | n :: _ => .ok n
  | [] => .error .noPlace

variable [Scalar α]

/-- The entries as numbers of double precision. -/
def values (t : Tensor α) : Dense α := t.entries.toReal .double

/-- The families that an operator brings together. -/
structure Meeting where
  /-- The family by whose rules the operator goes. -/
  rules : Family
  result : Family
deriving DecidableEq, Repr

/-- How an operator takes two operands: strict arrays by the strict rules, and all else by the lenient
ones. Two plain lists are refused, and so is a strict array together with a plain list or to the right
of a lenient array. -/
def meet (a b : Tensor α) : Except Mismatch Meeting :=
  match a.family?, b.family? with
  | some .strict, some .strict => .ok ⟨.strict, .strict⟩
  | some .strict, some .lenient => .ok ⟨.lenient, .strict⟩
  | some .strict, none => .error .kind
  | _, some .strict => .error .kind
  | none, none => .error .kind
  | _, _ => .ok ⟨.lenient, .lenient⟩

/-- The kind of entries in which two arrays of a family meet. -/
def meetingType (family : Family) (a b : Tensor α) : ElementType :=
  match family with
  | .lenient => a.entries.type.joinLenient b.entries.type
  | .strict => .joinStrict a.extent b.extent a.entries.type b.entries.type

/-- Two arrays combined entry by entry. -/
def zipWith (f : (ε : Type) → Arithmetic ε → ε → ε → ε) (a b : Tensor α) :
    Except Mismatch (Tensor α) := do
  let ⟨rules, result⟩ ← meet a b
  match Entries.combine (meetingType rules a b) (fun ε ar => Dense.combine ar (f ε ar))
      a.entries b.entries with
  | some entries => .ok ⟨some result, entries⟩
  | none => .error (.operands rules)

/-- The difference of two arrays. -/
def sub (a b : Tensor α) : Except Mismatch (Tensor α) := zipWith (fun _ ar => ar.sub) a b

/-- A plain list, if there are entries for it. -/
def ofJoined : Option (Entries α) → Except Mismatch (Tensor α)
  | some entries => .ok ⟨none, entries⟩
  | none => .error .kind

/-- The sum of two arrays; two plain lists are put end to end instead. -/
def add (a b : Tensor α) : Except Mismatch (Tensor α) :=
  match a.family?, b.family? with
  | none, none => ofJoined (a.entries.join b.entries)
  | _, _ => zipWith (fun _ ar => ar.add) a b

/-- The product of two arrays along the inner axes; the strict family wants entries of one kind. -/
def mul (a b : Tensor α) : Except Mismatch (Tensor α) := do
  let ⟨rules, result⟩ ← meet a b
  if rules = .strict ∧ a.entries.type ≠ b.entries.type then .error (.operands .strict)
  else
    match Entries.combine (meetingType rules a b) (fun _ ar => Dense.mul ar) a.entries b.entries with
    | some entries => .ok ⟨some result, entries⟩
    | none => .error (.operands rules)

/-- An array with its axes in the opposite order. -/
def transpose (t : Tensor α) : Except Mismatch (Tensor α) :=
  match t.family? with
  | some _ => .ok { t with entries := t.entries.rearrange fun _ ar => Dense.transpose ar.zero }
  | none => .error .noShape

end Tensor

/-- The factor by which an array is scaled. -/
inductive Factor (α : Type) where
  | real (x : α)
  | whole (k : Int)

namespace Factor

variable {α : Type} [Scalar α]

/-- The factor as a number of a precision. The strict family rounds an integer once, the lenient one by
way of double precision. -/
def value (f : Factor α) (family : Family) (p : Precision) : α :=
  match f with
  | real x => p.round x
  | whole k =>
    match family with
    | .lenient => p.round (Scalar.ofInt k)
    | .strict => p.ofInt k

/-- Whether a factor can be multiplied with entries of a kind: the strict family takes no integer of
more than sixty-four bits, and the lenient family multiplies integers of sixty-four bits by such
integers only. -/
def accepted (f : Factor α) (family : Family) (type : ElementType) : Bool :=
  match f, family, type with
  | whole k, .lenient, .whole => Entries.isWord k
  | whole k, .strict, _ => -Int.pow 2 63 ≤ k ∧ k < Int.pow 2 64
  | _, _, _ => true

/-- Whether a factor is in the range of a precision; integers of sixty-four bits always are. -/
def inRange (f : Factor α) (p : Precision) : Bool :=
  match f with
  | real x => p.inRange x
  | whole _ => true

/-- The precision of integers that were multiplied by a number. -/
def widened : Family → Precision
  | .lenient => .double
  | .strict => .single

/-- The entries of an array of a family times a factor. Integers times an integer stay integers, and
times a number they turn into numbers. -/
def scale (f : Factor α) (family : Family) : Entries α → Entries α
  | .real p xs => .real p (xs.map (Arithmetic.mul (.real p) (f.value family p)))
  | .whole xs =>
    match f with
    | whole k => .whole (xs.map (Arithmetic.whole.mul k))
    | real x =>
      let p := widened family
      .real p (xs.map fun k => Arithmetic.mul (.real p) (p.round x) (p.ofInt k))

end Factor

/-- An array times a factor; a plain list is put end to end as often as an integer says instead. -/
def Tensor.scale {α : Type} [Scalar α] (t : Tensor α) (f : Factor α) : Except Mismatch (Tensor α) :=
  match t.family? with
  | some family =>
    if f.accepted family t.entries.type then .ok ⟨some family, f.scale family t.entries⟩
    else .error .factor
  | none =>
    match f with
    | .whole k => Tensor.ofJoined (t.entries.replicate k.toNat)
    | .real _ => .error .kind

end QuasiNewton
