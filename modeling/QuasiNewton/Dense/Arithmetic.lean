import QuasiNewton.Scalar

/-!
# The arithmetic of array entries

Entries are added and multiplied by one of three arithmetics: numbers of the number system as they
are, numbers that are rounded to single precision after each operation, and integers of sixty-four
bits, which wrap around. Sums run from left to right and start from zero.
-/

set_option autoImplicit false

namespace QuasiNewton

/-- The operations on the entries of one kind of array. -/
structure Arithmetic (ε : Type) where
  /-- The start of every sum, and the entries off the diagonal of an identity matrix. -/
  zero : ε
  one : ε
  add : ε → ε → ε
  sub : ε → ε → ε
  mul : ε → ε → ε

/-- The precision of entries that are numbers. -/
inductive Precision where
  /-- Each operation is rounded to single precision. -/
  | single
  /-- Each operation is as precise as the number system. -/
  | double
deriving DecidableEq, Repr

namespace Precision

variable {α : Type} [Scalar α]

/-- A number rounded to a precision. -/
def round : Precision → α → α
  | single, x => Scalar.toSingle x
  | double, x => x

/-- The number of a precision that an integer stands for. An integer is rounded once only: rounding to
double precision on the way to single precision could turn a number between two neighbours into the
middle between them. -/
def ofInt : Precision → Int → α
  | single, k => Scalar.singleOfInt k
  | double, k => Scalar.ofInt k

/-- Whether a number is in the range of a precision; infinities and undefined values are. -/
def inRange : Precision → α → Bool
  | single, x => !Scalar.isFinite x || decide (Scalar.abs x ≤ Scalar.largestSingle)
  | double, _ => true

/-- The precision that can hold numbers of both precisions. -/
def join : Precision → Precision → Precision
  | single, single => single
  | _, _ => double

@[simp] theorem round_double (x : α) : round double x = x := rfl

end Precision

namespace Arithmetic

variable {α ε : Type}

/-- The arithmetic of numbers of a precision. -/
def real [Scalar α] (p : Precision) : Arithmetic α where
  zero := 0
  one := 1
  add x y := p.round (x + y)
  sub x y := p.round (x - y)
  mul x y := p.round (x * y)

/-- An integer brought into the range of sixty-four bits. -/
def wrap (k : Int) : Int := k.bmod (Nat.pow 2 64)

/-- The arithmetic of integers of sixty-four bits. -/
def whole : Arithmetic Int where
  zero := 0
  one := 1
  add x y := wrap (x + y)
  sub x y := wrap (x - y)
  mul x y := wrap (x * y)

/-- The sum of finitely many entries, from left to right. -/
def sum (ar : Arithmetic ε) {n : Nat} (f : Fin n → ε) : ε :=
  Fin.foldl n (fun total i => ar.add total (f i)) ar.zero

/-- The inner product of two lists of entries of one length. -/
def dot (ar : Arithmetic ε) {n : Nat} (xs ys : Vector ε n) : ε :=
  ar.sum fun i => ar.mul (xs.get i) (ys.get i)

@[simp] theorem sum_zero (ar : Arithmetic ε) (f : Fin 0 → ε) : ar.sum f = ar.zero := rfl

/-- The last entry is added last. -/
theorem sum_succ (ar : Arithmetic ε) {n : Nat} (f : Fin (n + 1) → ε) :
    ar.sum f = ar.add (ar.sum fun i => f i.castSucc) (f (Fin.last n)) := by
  simp [sum, Fin.foldl_succ_last]

end Arithmetic

end QuasiNewton
