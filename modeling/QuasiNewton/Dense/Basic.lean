import QuasiNewton.Dense.Arithmetic
import QuasiNewton.Dense.Shape

/-!
# Dense arrays

A dense array is a shape and as many entries as the shape says. This module holds the entrywise
operations: those on one array, and those on two arrays of one shape or of shapes that can be
broadcast.
-/

set_option autoImplicit false

namespace QuasiNewton

/-- An array with all its entries, the last axis running fastest. -/
structure Dense (ε : Type) where
  shape : Shape
  entries : Vector ε shape.size

namespace Dense

variable {δ ε : Type}

/-- The array without axes that holds one entry. -/
def point (x : ε) : Dense ε := ⟨[], #v[x]⟩

/-- The array with one axis. -/
def vector {n : Nat} (xs : Vector ε n) : Dense ε := ⟨[n], xs⟩

/-- The array with one axis that holds the entries of a list. -/
def ofList (xs : List ε) : Dense ε := ⟨[xs.length], xs.toArray.toVector⟩

/-- The matrix whose entry in row `i` and column `j` is `f i j`. -/
def matrix {n m : Nat} (f : Fin n → Fin m → ε) : Dense ε :=
  ⟨[n, m], Vector.ofFn fun place => f (Shape.row place) (Shape.column place)⟩

/-- The entries as a list. -/
def toList (a : Dense ε) : List ε := a.entries.toList

/-- How many entries an array has. -/
def size (a : Dense ε) : Nat := a.shape.size

/-- The entry at a place, or the given one beyond the last place. -/
def getD (a : Dense ε) (place : Nat) (default : ε) : ε := a.entries.toArray.getD place default

/-- The array of the images of the entries. -/
def map (f : δ → ε) (a : Dense δ) : Dense ε := ⟨a.shape, a.entries.map f⟩

/-- The same entries with another shape of the same size. -/
def reshape (a : Dense ε) (s : Shape) : Option (Dense ε) :=
  if same : a.shape.size = s.size then some ⟨s, a.entries.cast same⟩ else none

/-- Two arrays end to end along their first axes, if they have the same axes behind those. -/
def join : Dense ε → Dense ε → Option (Dense ε)
  | ⟨n :: s, xs⟩, ⟨m :: t, ys⟩ =>
    if s = t then (ofList (xs.toList ++ ys.toList)).reshape ((n + m) :: s) else none
  | _, _ => none

/-- An array a number of times end to end along its first axis. -/
def replicate (k : Nat) : Dense ε → Option (Dense ε)
  | ⟨n :: s, xs⟩ => (ofList (List.replicate k xs.toList).flatten).reshape ((k * n) :: s)
  | _ => none

/-- The axes in the opposite order. -/
def transpose (default : ε) : Dense ε → Dense ε
  | ⟨[n, m], xs⟩ => matrix fun (j : Fin m) (i : Fin n) => xs.get (Shape.cell i j)
  | ⟨[], xs⟩ => ⟨[], xs⟩
  | ⟨[n], xs⟩ => ⟨[n], xs⟩
  | a =>
    let s : Shape := a.shape.reverse
    ⟨s, Vector.ofFn fun place => a.getD (a.shape.ravel (s.unravel place).reverse) default⟩

/-- Two arrays combined entry by entry: shapes that agree directly, others after broadcasting, and
not at all if they cannot be broadcast. -/
def combine (ar : Arithmetic ε) (f : ε → ε → ε) (a b : Dense ε) : Option (Dense ε) :=
  if same : b.shape = a.shape then
    some ⟨a.shape, Vector.zipWith f a.entries (b.entries.cast (congrArg Shape.size same))⟩
  else
    (a.shape.broadcast b.shape).map fun s =>
      ⟨s, Vector.ofFn fun place =>
        f (a.getD (a.shape.source s place) ar.zero) (b.getD (b.shape.source s place) ar.zero)⟩

/-- Whether every entry passes a test. -/
def all (p : ε → Bool) (a : Dense ε) : Bool := a.entries.all p

end Dense

end QuasiNewton
