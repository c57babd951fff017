import QuasiNewton.Dense.Basic

/-!
# Products of dense arrays

Inner and outer products, and the product of matrices and vectors. A product fails where the axes it
runs along have different lengths. Every sum runs from left to right.
-/

set_option autoImplicit false

namespace QuasiNewton.Dense

variable {ε : Type}

/-- The product of a matrix and a vector. -/
def mulVec (ar : Arithmetic ε) {n m : Nat} (a : Vector ε (n * m)) (x : Vector ε m) : Vector ε n :=
  Vector.ofFn fun i => ar.sum fun j => ar.mul (a.get (Shape.cell i j)) (x.get j)

/-- The product of a vector and a matrix. -/
def vecMul (ar : Arithmetic ε) {n m : Nat} (x : Vector ε n) (a : Vector ε (n * m)) : Vector ε m :=
  Vector.ofFn fun j => ar.sum fun i => ar.mul (x.get i) (a.get (Shape.cell i j))

/-- The product of two matrices. -/
def mulMat (ar : Arithmetic ε) {n k m : Nat} (a : Vector ε (n * k)) (b : Vector ε (k * m)) : Dense ε :=
  matrix fun (i : Fin n) (j : Fin m) =>
    ar.sum fun l => ar.mul (a.get (Shape.cell i l)) (b.get (Shape.cell l j))

/-- The outer product of two vectors. -/
def outer (ar : Arithmetic ε) {n m : Nat} (x : Vector ε n) (y : Vector ε m) : Dense ε :=
  matrix fun i j => ar.mul (x.get i) (y.get j)

/-- The identity matrix. -/
def identity (ar : Arithmetic ε) (n : Nat) : Dense ε :=
  matrix fun (i j : Fin n) => if i = j then ar.one else ar.zero

/-- The matrices of a stack: the axes before the last two, and the two lengths of a matrix. -/
def stackAxes (s : Shape) : Option (Shape × Nat × Nat) :=
  match s.reverse with
  | m :: n :: before => some (before.reverse, n, m)
  | _ => none

/-- The product of two stacks of matrices, matrix by matrix, the axes of the stacks broadcast. -/
def mulStacks (ar : Arithmetic ε) (a b : Dense ε) : Option (Dense ε) := do
  let (stackA, n, k) ← stackAxes a.shape
  let (stackB, l, m) ← stackAxes b.shape
  let stack ← stackA.broadcast stackB
  if k = l then
    let shape := stack ++ [n, m]
    some ⟨shape, Vector.ofFn fun place =>
      let layer := (place : Nat) / (n * m)
      let i := (place : Nat) % (n * m) / m
      let j := (place : Nat) % m
      let startA := stackA.source stack layer * (n * k)
      let startB := stackB.source stack layer * (l * m)
      ar.sum fun t : Fin k =>
        ar.mul (a.getD (startA + i * k + t) ar.zero) (b.getD (startB + t * m + j) ar.zero)⟩
  else none

/-- An array with a vector turned into a matrix of one row, and whether it was turned. -/
def asRow : Dense ε → Dense ε × Bool
  | ⟨[n], xs⟩ => (⟨[1, n], xs.cast (Nat.one_mul n).symm⟩, true)
  | a => (a, false)

/-- An array with a vector turned into a matrix of one column, and whether it was turned. -/
def asColumn : Dense ε → Dense ε × Bool
  | ⟨[n], xs⟩ => (⟨[n, 1], xs.cast (Nat.mul_one n).symm⟩, true)
  | a => (a, false)

/-- The product of two arrays of which at least one has more than two axes: a vector counts as one
row on the left and as one column on the right, and the axis this adds is dropped again. -/
def mulGeneral (ar : Arithmetic ε) (a b : Dense ε) : Option (Dense ε) := do
  let (left, wasRow) := asRow a
  let (right, wasColumn) := asColumn b
  let product ← mulStacks ar left right
  let kept := match product.shape.reverse with
    | m :: n :: before =>
      before.reverse ++ (if wasRow then [] else [n]) ++ (if wasColumn then [] else [m])
    | s => s
  product.reshape kept

/-- The product of arrays with at least one axis each: of two vectors it is their inner product. -/
def mul (ar : Arithmetic ε) : Dense ε → Dense ε → Option (Dense ε)
  | ⟨[n], xs⟩, ⟨[m], ys⟩ =>
    if same : m = n then some (point (ar.dot xs (Vector.cast same ys))) else none
  | ⟨[n, k], a⟩, ⟨[m], y⟩ =>
    if same : m = k then some (vector (mulVec (n := n) (m := k) ar a (Vector.cast same y))) else none
  | ⟨[n], x⟩, ⟨[k, m], b⟩ =>
    if same : k = n then
      some (vector (vecMul (n := n) (m := m) ar x (Vector.cast (congrArg (· * m) same) b)))
    else none
  | ⟨[n, k], a⟩, ⟨[l, m], b⟩ =>
    if same : l = k then
      some (mulMat (n := n) (k := k) (m := m) ar a (Vector.cast (congrArg (· * m) same) b))
    else none
  | a, b => mulGeneral ar a b

/-- What contracting two arrays gives. -/
inductive Inner (ε : Type) where
  | value (x : ε)
  | array
  | mismatch

/-- The contraction of two arrays: the last axis of the left one against the contracted axis of the
right one. An array without axes scales the other one. -/
def inner (ar : Arithmetic ε) : Dense ε → Dense ε → Inner ε
  | ⟨[n], xs⟩, ⟨[m], ys⟩ =>
    if same : m = n then .value (ar.dot xs (Vector.cast same ys)) else .mismatch
  | ⟨[], x⟩, ⟨[], y⟩ => .value (ar.mul (Vector.get x (0 : Fin 1)) (Vector.get y (0 : Fin 1)))
  | a, b =>
    if a.shape = [] ∨ b.shape = [] then .array
    else if a.shape.getLast? = b.shape.contracted then .array
    else .mismatch

end QuasiNewton.Dense
