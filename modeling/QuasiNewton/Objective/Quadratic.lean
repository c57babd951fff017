import QuasiNewton.Objective.Problem
import QuasiNewton.Dense.Product

/-!
# Quadratic problems

The cost `x · A x / 2 - b · x + c` with the gradient `A x - b`. A point is read as a list of numbers
of double precision; it must have at least as many entries as the matrix has rows.
-/

set_option autoImplicit false

namespace QuasiNewton

/-- A quadratic cost in `n` unknowns. -/
structure Quadratic (α : Type) (n : Nat) where
  matrix : Vector α (n * n)
  /-- The linear coefficients, which are subtracted. -/
  linear : Vector α n
  constant : α

namespace Quadratic

variable {α σ : Type} [Scalar α] {n : Nat} (q : Quadratic α n)

/-- The product of the matrix with a vector. -/
def products (x : Vector α n) : Vector α n := Dense.mulVec (.real .double) q.matrix x

/-- The cost of a vector. -/
def cost (x : Vector α n) : α :=
  let ar := Arithmetic.real (α := α) .double
  0.5 * ar.dot x (q.products x) - ar.dot q.linear x + q.constant

/-- The gradient at a vector. -/
def gradient (x : Vector α n) : Vector α n := Vector.zipWith (· - ·) (q.products x) q.linear

/-- The first `n` entries of a point. -/
def unknowns (n : Nat) (x : Tensor α) : Option (Vector α n) :=
  if enough : n ≤ x.values.shape.size then
    some ((x.values.entries.take n).cast (Nat.min_eq_left enough))
  else none

/-- The report on a point with too few entries. -/
def tooShort : Raised := ⟨.missing, "list index out of range"⟩

/-- A function of the unknowns as code of a problem. -/
def ofUnknowns {β : Type} (f : Vector α n → β) (x : Tensor α) : ExceptT Raised (StateM σ) β :=
  match unknowns n x with
  | some v => pure (f v)
  | none => throw tooShort

/-- The quadratic cost with its gradient as a plain list. -/
def problem : Problem α σ where
  cost := ofUnknowns q.cost
  gradient? := some (ofUnknowns fun v => .tensor (.list (.vector (q.gradient v))))

/-- The quadratic cost alone. -/
def costOnly : Problem α σ where
  cost := ofUnknowns q.cost
  gradient? := none

end Quadratic

end QuasiNewton
