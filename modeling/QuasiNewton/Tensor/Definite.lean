import QuasiNewton.Tensor.Basic

/-!
# The definiteness of matrices

A symmetric matrix has only positive eigenvalues exactly when elimination, row after row from the
top, meets only positive pivots. `isDefinite` asks this of the symmetric part of a matrix after a
tolerance has been taken off its diagonal, which asks whether all eigenvalues exceed the tolerance.
-/

set_option autoImplicit false

namespace QuasiNewton

variable {α : Type} [Scalar α]

namespace Dense

/-- The square matrix that elimination leaves after its first row and column. -/
def eliminate {n : Nat} (m : Vector (Vector α (n + 1)) (n + 1)) : Vector (Vector α n) n :=
  Vector.ofFn fun i => Vector.ofFn fun j =>
    (m.get i.succ).get j.succ - (m.get i.succ).get 0 / (m.get 0).get 0 * (m.get 0).get j.succ

/-- Whether all pivots of a square matrix are positive. -/
def positivePivots : (n : Nat) → Vector (Vector α n) n → Bool
  | 0, _ => true
  | n + 1, m => decide (0 < (m.get 0).get 0) && positivePivots n (eliminate m)

/-- The rows of a square matrix with a number taken off its diagonal, read from the given place on. -/
def lowered (a : Dense α) (start n : Nat) (tolerance : α) : Vector (Vector α n) n :=
  Vector.ofFn fun i => Vector.ofFn fun j =>
    let entry := a.getD (start + (i * n + j)) 0
    if i = j then entry - tolerance else entry

/-- The symmetric part of a matrix; a single row or column is broadcast to a square first. -/
def symmetricPart (a : Dense α) : Option (Dense α) :=
  (combine (.real .double) (· + ·) a (a.transpose 0)).map (map (0.5 * ·))

end Dense

namespace Tensor

/-- Whether the symmetric part of a matrix, or of each matrix of a stack, has only eigenvalues above
a tolerance. -/
def isDefinite (t : Tensor α) (tolerance : α) : Except Mismatch Bool :=
  match t.values.symmetricPart with
  | none => .error (.operands .lenient)
  | some s =>
    match s.shape.reverse with
    | n :: m :: stack =>
      if n = m then
        .ok ((List.range (Shape.size stack)).all fun layer =>
          Dense.positivePivots n (s.lowered (layer * (n * n)) n tolerance))
      else .error .notMatrix
    | _ => .error .notMatrix

/-- The tolerance on eigenvalues where none is given. -/
def definitenessTolerance : α := 1e-12

end Tensor

end QuasiNewton
