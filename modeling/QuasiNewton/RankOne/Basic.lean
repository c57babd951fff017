import QuasiNewton.Iteration
import QuasiNewton.LineSearch.Search

/-!
# The symmetric rank-one correction

The solver keeps an approximation of the inverse Hessian. After a step `s` along which the gradient
has changed by `y` it is corrected by a multiple of the outer square of `v = s - H y`, the one
multiple after which it maps `y` to `s`. The correction is skipped where `v · y` is zero or small
against the lengths of `s` and `v`.
-/

set_option autoImplicit false

namespace QuasiNewton

variable {α : Type}

/-- The tolerances of the rank-one solver. -/
structure Tolerances (α : Type) [Scalar α] where
  /-- How small `v · y` may be against the lengths of `s` and `v`. -/
  denominator : α := 1e-8
  /-- Below which norm a gradient counts as zero. -/
  gradient : α := Scalar.rootEpsilon
  /-- Below which size a change of the cost counts as none. -/
  cost : α := Scalar.epsilon

/-- Tolerances must be positive. -/
def Tolerances.check [Scalar α] (t : Tolerances α) : Except (Fault α) (Tolerances α) := do
  require (0 < t.denominator) (.tolerance "denominator_tol")
  require (0 < t.gradient) (.tolerance "grad_tol")
  require (0 < t.cost) (.tolerance "cost_tol")
  return t

/-- What the rank-one solver keeps for itself. -/
structure RankOne (α : Type) [Scalar α] where
  /-- The family that computes with its matrix. -/
  family : Family
  /-- The approximation of the inverse Hessian. -/
  inverse : Tensor α
  /-- The line search that every step starts from. -/
  search : LineSearch α
  tolerances : Tolerances α
  updates : Nat := 0
  skips : Nat := 0

variable [Scalar α]

namespace RankOne

/-- Whether a shape is that of a square matrix. -/
def isSquare : Shape → Bool
  | [n, m] => n == m
  | _ => false

/-- A solver with a square matrix, a line search and tolerances; of the matrix it takes a copy. -/
def make (inverse : Tensor α) (search? : Option (LineSearch α)) (tolerances : Tolerances α) :
    Except (Fault α) (RankOne α) := do
  let family ← Family.ofTensor inverse
  let shape ← inverse.shape.mapError .mismatch
  unless isSquare shape do throw (.notSquare shape)
  match search? with
  | none => throw .notLineSearch
  | some search =>
    let inverse ← (family.copy inverse).mapError .mismatch
    return { family, inverse, search, tolerances }

/-- What becomes of a correction. -/
inductive Correction (α : Type) where
  /-- It is skipped: the size of `v · y`, and what it was compared with. -/
  | skipped (size threshold : α)
  | made (inverse : Tensor α)

/-- The correction for a step and the change of the gradient along it. -/
def correction (r : RankOne α) (s y : Tensor α) : Except Mismatch (Correction α) := do
  let v ← s.sub (← r.family.mulVec r.inverse y)
  let denominator ← r.family.dot v y
  let threshold := r.tolerances.denominator * (← r.family.dot s s) * (← r.family.dot v v)
  if denominator == 0 || decide (Scalar.abs denominator < threshold) then
    return .skipped (Scalar.abs denominator) threshold
  else
    let square ← r.family.outer v v
    return .made (← r.inverse.add (← square.scale (.real (1 / denominator))))

/-- The solver after a correction. -/
def apply (r : RankOne α) : Correction α → RankOne α
  | .skipped _ _ => { r with skips := r.skips + 1 }
  | .made inverse => { r with inverse, updates := r.updates + 1 }

/-- The direction in which the cost is expected to fall most, given the gradient. -/
def direction (r : RankOne α) (gradient : Tensor α) : Except Mismatch (Tensor α) := do
  (← r.family.mulVec r.inverse gradient).scale (.real (-1))

/-- How a family refuses to multiply a matrix with a gradient that is not known. -/
def unknownFactor : Family → Mismatch
  | .lenient => .operands .lenient
  | .strict => .kind

/-- The norm of a gradient, which must be known. -/
def gradientNorm (family : Family) (gradient? : Option (Tensor α)) : Except Mismatch α :=
  match gradient? with
  | some gradient => family.norm gradient
  | none => .error .kind

/-- Whether and why the solver would stop. -/
def stopReason (r : RankOne α) (state : IterState α) : Except Mismatch Reason := do
  if (← gradientNorm r.family state.gradient?) < r.tolerances.gradient then
    return .targetPrecision
  match state.costChange with
  | some change => return if change < r.tolerances.cost then .noChange else .notTerminated
  | none => return .notTerminated

end RankOne

end QuasiNewton
