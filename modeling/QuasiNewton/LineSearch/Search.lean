import QuasiNewton.LineSearch.Backtracking
import QuasiNewton.LineSearch.Secant
import QuasiNewton.LineSearch.Wolfe
import QuasiNewton.Objective.Evaluation

/-!
# Line searches

A line search is one of three methods together with where it starts: a point, a direction, and the
gradient and the cost at the point, which are evaluated where they are missing. A search is refused
before any trial if the cost does not fall along the direction.
-/

set_option autoImplicit false

namespace QuasiNewton

variable {α σ : Type}

/-- A method to find a step length. -/
inductive Method (α : Type) where
  /-- Shrinking the step until the cost has fallen enough. -/
  | backtracking (settings : Backtracking α)
  | wolfe (settings : Wolfe α)
  | secant (settings : Secant α)
deriving DecidableEq, Repr

/-- Where a search starts. -/
structure Start (α : Type) where
  point? : Option (Tensor α) := none
  gradient? : Option (Tensor α) := none
  cost? : Option α := none
  direction? : Option (Tensor α) := none

/-- A line search. -/
structure LineSearch (α : Type) where
  method : Method α
  start : Start α := {}

/-- A point that a line search accepted. -/
structure Accepted (α : Type) where
  point : Tensor α
  cost : α
  alpha : α
  trials : Nat

variable [Scalar α]

/-- The search of a method along a line with the given cost and slope at the start. -/
def Method.search (m : Method α) (line : Line α σ) (startCost startSlope : α) :
    Attempt α σ (Step α) :=
  match m with
  | backtracking s => s.search line startCost startSlope
  | wolfe s => s.search line startCost startSlope
  | secant s => s.search line startCost startSlope

namespace Problem

/-- The point at a step length. -/
def pointAt (family : Family) (x direction : Tensor α) (alpha : α) : Evaluation α σ (Tensor α) :=
  Attempt.ofOperands (family.scaledAdd x (.real alpha) direction)

/-- A problem seen along the ray from a point in a direction. -/
def line (p : Problem α σ) (family : Family) (x direction : Tensor α) : Line α (Ledger σ) where
  cost alpha := do p.evaluateCost (← pointAt family x direction alpha)
  slope alpha := do
    let gradient ← p.evaluateGradient (← pointAt family x direction alpha)
    Attempt.ofOperands (family.dot gradient direction)

end Problem

namespace LineSearch

/-- The same method from another start. -/
def configure (s : LineSearch α) (start : Start α) : LineSearch α := { s with start }

/-- The gradient at the start, evaluated if it is missing. -/
def startGradient (s : LineSearch α) (p : Problem α σ) (x : Tensor α) :
    Evaluation α σ (Tensor α) :=
  match s.start.gradient? with
  | some gradient => pure gradient
  | none => p.evaluateGradient x

/-- The cost at the start, evaluated if it is missing or not finite. -/
def startCost (s : LineSearch α) (p : Problem α σ) (x : Tensor α) : Evaluation α σ α :=
  match s.start.cost? with
  | some cost => if Scalar.isFinite cost then pure cost else p.evaluateCost x
  | none => p.evaluateCost x

/-- The search from its start. -/
def run (s : LineSearch α) (p : Problem α σ) : Evaluation α σ (Accepted α) := do
  match s.start.point?, s.start.direction? with
  | some x, some direction =>
    let family ← Attempt.ofExcept (Family.ofTensor x)
    let gradient ← s.startGradient p x
    let cost ← s.startCost p x
    let slope ← Attempt.ofOperands (family.dot gradient direction)
    if slope < 0 then
      let step ← s.method.search (p.line family x direction) cost slope
      return ⟨← Problem.pointAt family x direction step.alpha, step.cost, step.alpha, step.trials⟩
    else throw (.search (.notDescent slope))
  | _, _ => throw (.search .notConfigured)

end LineSearch

end QuasiNewton
