import QuasiNewton.LineSearch.Basic

/-!
# The secant method

A zero of the slope is sought by the secant method, which starts from the slope at the start and the
slope at the first step length. Along a line on which the slope is affine, its second step length is
exact. The cost at the step length found must not exceed the cost at the start.
-/

set_option autoImplicit false

namespace QuasiNewton

variable {α σ : Type} [Scalar α]

/-- The settings of a secant search as they are asked for. -/
structure SecantOptions (α : Type) [Scalar α] where
  firstStep : α := 1.0
  /-- The fraction of the slope that counts as zero. -/
  tolerance : α := 1e-10
  /-- The number of slopes that are asked for. -/
  trials : α := Scalar.ofInt 20

/-- A secant search. -/
structure Secant (α : Type) where
  firstStep : α
  tolerance : α
  trials : Nat
deriving DecidableEq, Repr

namespace Secant

/-- The search with the given settings, if they are in their ranges. -/
def ofOptions (o : SecantOptions α) : Except (Fault α) (Secant α) := do
  require (!decide (o.firstStep ≤ 0)) .firstStep
  require (!decide (o.tolerance ≤ 0)) .slopeTolerance
  require (!decide (o.trials ≤ 0)) .trialLimit
  return ⟨o.firstStep, o.tolerance, ← countOf o.trials⟩

/-- Whether the search ends at a slope: it is small compared with the slope at the start, or the same
as the slope before. -/
def settles (s : Secant α) (startSlope slopeBefore slope : α) : Bool :=
  decide (Scalar.abs slope ≤ s.tolerance * Scalar.abs startSlope) || slope == slopeBefore

/-- Where the line through two slopes is zero. -/
def nextStep (before slopeBefore alpha slope : α) : α :=
  alpha - slope * (alpha - before) / (slope - slopeBefore)

/-- The step length with `left` slopes left to ask for, after the slope `slopeBefore` at `before` and
with the next one at `alpha`, and how many slopes are left in the end. -/
def locate (s : Secant α) (line : Line α σ) (startSlope : α) :
    (left : Nat) → (before slopeBefore alpha : α) → Attempt α σ (α × Nat)
  | 0, _, _, alpha => pure (alpha, 0)
  | left + 1, before, slopeBefore, alpha => do
    let slope ← line.slope alpha
    if s.settles startSlope slopeBefore slope then pure (alpha, left)
    else
      let next := nextStep before slopeBefore alpha slope
      if !Scalar.isFinite next || decide (next ≤ 0) then throw (.search (.secantLeft next))
      else s.locate line startSlope left alpha slope next

/-- A step length with the smallest slope found. -/
def search (s : Secant α) (line : Line α σ) (startCost startSlope : α) : Attempt α σ (Step α) := do
  let (alpha, left) ← s.locate line startSlope s.trials 0 startSlope s.firstStep
  let cost ← line.cost alpha
  if startCost < cost then throw (.search (.secantIncreased cost startCost))
  else pure ⟨alpha, cost, s.trials - left⟩

end Secant

end QuasiNewton
