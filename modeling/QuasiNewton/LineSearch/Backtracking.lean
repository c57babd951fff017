import QuasiNewton.LineSearch.Basic

/-!
# Backtracking

The first step length is shrunk by a fixed factor until the cost has fallen by a fraction of what the
slope at the start promises. The first step length that satisfies this is taken.
-/

set_option autoImplicit false

namespace QuasiNewton

variable {α σ : Type} [Scalar α]

/-- The settings of a backtracking search as they are asked for. -/
structure BacktrackingOptions (α : Type) [Scalar α] where
  firstStep : α := 1.0
  /-- The factor by which step lengths shrink. -/
  shrink : α := 0.5
  /-- The fraction of the promised decrease that is demanded. -/
  decrease : α := 1e-4
  trials : α := Scalar.ofInt 50

/-- A backtracking search. -/
structure Backtracking (α : Type) where
  firstStep : α
  shrink : α
  decrease : α
  trials : Nat
deriving DecidableEq, Repr

namespace Backtracking

/-- The search with the given settings, if they are in their ranges. -/
def ofOptions (o : BacktrackingOptions α) : Except (Fault α) (Backtracking α) := do
  require (0 < o.decrease ∧ o.decrease < 1) .armijoConstant
  require (0 < o.shrink ∧ o.shrink < 1) .shrinkFactor
  require (!decide (o.firstStep ≤ 0)) .firstStep
  require (!decide (o.trials ≤ 0)) .trialLimit
  return ⟨o.firstStep, o.shrink, o.decrease, ← countOf o.trials⟩

/-- Whether a cost is low enough for a step length, given cost and slope at the start. -/
def accepts (s : Backtracking α) (startCost startSlope alpha cost : α) : Bool :=
  cost ≤ startCost + s.decrease * alpha * startSlope

/-- The search with `left` trials left, the next one at `alpha`. -/
def searchFrom (s : Backtracking α) (line : Line α σ) (startCost startSlope : α) :
    (left : Nat) → (alpha : α) → Attempt α σ (Step α)
  | 0, _ => throw (.search (.armijoExhausted s.trials))
  | left + 1, alpha => do
    let cost ← line.cost alpha
    if s.accepts startCost startSlope alpha cost then pure ⟨alpha, cost, s.trials - left⟩
    else s.searchFrom line startCost startSlope left (alpha * s.shrink)

/-- The first acceptable step length. -/
def search (s : Backtracking α) (line : Line α σ) (startCost startSlope : α) :
    Attempt α σ (Step α) :=
  s.searchFrom line startCost startSlope s.trials s.firstStep

end Backtracking

end QuasiNewton
