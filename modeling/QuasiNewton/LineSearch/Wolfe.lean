import QuasiNewton.LineSearch.Basic

/-!
# Strong Wolfe conditions

A step length is sought at which the cost has fallen by a fraction of what the slope at the start
promises, and at which the slope has lost a fraction of its size. Step lengths are doubled until two
of them enclose an acceptable one; then the interval between them is halved until a midpoint is
acceptable. The end `low` of an interval always lowers the cost enough, so that it can be taken when
the permitted number of halvings is used up.
-/

set_option autoImplicit false

namespace QuasiNewton

variable {α σ : Type} [Scalar α]

/-- The settings of a search for the strong Wolfe conditions as they are asked for. -/
structure WolfeOptions (α : Type) [Scalar α] where
  firstStep : α := 1.0
  /-- The fraction of the promised decrease that is demanded. -/
  decrease : α := 1e-4
  /-- The fraction of the slope that may be left. -/
  curvature : α := 0.9
  /-- The number of trials that double the step length. -/
  trials : α := Scalar.ofInt 40
  /-- The number of trials that halve an interval. -/
  halvings : α := Scalar.ofInt 32

/-- A search for the strong Wolfe conditions. -/
structure Wolfe (α : Type) where
  firstStep : α
  decrease : α
  curvature : α
  trials : Nat
  halvings : Nat
deriving DecidableEq, Repr

namespace Wolfe

/-- The search with the given settings, if they are in their ranges. -/
def ofOptions (o : WolfeOptions α) : Except (Fault α) (Wolfe α) := do
  require (0 < o.decrease ∧ o.decrease < o.curvature ∧ o.curvature < 1) .wolfeConstants
  require (!decide (o.firstStep ≤ 0)) .firstStep
  require (!decide (o.trials ≤ 0) && !decide (o.halvings ≤ 0)) .trialLimits
  return ⟨o.firstStep, o.decrease, o.curvature, ← countOf o.trials, ← countOf o.halvings⟩

/-- Cost and slope at the start of a search. -/
structure Origin (α : Type) where
  cost : α
  slope : α
deriving DecidableEq, Repr

/-- Whether a cost is too high for a step length. -/
def tooHigh (s : Wolfe α) (o : Origin α) (alpha cost : α) : Bool :=
  o.cost + s.decrease * alpha * o.slope < cost

/-- Whether a slope is flat enough. -/
def flat (s : Wolfe α) (o : Origin α) (slope : α) : Bool :=
  Scalar.abs slope ≤ -s.curvature * o.slope

/-- An interval that encloses acceptable step lengths. -/
structure Interval (α : Type) where
  low : α
  /-- The other end, on either side of the first one. -/
  high : α
  lowCost : α
deriving DecidableEq, Repr

namespace Interval

/-- The middle of an interval. -/
def middle (i : Interval α) : α := 0.5 * (i.low + i.high)

/-- Whether an interval is too short to be halved again. -/
def short (i : Interval α) : Bool := Scalar.abs (i.high - i.low) < 1e-12

/-- The interval below a midpoint that is too high. -/
def cut (i : Interval α) (alpha : α) : Interval α := { i with high := alpha }

/-- The interval from a midpoint that lowers the cost further, on the side to which the cost falls. -/
def move (i : Interval α) (alpha cost slope : α) : Interval α :=
  ⟨alpha, if 0 ≤ slope * (i.high - i.low) then i.low else i.high, cost⟩

end Interval

/-- What halving an interval leads to. -/
inductive Halved (α : Type) where
  | found (alpha cost : α)
  /-- One of the two halves encloses acceptable step lengths. -/
  | narrowed (half : Interval α)
deriving DecidableEq, Repr

/-- The trial at the middle of an interval. -/
def halve (s : Wolfe α) (line : Line α σ) (o : Origin α) (i : Interval α) :
    Attempt α σ (Halved α) := do
  let alpha := i.middle
  let cost ← line.cost alpha
  if s.tooHigh o alpha cost || decide (i.lowCost ≤ cost) then pure (.narrowed (i.cut alpha))
  else
    let slope ← line.slope alpha
    if s.flat o slope then pure (.found alpha cost)
    else pure (.narrowed (i.move alpha cost slope))

/-- How the trials of a search end. -/
inductive Ending (α : Type) where
  /-- At a trial that satisfies both conditions. -/
  | flat (alpha cost : α)
  /-- At the last permitted doubling, where the cost is low enough and still falls. -/
  | exhausted (alpha cost : α)
  /-- With an interval that is too short, or that may not be halved again. -/
  | narrowed (i : Interval α)
deriving DecidableEq, Repr

/-- The step that an ending leads to. An ending that has not left the start leads to none. -/
def Ending.step (s : Wolfe α) (trials : Nat) : Ending α → Except (SearchFault α) (Step α)
  | .flat alpha cost => .ok ⟨alpha, cost, trials⟩
  | .exhausted alpha cost =>
    if 0 < alpha then .ok ⟨alpha, cost, trials⟩ else .error (.noWolfeStep s.trials)
  | .narrowed i => if 0 < i.low then .ok ⟨i.low, i.lowCost, trials⟩ else .error .zoomFailed

/-- The trials inside an interval with `left` halvings left, after `trials` trials: how they end, and
how many trials were made. -/
def zoom (s : Wolfe α) (line : Line α σ) (o : Origin α) :
    (left : Nat) → (trials : Nat) → Interval α → Attempt α σ (Ending α × Nat)
  | 0, trials, i => pure (.narrowed i, trials)
  | left + 1, trials, i => do
    match ← s.halve line o i with
    | .found alpha cost => pure (.flat alpha cost, trials + 1)
    | .narrowed half =>
      if half.short then pure (.narrowed half, trials + 1) else s.zoom line o left (trials + 1) half

/-- The trials with `left` doublings left after `trials` trials, the last of them at `before` with
the cost `costBefore`, and the next one at `alpha`. -/
def bracket (s : Wolfe α) (line : Line α σ) (o : Origin α) :
    (left : Nat) → (trials : Nat) → (before costBefore alpha : α) → Attempt α σ (Ending α × Nat)
  | 0, trials, before, costBefore, _ => pure (.exhausted before costBefore, trials)
  | left + 1, trials, before, costBefore, alpha => do
    let cost ← line.cost alpha
    if s.tooHigh o alpha cost || (decide (0 < trials) && decide (costBefore ≤ cost)) then
      s.zoom line o s.halvings (trials + 1) ⟨before, alpha, costBefore⟩
    else
      let slope ← line.slope alpha
      if s.flat o slope then pure (.flat alpha cost, trials + 1)
      else if 0 ≤ slope then s.zoom line o s.halvings (trials + 1) ⟨alpha, before, cost⟩
      else s.bracket line o left (trials + 1) alpha cost (alpha * 2.0)

/-- All trials of a search. -/
def pursue (s : Wolfe α) (line : Line α σ) (o : Origin α) : Attempt α σ (Ending α × Nat) :=
  s.bracket line o s.trials 0 0 o.cost s.firstStep

/-- A step length that satisfies the conditions, or the best one that lowers the cost enough. -/
def search (s : Wolfe α) (line : Line α σ) (startCost startSlope : α) : Attempt α σ (Step α) := do
  let (ending, trials) ← s.pursue line ⟨startCost, startSlope⟩
  Attempt.ofExcept ((ending.step s trials).mapError .search)

end Wolfe

end QuasiNewton
