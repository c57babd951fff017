import QuasiNewton.RankOne.Basic
import QuasiNewton.Solver
import QuasiNewton.Tensor.Definite

/-!
# The rank-one solver

A step goes along the direction that the current matrix gives, as far as the line search says, and
then corrects the matrix. The stages are those of every solver: a first iterate can be prepared once,
and steps can be taken after that. A matrix that has lost its definiteness is only reported.
-/

set_option autoImplicit false

namespace QuasiNewton.RankOne

open QuasiNewton.Decimal (NumberText)

variable {α σ : Type} [Scalar α] [NumberText α]

/-- The name of the solver. -/
def name : String := "SR1"

/-- A detail of the computation, as an entry of the journal. -/
def detail (text : String) : Entry := ⟨.rankOne, .debug, text⟩

/-- The entry for a skipped correction. -/
def skipEntry (size threshold : α) : Entry :=
  detail ("Skipping SR1 update: |v^T y| = " ++ NumberText.scientific 4 size ++
    " below threshold " ++ NumberText.scientific 4 threshold)

/-- The entry for a matrix that is not definite. -/
def indefiniteEntry : Entry :=
  detail "Inverse Hessian approximation is no longer positive definite"

/-- The correction for a step and the change of the gradient along it; the answer is whether it was
made. Whether the matrix is still definite is asked only where the answer would be entered. -/
def update (s y : Tensor α) : SolverM α (RankOne α) σ Bool := do
  let outcome ← Attempt.ofOperands ((← get).solver.correction s y)
  modify fun w => { w with solver := w.solver.apply outcome }
  match outcome with
  | .skipped size threshold =>
    SolverM.report (skipEntry size threshold)
    return false
  | .made inverse =>
    if (← get).journal.enters .debug then
      unless ← Attempt.ofOperands (inverse.isDefinite Tensor.definitenessTolerance) do
        SolverM.report indefiniteEntry
    return true

/-- The first iterate. -/
def init (p : Problem α σ) (state : IterState α) : SolverM α (RankOne α) σ (Iterate α) := do
  SolverM.requireStage name [.notStarted]
  let cost ← SolverM.ofEvaluation (p.evaluateCost state.point)
  let gradient ← SolverM.ofEvaluation (p.evaluateGradient state.point)
  SolverM.enterStage .iterating
  return ⟨state.point, cost, some gradient⟩

/-- The next iterate, from a state with a known gradient. -/
def stepFrom (p : Problem α σ) (state : IterState α) (gradientBefore : Tensor α) :
    SolverM α (RankOne α) σ (Iterate α) := do
  let solver := (← get).solver
  let direction ← Attempt.ofOperands (solver.direction gradientBefore)
  let search := solver.search.configure
    ⟨some state.point, some gradientBefore, state.cost?, some direction⟩
  let found ← SolverM.ofEvaluation (search.run p)
  let gradient ← SolverM.ofEvaluation (p.evaluateGradient found.point)
  let y ← Attempt.ofOperands (gradient.sub gradientBefore)
  let s ← Attempt.ofOperands (found.point.sub state.point)
  let _ ← update s y
  return ⟨found.point, found.cost, some gradient⟩

/-- The next iterate. -/
def step (p : Problem α σ) (state : IterState α) : SolverM α (RankOne α) σ (Iterate α) := do
  SolverM.requireStage name [.iterating]
  match state.gradient? with
  | some gradient => stepFrom p state gradient
  | none => throw (.mismatch (unknownFactor (← get).solver.family))

/-- Whether and why the solver would stop. -/
def terminate (state : IterState α) : SolverM α (RankOne α) σ Reason := do
  Attempt.ofOperands ((← get).solver.stopReason state)

/-- A task on a state that may not be known. Without a state there is nothing to work on, once the stage
has been found to be one of the given ones. -/
def withState {β : Type} (allowed : List Status) (task : IterState α → SolverM α (RankOne α) σ β) :
    Option (IterState α) → SolverM α (RankOne α) σ β
  | some state => task state
  | none => do
    SolverM.requireStage name allowed
    throw (.mismatch .noShape)

/-- The rank-one solver. -/
def solver : Solver α (RankOne α) σ where
  name := name
  init := init
  step := step
  terminate := terminate

end QuasiNewton.RankOne
