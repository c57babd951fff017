import QuasiNewton.Solver

/-!
# Solvers that play back a script

A script fixes beforehand what a solver answers: one cue for the first iterate, cues for the steps,
and reasons for its own criteria. The last cue and the last reason are repeated. A cue asks for some
evaluations and hands out an iterate, or it fails.
-/

set_option autoImplicit false

namespace QuasiNewton

/-- An evaluation that a cue asks for. -/
inductive Question where
  | cost
  | gradient
deriving DecidableEq, Repr

/-- What a solver does at one point of a script. -/
inductive Cue (α : Type) where
  | fail (report : Raised)
  /-- It asks for evaluations and hands out an iterate. -/
  | give (questions : List Question) (iterate : Iterate α)

/-- All answers of a solver. -/
structure Script (α : Type) where
  name : String
  opening : Cue α
  steps : List (Cue α)
  /-- The reasons that its own criteria give. -/
  reasons : List Reason

/-- How far a script was played. -/
structure Progress where
  steps : Nat := 0
  checks : Nat := 0
deriving DecidableEq, Repr

namespace Script

variable {α σ β : Type} [Scalar α]

/-- The item of a list at an index, or its last one. -/
def pick (xs : List β) (index : Nat) : SolverM α Progress σ β :=
  match xs[index]?, xs.getLast? with
  | some x, _ => pure x
  | none, some x => pure x
  | none, none => throw (.mismatch .noPlace)

/-- A question, answered for the sake of the counts. -/
def ask (p : Problem α σ) (x : Tensor α) : Question → SolverM α Progress σ Unit
  | .cost => do let _ ← SolverM.ofEvaluation (p.evaluateCost x)
  | .gradient => do let _ ← SolverM.ofEvaluation (p.evaluateGradient x)

/-- What a cue hands out. -/
def play (p : Problem α σ) : Cue α → SolverM α Progress σ (Iterate α)
  | .fail report => throw (.raised report)
  | .give questions iterate => do
    questions.forM (ask p iterate.point)
    return iterate

/-- The first iterate. -/
def init (s : Script α) (p : Problem α σ) : SolverM α Progress σ (Iterate α) := do
  SolverM.requireStage s.name [.notStarted]
  let first ← play p s.opening
  SolverM.enterStage .iterating
  return first

/-- The next iterate. -/
def step (s : Script α) (p : Problem α σ) : SolverM α Progress σ (Iterate α) := do
  SolverM.requireStage s.name [.iterating, .notStarted]
  let progress := (← get).solver
  modify fun w => { w with solver := { progress with steps := progress.steps + 1 } }
  play p (← pick s.steps progress.steps)

/-- The next reason. -/
def check (s : Script α) : SolverM α Progress σ Reason := do
  let progress := (← get).solver
  modify fun w => { w with solver := { progress with checks := progress.checks + 1 } }
  pick s.reasons progress.checks

/-- The solver that plays back a script. -/
def solver (s : Script α) : Solver α Progress σ where
  name := s.name
  init p _ := s.init p
  step p _ := s.step p
  terminate _ := s.check

end Script

end QuasiNewton
