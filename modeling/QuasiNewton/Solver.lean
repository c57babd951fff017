import QuasiNewton.Iteration
import QuasiNewton.Journal
import QuasiNewton.Objective.Evaluation

/-!
# Solvers

A solver prepares a first iterate, turns an iteration state into the next iterate, and says whether
its own criteria to stop are met. All three may fail, and all three work on a `Workspace`: the counted
evaluations, the stage of the solver, the journal, and whatever the solver keeps for itself.
-/

set_option autoImplicit false

namespace QuasiNewton

/-- What a solver works on; `ς` is what it keeps for itself. -/
structure Workspace (ς σ : Type) where
  ledger : Ledger σ
  solver : ς
  lifecycle : Lifecycle
  journal : Journal

/-- A computation of a solver. -/
abbrev SolverM (α ς σ β : Type) : Type := Attempt α (Workspace ς σ) β

namespace SolverM

variable {α ς σ β : Type}

/-- Counted evaluations within a computation of a solver. -/
def ofEvaluation (e : Evaluation α σ β) : SolverM α ς σ β :=
  Attempt.onPart Workspace.ledger (fun ledger w => { w with ledger }) e

/-- A failure unless the solver of the given name is in one of the given stages. -/
def requireStage (name : String) (allowed : List Status) : SolverM α ς σ Unit := do
  let status := (← get).lifecycle.status
  unless allowed.contains status do throw (.stage name status)

/-- The solver enters a stage. -/
def enterStage (status : Status) : SolverM α ς σ Unit :=
  modify fun w => { w with lifecycle := { w.lifecycle with status } }

/-- The solver is marked as stopped for a reason. -/
def markTerminated (reason : Reason) : SolverM α ς σ Unit :=
  modify fun w => { w with lifecycle := ⟨.terminated, reason⟩ }

/-- One more entry in the journal. -/
def report (e : Entry) : SolverM α ς σ Unit :=
  modify fun w => { w with journal := w.journal.enter e }

end SolverM

/-- A solver. -/
structure Solver (α ς σ : Type) where
  /-- The name under which it appears in messages. -/
  name : String
  init : Problem α σ → IterState α → SolverM α ς σ (Iterate α)
  step : Problem α σ → IterState α → SolverM α ς σ (Iterate α)
  terminate : IterState α → SolverM α ς σ Reason

end QuasiNewton
