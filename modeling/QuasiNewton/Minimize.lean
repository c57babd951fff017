import QuasiNewton.RankOne.Solver
import QuasiNewton.Run

/-!
# Minimisation

The rank-one solver, run on a problem from a start point. Where nothing else is asked for it starts
from the identity matrix and searches for the strong Wolfe conditions.
-/

set_option autoImplicit false

namespace QuasiNewton

open QuasiNewton.Decimal (NumberText)

variable {α σ : Type} [Scalar α]

/-- Which line search is asked for. -/
inductive SearchRequest (α : Type) where
  | standard
  | given (search : LineSearch α)
  | unusable

/-- What a minimisation is asked to do. -/
structure MinimizeOptions (α : Type) [Scalar α] where
  run : RunOptions α
  /-- The first approximation of the inverse Hessian. -/
  inverse? : Option (Tensor α) := none
  search : SearchRequest α := .standard
  tolerances : Tolerances α := {}

/-- The line search that is asked for, if it is one. -/
def SearchRequest.search? : SearchRequest α → Except (Fault α) (Option (LineSearch α))
  | standard => return some { method := .wolfe (← Wolfe.ofOptions {}) }
  | given search => .ok (some search)
  | unusable => .ok none

/-- The identity matrix with as many rows as a point has entries, and with entries of the same
kind. -/
def standardInverse (family : Family) (x : Tensor α) : Except (Fault α) (Tensor α) := do
  let n ← x.length.mapError .mismatch
  (family.identity n (some x)).mapError .mismatch

/-- The solver and the plan of a minimisation. -/
def MinimizeOptions.prepare (o : MinimizeOptions α) : Except (Fault α) (RankOne α × Plan α) := do
  let family ← Family.ofTensor o.run.start
  let start ← (family.copy o.run.start).mapError .mismatch
  let inverse ← o.inverse?.elim (standardInverse family start) .ok
  let solver ← RankOne.make inverse (← o.search.search?) o.tolerances
  let plan ← Plan.ofOptions { o.run with start }
  return (solver, plan)

/-- A minimisation from the state of the problem, with a threshold for the journal and a clock: the
outcome, and the journal after it. -/
def minimize [NumberText α] (p : Problem α σ) (o : MinimizeOptions α) (state : σ)
    (threshold : Severity) (clock : Clock α) : Except (Fault α) (Outcome α) × Journal :=
  let journal : Journal := { threshold }
  match o.prepare with
  | .error fault => (.error fault, journal)
  | .ok (solver, plan) =>
    let work : Workspace (RankOne α) σ := ⟨.fresh (some plan.family) state, solver, {}, journal⟩
    let (outcome, work, _) := plan.execute RankOne.solver p work clock
    (outcome, work.journal)

end QuasiNewton
