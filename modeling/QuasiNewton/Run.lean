import QuasiNewton.Setting
import QuasiNewton.Solver
import QuasiNewton.Tensor.Family

/-!
# Runs

A run asks a solver for a first iterate and then, until there is a reason to stop, for one step after
the other. Before each step the reasons are looked for in a fixed order: the criteria of the solver,
the number of steps, the time. A step that has begun is never cut short. Failures of the optimisation
are entered into the journal and passed on.
-/

set_option autoImplicit false

namespace QuasiNewton

open QuasiNewton.Decimal (NumberText)

/-- A clock: what it shows, reading after reading, and how often it was read. -/
structure Clock (α : Type) where
  reading : Nat → α
  position : Nat := 0

/-- What a run is asked to do. -/
structure RunOptions (α : Type) where
  start : Tensor α
  maxSteps : α
  maxTime? : Option α := none
  history : Bool := false

/-- A run that is ready to start. -/
structure Plan (α : Type) where
  /-- The family that computes with the points. -/
  family : Family
  start : Tensor α
  maxSteps : Nat
  maxTime? : Option α
  history : Bool

/-- What a run works on: everything the solver works on, and the records of the run. -/
structure RunState (α ς σ : Type) where
  work : Workspace ς σ
  clock : Clock α
  state : IterState α
  history : Array (Tensor α)

/-- What a run ends with. -/
structure Outcome (α : Type) where
  point : Tensor α
  cost : α
  gradientNorm : α
  steps : Int
  reason : Reason
  costCalls : Nat
  gradientCalls : Nat
  history : Array (Tensor α)

/-- Whether a run has succeeded. -/
def Outcome.success {α : Type} (o : Outcome α) : Bool := o.reason.converged

/-- What a run has ended with, as a sentence. -/
def Outcome.message {α : Type} (o : Outcome α) : String := o.reason.sentence

/-- A computation within a run. -/
abbrev RunM (α ς σ β : Type) : Type := Attempt α (RunState α ς σ) β

variable {α ς σ β : Type} [Scalar α]

namespace Clock

/-- What the clock shows now, and the clock after this reading. -/
def read (c : Clock α) : α × Clock α := (c.reading c.position, { c with position := c.position + 1 })

end Clock

/-- The run that the options ask for, if they are in their ranges; it starts from a copy of the start
point. -/
def Plan.ofOptions (o : RunOptions α) : Except (Fault α) (Plan α) := do
  require (!decide (o.maxSteps < 0)) .stepLimit
  require (!(o.maxTime?.any fun time => decide (time ≤ 0))) .timeLimit
  let family ← Family.ofTensor o.start
  let start ← (family.copy o.start).mapError .mismatch
  return ⟨family, start, ← countOf o.maxSteps, o.maxTime?, o.history⟩

namespace RunM

/-- A computation of the solver. -/
def ofSolver (task : SolverM α ς σ β) : RunM α ς σ β :=
  Attempt.onPart RunState.work (fun work r => { r with work }) task

/-- One more entry in the journal. -/
def report (severity : Severity) (text : String) : RunM α ς σ Unit :=
  ofSolver (SolverM.report ⟨.run, severity, text⟩)

/-- What the clock shows. -/
def readClock : RunM α ς σ α := do
  let (time, clock) := (← get).clock.read
  modify fun r => { r with clock }
  return time

/-- Another iteration state. -/
def setState (state : IterState α) : RunM α ς σ Unit := modify fun r => { r with state }

end RunM

namespace Plan

variable (plan : Plan α) (solver : Solver α ς σ) (p : Problem α σ)

/-- A point is kept, if points are to be kept. -/
def keep (point : Tensor α) : RunM α ς σ Unit := do
  if plan.history then
    let copy ← Attempt.ofOperands (plan.family.copy point)
    modify fun r => { r with history := r.history.push copy }

/-- The norm of the gradient of an iterate, which must be known. -/
def gradientNorm (i : Iterate α) : RunM α ς σ α :=
  match i.gradient? with
  | some gradient => Attempt.ofOperands (plan.family.norm gradient)
  | none => throw (.mismatch .kind)

/-- Whether the time since the start of the run is over; without a limit the clock is not read. -/
def timeOver (startTime : α) : RunM α ς σ Bool :=
  match plan.maxTime? with
  | none => pure false
  | some limit => return decide (limit ≤ (← RunM.readClock) - startTime)

/-- The first iterate. -/
def prepare : RunM α ς σ (Iterate α) := do
  let state := (← get).state
  let first ← RunM.ofSolver (solver.init p state)
  RunM.setState (state.replace first)
  plan.keep first.point
  return first

/-- One step. -/
def advance [NumberText α] : RunM α ς σ (Iterate α) := do
  let state := (← get).state
  let next ← RunM.ofSolver (solver.step p state)
  let state := state.advance next
  RunM.setState state
  plan.keep next.point
  let norm ← plan.gradientNorm next
  RunM.report .debug ("iter " ++ toString state.steps ++ ": cost=" ++
    NumberText.scientific 7 next.cost ++ " |grad|=" ++ NumberText.scientific 4 norm)
  return next

/-- Whether and why the run ends before its next step, with `left` steps left: the criteria of the
solver come first, then the number of steps, then the time. -/
def verdict (startTime : α) (left : Nat) : RunM α ς σ Reason := do
  let own ← RunM.ofSolver (solver.terminate (← get).state)
  if own.terminated then return own
  else if left = 0 then return .maxIterations
  else if ← plan.timeOver startTime then return .timeout
  else return .notTerminated

/-- Steps until there is a reason to stop, at most as many as are left; `last` is the current
iterate. -/
def iterate [NumberText α] (startTime : α) :
    (left : Nat) → (last : Iterate α) → RunM α ς σ (Reason × Iterate α)
  | 0, last => return (← plan.verdict solver startTime 0, last)
  | left + 1, last => do
    let reason ← plan.verdict solver startTime (left + 1)
    if reason.terminated then return (reason, last)
    else iterate startTime left (← plan.advance solver p)

/-- The first iterate and all steps. A failure of the optimisation is entered into the journal. -/
def pursue [NumberText α] (startTime : α) : RunM α ς σ (Reason × Iterate α) :=
  tryCatch (do plan.iterate solver p startTime plan.maxSteps (← plan.prepare solver p)) fun fault => do
    if fault.ofOptimization then
      RunM.report .error (solver.name ++ " failed at iteration " ++
        toString (← get).state.steps ++ ": " ++ fault.message.getD "")
    throw fault

/-- The beginning of a run, and what the clock shows then. -/
def opening : RunM α ς σ α := do
  let startTime ← RunM.readClock
  let unknowns ← Attempt.ofOperands plan.start.length
  RunM.report .info ("Starting " ++ solver.name ++ " on a " ++ toString unknowns ++
    "-dimensional problem")
  return startTime

/-- The end of a run that stops for a reason. -/
def closing [NumberText α] (reason : Reason) (last : Iterate α) : RunM α ς σ (Outcome α) := do
  RunM.ofSolver (SolverM.markTerminated reason)
  let norm ← plan.gradientNorm last
  let r ← get
  RunM.report .info (solver.name ++ " stopped after " ++ toString r.state.steps ++
    " iterations: " ++ reason.text ++ " (cost=" ++ NumberText.scientific 7 last.cost ++
    ", |grad|=" ++ NumberText.scientific 4 norm ++ ")")
  return { point := last.point, cost := last.cost, gradientNorm := norm, steps := r.state.steps
           reason := reason, costCalls := r.work.ledger.costCalls
           gradientCalls := r.work.ledger.gradientCalls, history := r.history }

/-- The whole run. -/
def run [NumberText α] : RunM α ς σ (Outcome α) := do
  let (reason, last) ← plan.pursue solver p (← plan.opening solver)
  plan.closing solver reason last

/-- The whole run from a workspace and a clock: the outcome, and what they are like after it. -/
def execute [NumberText α] (work : Workspace ς σ) (clock : Clock α) :
    Except (Fault α) (Outcome α) × Workspace ς σ × Clock α :=
  let (outcome, r) := (plan.run solver p).outcome ⟨work, clock, { point := plan.start }, #[]⟩
  (outcome, r.work, r.clock)

end Plan

end QuasiNewton
