import QuasiNewton.Proofs.LineSearch.Start
import QuasiNewton.Proofs.Run.Checkpoint
import QuasiNewton.RankOne.Solver

/-!
# What the rank-one solver does

One lemma for each operation of the rank-one solver, which tells what has happened where the operation
has succeeded. A step computes a direction, searches along it, asks for the gradient at the point found
and corrects the matrix; `RankOne.StepRecord` keeps all of it together with how it was computed.
-/

set_option autoImplicit false

namespace QuasiNewton.RankOne

open Attempt
open QuasiNewton.Decimal (NumberText)

section Operations

variable {α σ : Type} [Scalar α] {w w' : Workspace (RankOne α) σ}

/-- Whether a correction is made. -/
def Correction.isMade : Correction α → Bool
  | .skipped _ _ => false
  | .made _ => true

/-- The search of the step from an iteration state with a known gradient. -/
def searchOf (r : RankOne α) (p : Problem α σ) (state : IterState α) (gradient : Tensor α) :
    Evaluation α σ (Accepted α) := do
  let direction ← Attempt.ofOperands (r.direction gradient)
  (r.search.configure ⟨some state.point, some gradient, state.cost?, some direction⟩).run p

/-- What the search of the next step answers at a check: the step length, the point and its cost, or a
fault. -/
def nextSearch (p : Problem α σ) (c : Checkpoint α (RankOne α) σ) :
    Option (Except (Fault α) (Accepted α)) :=
  c.run.state.gradient?.map fun g =>
    ((c.run.work.solver.searchOf p c.run.state g).outcome c.run.work.ledger).1

/-- A workspace in which nothing has happened yet, with a solver that holds a matrix. -/
def freshWork (family : Family) (inverse : Tensor α) (method : Method α) (state : σ) :
    Workspace (RankOne α) σ where
  ledger := .fresh (some family) state
  solver := { family, inverse, search := { method }, tolerances := {} }
  lifecycle := {}
  journal := { threshold := .info }

omit [Scalar α] in
theorem requireStage_ok {ς : Type} {w w' : Workspace ς σ} {name : String} {allowed : List Status}
    {u : Unit} (h : (SolverM.requireStage name allowed : SolverM α ς σ Unit).outcome w = (.ok u, w')) :
    w.lifecycle.status ∈ allowed ∧ w = w' := by
  simp only [SolverM.requireStage, bind_ok, get_ok] at h
  obtain ⟨_, _, ⟨rfl, rfl⟩, h⟩ := h
  split at h
  case isTrue listed =>
    exact ⟨by simpa using listed, (pure_ok.mp h).2⟩
  case isFalse => exact absurd h throw_ok

theorem terminate_ok {state : IterState α} {reason : Reason}
    (h : (terminate state).outcome w = (.ok reason, w')) :
    w.solver.stopReason state = .ok reason ∧ w = w' := by
  simp only [terminate, bind_ok, get_ok, ofOperands_ok] at h
  obtain ⟨_, _, ⟨rfl, rfl⟩, asked, rfl⟩ := h
  exact ⟨asked, rfl⟩

/-- The first iterate is the start point with its cost and its gradient. -/
theorem init_ok {p : Problem α σ} {state : IterState α} {first : Iterate α}
    (h : (init p state).outcome w = (.ok first, w')) :
    ∃ l gradient, (p.evaluateCost state.point).outcome w.ledger = (.ok first.cost, l) ∧
      (p.evaluateGradient state.point).outcome l = (.ok gradient, w'.ledger) ∧
      first.point = state.point ∧ first.gradient? = some gradient ∧ w'.solver = w.solver ∧
      w'.lifecycle.status = .iterating := by
  simp only [init, SolverM.ofEvaluation, SolverM.enterStage, bind_ok, onPart_ok, modify_ok,
    pure_ok] at h
  obtain ⟨_, _, allowed, cost, _, ⟨l, hcost, rfl⟩, gradient, _, ⟨l', hgradient, rfl⟩, _, _, rfl, rfl,
    rfl⟩ := h
  obtain ⟨-, rfl⟩ := requireStage_ok allowed
  exact ⟨l, gradient, hcost, hgradient, rfl, rfl, rfl, rfl⟩

variable [NumberText α]

/-- A correction changes the matrix and the counters; the answer is whether it was made. -/
theorem update_ok {s y : Tensor α} {answer : Bool}
    (h : (update s y).outcome w = (.ok answer, w')) :
    ∃ correction, w.solver.correction s y = .ok correction ∧ answer = correction.isMade ∧
      w'.solver = w.solver.apply correction ∧ w'.ledger = w.ledger ∧ w'.lifecycle = w.lifecycle := by
  simp only [update, bind_ok, get_ok, ofOperands_ok, modify_ok] at h
  obtain ⟨_, _, ⟨rfl, rfl⟩, correction, _, ⟨computed, rfl⟩, _, _, rfl, h⟩ := h
  refine ⟨correction, computed, ?_⟩
  cases correction with
  | skipped size threshold =>
    simp only [SolverM.report, bind_ok, modify_ok, pure_ok] at h
    obtain ⟨_, _, rfl, rfl, rfl⟩ := h
    exact ⟨rfl, rfl, rfl, rfl⟩
  | made inverse =>
    simp only [bind_ok, get_ok] at h
    obtain ⟨_, _, ⟨rfl, rfl⟩, h⟩ := h
    split at h
    case isTrue =>
      simp only [bind_ok, ofOperands_ok] at h
      obtain ⟨definite, _, ⟨-, rfl⟩, h⟩ := h
      split at h
      case isTrue =>
        obtain ⟨rfl, rfl⟩ := pure_ok.mp h
        exact ⟨rfl, rfl, rfl, rfl⟩
      case isFalse =>
        simp only [SolverM.report, bind_ok, modify_ok, pure_ok] at h
        obtain ⟨_, _, rfl, rfl, rfl⟩ := h
        exact ⟨rfl, rfl, rfl, rfl⟩
    case isFalse =>
      obtain ⟨rfl, rfl⟩ := pure_ok.mp h
      exact ⟨rfl, rfl, rfl, rfl⟩

omit [NumberText α] in
/-- The matrix of a correction can be asked for its definiteness. -/
def Correction.Examinable (c : Correction α) : Prop :=
  ∀ inverse, c = .made inverse → ∃ answer, inverse.isDefinite Tensor.definitenessTolerance = .ok answer

/-- A correction that cannot be computed changes nothing. -/
theorem update_fails {s y : Tensor α} {cause : Mismatch} (h : w.solver.correction s y = .error cause) :
    (update s y).outcome w = (.error (.mismatch cause), w) := by
  simp only [update, outcome_bind, outcome_get, h, outcome_ofOperands_error]

/-- A correction that can be computed and examined is made or skipped without failing. -/
theorem update_succeeds {s y : Tensor α} {c : Correction α} (hc : w.solver.correction s y = .ok c)
    (examinable : c.Examinable) :
    ∃ w', (update s y).outcome w = (.ok c.isMade, w') ∧ w'.solver = w.solver.apply c ∧
      w'.ledger = w.ledger ∧ w'.lifecycle = w.lifecycle := by
  obtain ⟨answer, w', run⟩ : ∃ answer w', (update s y).outcome w = (.ok answer, w') := by
    simp only [update, outcome_bind, outcome_get, hc, outcome_ofOperands_ok, outcome_modify]
    cases c with
    | skipped size threshold => exact ⟨_, _, rfl⟩
    | made inverse =>
      obtain ⟨answer, asked⟩ := examinable inverse rfl
      simp only [outcome_bind, outcome_get]
      split
      case isFalse => exact ⟨_, _, rfl⟩
      case isTrue =>
        simp only [asked, outcome_bind, outcome_ofOperands_ok]
        split <;> exact ⟨_, _, rfl⟩
  obtain ⟨c', computed, rfl, rest⟩ := update_ok run
  obtain rfl := Except.ok.inj (hc.symm.trans computed)
  exact ⟨w', run, rest⟩

omit [NumberText α] in
theorem apply_search (r : RankOne α) (c : Correction α) :
    (r.apply c).search = r.search ∧ (r.apply c).tolerances = r.tolerances := by
  cases c <;> exact ⟨rfl, rfl⟩

omit [NumberText α] in
theorem apply_family (r : RankOne α) (c : Correction α) : (r.apply c).family = r.family := by
  cases c <;> rfl

/-- A step is its search, the gradient at the point found, and a correction. -/
theorem stepFrom_eq (p : Problem α σ) (state : IterState α) (g : Tensor α) :
    stepFrom p state g = (do
      let found ← SolverM.ofEvaluation ((← get).solver.searchOf p state g)
      let gradient ← SolverM.ofEvaluation (p.evaluateGradient found.point)
      let y ← Attempt.ofOperands (gradient.sub g)
      let s ← Attempt.ofOperands (found.point.sub state.point)
      let _ ← update s y
      return ⟨found.point, found.cost, some gradient⟩) := by
  have outcomes (w : Workspace (RankOne α) σ) : (stepFrom p state g).outcome w = (do
      let found ← SolverM.ofEvaluation ((← get).solver.searchOf p state g)
      let gradient ← SolverM.ofEvaluation (p.evaluateGradient found.point)
      let y ← Attempt.ofOperands (gradient.sub g)
      let s ← Attempt.ofOperands (found.point.sub state.point)
      let _ ← update s y
      return ⟨found.point, found.cost, some gradient⟩ : SolverM α (RankOne α) σ (Iterate α)).outcome
        w := by
    simp only [stepFrom, searchOf, SolverM.ofEvaluation, outcome_bind, outcome_get, outcome_onPart]
    rcases w.solver.direction g with cause | d <;> rfl
  exact funext outcomes

/-- A step that succeeds searches from a known gradient, asks for the gradient at the point found, and makes
or skips one correction. -/
theorem step_parts {p : Problem α σ} {state : IterState α} {next : Iterate α}
    (h : (step p state).outcome w = (.ok next, w')) :
    ∃ before found searched gradient correction,
      state.gradient? = some before ∧
      (w.solver.searchOf p state before).outcome w.ledger = (.ok found, searched) ∧
      (p.evaluateGradient found.point).outcome searched = (.ok gradient, w'.ledger) ∧
      next = ⟨found.point, found.cost, some gradient⟩ ∧ w'.solver = w.solver.apply correction := by
  simp only [step, bind_ok] at h
  obtain ⟨_, _, allowed, h⟩ := h
  obtain ⟨-, rfl⟩ := requireStage_ok allowed
  cases known : state.gradient? with
  | none =>
    simp only [known, bind_ok] at h
    obtain ⟨_, _, -, thrown⟩ := h
    exact absurd thrown throw_ok
  | some before =>
    simp only [known, stepFrom, SolverM.ofEvaluation, bind_ok, get_ok, onPart_ok, ofOperands_ok,
      pure_ok] at h
    obtain ⟨_, _, ⟨rfl, rfl⟩, direction, _, ⟨along, rfl⟩, found, _, ⟨searched, search, rfl⟩, gradient, _,
      ⟨l, asked, rfl⟩, y, _, ⟨-, rfl⟩, s, _, ⟨-, rfl⟩, answer, _, updated, rfl, rfl⟩ := h
    obtain ⟨correction, -, -, solver, ledger, -⟩ := update_ok updated
    refine ⟨before, found, searched, gradient, correction, rfl, ?_, ledger ▸ asked, rfl, solver⟩
    simp only [searchOf, along, ofOperands_of_ok, pure_bind]
    exact search

/-- A check leaves all as it is, but for the clock. -/
theorem checked_ok {plan : Plan α} {left : ℕ} {r r' : RunState α (RankOne α) σ} {reason : Reason}
    (h : plan.Checked solver left r reason r') :
    r'.work = r.work ∧ r'.state = r.state ∧ r'.history = r.history := by
  obtain ⟨own, asked, -⟩ := h.decided
  exact ⟨(terminate_ok asked).2.symm, h.state, h.history⟩

end Operations

variable {σ : Type}

/-- All that a step computes, with the computations: from the state with the gradient `g` and the cost
`cost` and the workspace `w` to the next iterate and the workspace `w'`. -/
structure StepRecord (p : Problem ℝ σ) (state : IterState ℝ) (g : Tensor ℝ) (cost : ℝ)
    (w : Workspace (RankOne ℝ) σ) (next : Iterate ℝ) (w' : Workspace (RankOne ℝ) σ) where
  direction : Tensor ℝ
  family : Family
  slope : ℝ
  found : Step ℝ
  searched : Ledger σ
  gradient : Tensor ℝ
  s : Tensor ℝ
  y : Tensor ℝ
  correction : Correction ℝ
  direction_eq : w.solver.direction g = .ok direction
  family_eq : Family.ofTensor state.point = .ok family
  slope_eq : family.dot g direction = .ok slope
  descent : slope < 0
  search_eq : (w.solver.search.method.search (p.line family state.point direction) cost slope).outcome
    w.ledger = (.ok found, searched)
  point_eq : family.scaledAdd state.point (.real found.alpha) direction = .ok next.point
  cost_eq : next.cost = found.cost
  asked : (p.evaluateGradient next.point).outcome searched = (.ok gradient, w'.ledger)
  gradient_eq : next.gradient? = some gradient
  y_eq : gradient.sub g = .ok y
  s_eq : next.point.sub state.point = .ok s
  correction_eq : w.solver.correction s y = .ok correction
  solver_eq : w'.solver = w.solver.apply correction
  lifecycle_eq : w'.lifecycle = w.lifecycle

/-- **A step that succeeds has a record.** -/
theorem step_ok [NumberText ℝ] {p : Problem ℝ σ} {state : IterState ℝ} {g : Tensor ℝ} {cost : ℝ}
    {w w' : Workspace (RankOne ℝ) σ} {next : Iterate ℝ} (hg : state.gradient? = some g)
    (hcost : state.cost? = some cost) (h : (step p state).outcome w = (.ok next, w')) :
    Nonempty (StepRecord p state g cost w next w') := by
  simp only [step, hg, stepFrom, SolverM.ofEvaluation, LineSearch.configure, hcost, bind_ok, get_ok,
    onPart_ok, ofOperands_ok, pure_ok] at h
  obtain ⟨_, _, allowed, _, _, ⟨rfl, rfl⟩, direction, _, ⟨hdirection, rfl⟩, found, _,
    ⟨searched, search, rfl⟩, gradient, _, ⟨l, asked, rfl⟩, y, _, ⟨hy, rfl⟩, s, _, ⟨hs, rfl⟩, answer,
    _, updated, rfl, rfl⟩ := h
  obtain ⟨-, rfl⟩ := requireStage_ok allowed
  obtain ⟨family, slope, hfamily, hslope, descent, hfound, hpoint⟩ := LineSearch.run_ok search
  obtain ⟨correction, hcorrection, -, hsolver, hledger, hlifecycle⟩ := update_ok updated
  exact ⟨{
    direction, family, slope, found := ⟨found.alpha, found.cost, found.trials⟩, searched, gradient, s
    y, correction, direction_eq := hdirection, family_eq := hfamily, slope_eq := hslope, descent
    search_eq := hfound, point_eq := hpoint, cost_eq := rfl, asked := hledger ▸ asked
    gradient_eq := rfl, y_eq := hy, s_eq := hs, correction_eq := hcorrection, solver_eq := hsolver
    lifecycle_eq := hlifecycle }⟩

end QuasiNewton.RankOne
