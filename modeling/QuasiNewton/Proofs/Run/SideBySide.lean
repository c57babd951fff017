import Mathlib.Data.List.Forall2
import QuasiNewton.Proofs.Run.Checkpoint

/-!
# Two runs side by side

Two runs, of two solvers on two problems, that look at the same clock. A `Likeness` says which points,
vectors, costs and faults of the one stand for which of the other. If the three parts of the solvers lead
from related states to related states, then so do all parts of the runs, and the runs take the same course:
they pass through related checks (`Plan.checkpoint_alike`) and end with related outcomes or with related
faults (`Plan.execute_alike`). Journals are not compared.
-/

set_option autoImplicit false

namespace QuasiNewton

open Attempt
open QuasiNewton.Decimal (NumberText)

/-! ### What stands for what -/

/-- What of one run stands for what of another one. -/
structure Likeness (α : Type) where
  /-- The family that computes in the first run. -/
  family : Family
  family' : Family
  point : Tensor α → Tensor α → Prop
  /-- Gradients, directions and differences of points. -/
  vector : Tensor α → Tensor α → Prop
  matrix : Tensor α → Tensor α → Prop
  cost : α → α → Prop
  fault : Fault α → Fault α → Prop

variable {α ς ς' σ σ' : Type}

/-- What a run itself asks of its points, gradients and faults has the same answers in both runs. -/
structure Likeness.Observed [Scalar α] (π : Likeness α) : Prop where
  length : ∀ x x', π.point x x' → x'.length = x.length
  copy : ∀ x x', π.point x x' → Agree π.point Eq (π.family.copy x) (π.family'.copy x')
  norm : ∀ g g', π.vector g g' → π.family'.norm g' = π.family.norm g
  /-- Faults that are not about a search stand for themselves. -/
  plain : ∀ e, (∀ cause, e ≠ .search cause) → π.fault e e
  ofOptimization : ∀ e e', π.fault e e' → e'.ofOptimization = e.ofOptimization

structure Iterate.Alike (π : Likeness α) (i i' : Iterate α) : Prop where
  point : π.point i.point i'.point
  cost : π.cost i.cost i'.cost
  gradient : Option.Rel π.vector i.gradient? i'.gradient?

structure IterState.Alike (π : Likeness α) (s s' : IterState α) : Prop where
  point : π.point s.point s'.point
  cost : Option.Rel π.cost s.cost? s'.cost?
  gradient : Option.Rel π.vector s.gradient? s'.gradient?
  previousPoint : Option.Rel π.point s.previous.point? s'.previous.point?
  previousCost : Option.Rel π.cost s.previous.cost? s'.previous.cost?
  previousGradient : Option.Rel π.vector s.previous.gradient? s'.previous.gradient?
  steps : s'.steps = s.steps

/-- Two workspaces with related ledgers and related solvers at the same stage. -/
structure Workspace.Alike (L : Ledger σ → Ledger σ' → Prop) (S : ς → ς' → Prop) (w : Workspace ς σ)
    (w' : Workspace ς' σ') : Prop where
  ledger : L w.ledger w'.ledger
  solver : S w.solver w'.solver
  lifecycle : w'.lifecycle = w.lifecycle

/-- Two runs at the same place. -/
structure RunState.Alike (π : Likeness α) (L : Ledger σ → Ledger σ' → Prop) (S : ς → ς' → Prop)
    (r : RunState α ς σ) (r' : RunState α ς' σ') : Prop where
  work : r.work.Alike L S r'.work
  clock : r'.clock = r.clock
  state : r.state.Alike π r'.state
  history : List.Forall₂ π.point r.history.toList r'.history.toList

structure Checkpoint.Alike (π : Likeness α) (L : Ledger σ → Ledger σ' → Prop) (S : ς → ς' → Prop)
    (c : Checkpoint α ς σ) (c' : Checkpoint α ς' σ') : Prop where
  last : c.last.Alike π c'.last
  run : c.run.Alike π L S c'.run

/-- Two outcomes of the same number of steps for the same reason. Their counts are those of two related
ledgers. -/
structure Outcome.Alike (π : Likeness α) (L : Ledger σ → Ledger σ' → Prop) (o o' : Outcome α) : Prop where
  point : π.point o.point o'.point
  cost : π.cost o.cost o'.cost
  gradientNorm : o'.gradientNorm = o.gradientNorm
  steps : o'.steps = o.steps
  reason : o'.reason = o.reason
  counts : ∃ l l', L l l' ∧ o.costCalls = l.costCalls ∧ o.gradientCalls = l.gradientCalls ∧
    o'.costCalls = l'.costCalls ∧ o'.gradientCalls = l'.gradientCalls
  history : List.Forall₂ π.point o.history.toList o'.history.toList

/-- Two plans with related start points and the same limits. -/
structure Plan.Alike (π : Likeness α) (plan plan' : Plan α) : Prop where
  family : plan.family = π.family
  family' : plan'.family = π.family'
  start : π.point plan.start plan'.start
  maxSteps : plan'.maxSteps = plan.maxSteps
  maxTime : plan'.maxTime? = plan.maxTime?
  history : plan'.history = plan.history

/-- The three parts of two solvers lead from related states to related states. -/
structure Solver.Alike (π : Likeness α) (L : Ledger σ → Ledger σ' → Prop) (S : ς → ς' → Prop)
    (solver : Solver α ς σ) (p : Problem α σ) (solver' : Solver α ς' σ') (p' : Problem α σ') : Prop where
  init : ∀ s s', s.Alike π s' → (solver.init p s).Corresponds (Workspace.Alike L S)
    (Iterate.Alike π) π.fault (solver'.init p' s')
  step : ∀ s s', s.Alike π s' → (solver.step p s).Corresponds (Workspace.Alike L S)
    (Iterate.Alike π) π.fault (solver'.step p' s')
  terminate : ∀ s s', s.Alike π s' → (solver.terminate s).Corresponds (Workspace.Alike L S) Eq
    π.fault (solver'.terminate s')

variable {π : Likeness α} {L : Ledger σ → Ledger σ' → Prop} {S : ς → ς' → Prop}

theorem optionRel_mono {β γ : Type} {R R' : β → γ → Prop} (h : ∀ x y, R x y → R' x y) {a : Option β}
    {b : Option γ} (related : Option.Rel R a b) : Option.Rel R' a b := by
  cases related with
  | none => exact .none
  | some same => exact .some (h _ _ same)

theorem eq_of_optionRel {β : Type} {R : β → β → Prop} (h : ∀ x y, R x y → y = x) {a b : Option β}
    (related : Option.Rel R a b) : b = a := by
  cases related with
  | none => rfl
  | some same => rw [h _ _ same]

theorem IterState.Alike.replace {s s' : IterState α} (h : s.Alike π s') {i i' : Iterate α}
    (hi : i.Alike π i') : (s.replace i).Alike π (s'.replace i') :=
  { h with point := hi.point, cost := .some hi.cost, gradient := hi.gradient }

theorem IterState.Alike.advance {s s' : IterState α} (h : s.Alike π s') {i i' : Iterate α}
    (hi : i.Alike π i') : (s.advance i).Alike π (s'.advance i') where
  point := hi.point
  cost := .some hi.cost
  gradient := hi.gradient
  previousPoint := .some h.point
  previousCost := h.cost
  previousGradient := h.gradient
  steps := congrArg (· + 1) h.steps

/-- Only equals stand for each other. -/
structure Likeness.OfEquals (π : Likeness α) : Prop where
  point : ∀ x x', π.point x x' → x' = x
  vector : ∀ v v', π.vector v v' → v' = v
  matrix : ∀ m m', π.matrix m m' → m' = m
  cost : ∀ c c', π.cost c c' → c' = c
  fault : ∀ e e', π.fault e e' → e' = e

namespace Likeness.OfEquals

variable (h : π.OfEquals)

include h

theorem iterate {i i' : Iterate α} (related : i.Alike π i') : i' = i := by
  obtain ⟨x, c, g⟩ := i
  obtain ⟨x', c', g'⟩ := i'
  obtain rfl := h.point _ _ related.point
  obtain rfl := h.cost _ _ related.cost
  obtain rfl := eq_of_optionRel h.vector related.gradient
  rfl

theorem state {s s' : IterState α} (related : s.Alike π s') : s' = s := by
  obtain ⟨x, c, g, ⟨px, pc, pg⟩, k⟩ := s
  obtain ⟨x', c', g', ⟨px', pc', pg'⟩, k'⟩ := s'
  obtain rfl := h.point _ _ related.point
  obtain rfl := eq_of_optionRel h.cost related.cost
  obtain rfl := eq_of_optionRel h.vector related.gradient
  obtain rfl := eq_of_optionRel h.point related.previousPoint
  obtain rfl := eq_of_optionRel h.cost related.previousCost
  obtain rfl := eq_of_optionRel h.vector related.previousGradient
  obtain rfl := related.steps
  rfl

theorem history {a a' : Array (Tensor α)} (related : List.Forall₂ π.point a.toList a'.toList) :
    a' = a := by
  have same := related.imp fun x x' hx => (h.point x x' hx).symm
  rw [List.forall₂_eq_eq_eq] at same
  exact (Array.toList_inj.mp same).symm

end Likeness.OfEquals

namespace Likeness.Observed

variable [Scalar α] (h : π.Observed)

include h

theorem mismatch (cause : Mismatch) : π.fault (.mismatch cause) (.mismatch cause) :=
  h.plain _ fun _ => nofun

theorem stage (name : String) (status : Status) : π.fault (.stage name status) (.stage name status) :=
  h.plain _ fun _ => nofun

end Likeness.Observed

/-! ### The parts of two runs -/

section Parts

variable {F : Fault α → Fault α → Prop}

theorem RunM.ofSolver_alike {β γ : Type} {Q : β → γ → Prop} {task : SolverM α ς σ β}
    {task' : SolverM α ς' σ' γ} (h : task.Corresponds (Workspace.Alike L S) Q F task') :
    (RunM.ofSolver task).Corresponds (RunState.Alike π L S) Q F (RunM.ofSolver task') :=
  h.onPart (fun _ _ related => related.work) fun _ _ _ _ related after => { related with work := after }

/-- Entries in the journals may differ. -/
theorem RunM.report_alike (severity severity' : Severity) (text text' : String) :
    (RunM.report severity text).Corresponds (RunState.Alike π L S) Eq F
      (RunM.report severity' text') :=
  ofSolver_alike (.change fun _ _ related => ⟨related.ledger, related.solver, related.lifecycle⟩)

theorem RunM.readClock_alike :
    (RunM.readClock : RunM α ς σ α).Corresponds (RunState.Alike π L S) Eq F
      (RunM.readClock : RunM α ς' σ' α) := by
  unfold readClock
  refine Corresponds.states.bind fun r r' related => ?_
  have same := related.clock
  rw [same]
  refine (Corresponds.change fun s s' after => ?_).bind fun _ _ _ => .pure rfl
  exact { after with clock := rfl }

theorem RunM.setState_alike {s s' : IterState α} (h : s.Alike π s') :
    (RunM.setState s : RunM α ς σ Unit).Corresponds (RunState.Alike π L S) Eq F
      (RunM.setState s' : RunM α ς' σ' Unit) :=
  .change fun _ _ related => { related with state := h }

end Parts

namespace Plan

variable [Scalar α] {plan plan' : Plan α} {solver : Solver α ς σ} {p : Problem α σ}
  {solver' : Solver α ς' σ'} {p' : Problem α σ'}

section Parts

variable (h : π.Observed) (plans : plan.Alike π plan')

include h plans

theorem keep_alike {x x' : Tensor α} (hx : π.point x x') :
    (plan.keep x : RunM α ς σ Unit).Corresponds (RunState.Alike π L S) Eq π.fault
      (plan'.keep x' : RunM α ς' σ' Unit) := by
  unfold keep
  rw [plans.history, plans.family, plans.family']
  split
  · refine (Corresponds.ofOperands (h.copy x x' hx) h.mismatch).bind fun y y' hy => ?_
    refine Corresponds.change fun r r' related => { related with history := ?_ }
    simpa using List.rel_append related.history (.cons hy .nil)
  · exact .pure rfl

theorem gradientNorm_alike {i i' : Iterate α} (hi : i.Alike π i') :
    (plan.gradientNorm i : RunM α ς σ α).Corresponds (RunState.Alike π L S) Eq π.fault
      (plan'.gradientNorm i' : RunM α ς' σ' α) := by
  have gradients := hi.gradient
  unfold gradientNorm
  rw [plans.family, plans.family']
  rcases hg : i.gradient? with _ | g <;> rcases hg' : i'.gradient? with _ | g' <;>
    rw [hg, hg'] at gradients <;> cases gradients
  · exact .throw (h.mismatch _)
  · exact .ofOperands (.of_eq (h.norm g g' ‹_›).symm) h.mismatch

omit h in
theorem timeOver_alike (startTime : α) :
    (plan.timeOver startTime : RunM α ς σ Bool).Corresponds (RunState.Alike π L S) Eq π.fault
      (plan'.timeOver startTime : RunM α ς' σ' Bool) := by
  unfold timeOver
  rw [plans.maxTime]
  split
  · exact .pure rfl
  · refine RunM.readClock_alike.bind fun time time' same => ?_
    subst same
    exact .pure rfl

theorem opening_alike :
    (plan.opening solver : RunM α ς σ α).Corresponds (RunState.Alike π L S) Eq π.fault
      (plan'.opening solver' : RunM α ς' σ' α) := by
  refine RunM.readClock_alike.bind fun time time' same => ?_
  subst same
  have length := h.length _ _ plans.start
  refine (Corresponds.ofOperands (.of_eq length.symm) h.mismatch).bind fun _ _ _ => ?_
  exact (RunM.report_alike _ _ _ _).bind fun _ _ _ => .pure rfl

variable (solvers : Solver.Alike π L S solver p solver' p')

include solvers

theorem prepare_alike :
    (plan.prepare solver p).Corresponds (RunState.Alike π L S) (Iterate.Alike π) π.fault
      (plan'.prepare solver' p') := by
  refine Corresponds.states.bind fun r r' related => ?_
  refine (RunM.ofSolver_alike (solvers.init _ _ related.state)).bind fun i i' hi => ?_
  refine (RunM.setState_alike (related.state.replace hi)).bind fun _ _ _ => ?_
  exact (keep_alike h plans hi.point).bind fun _ _ _ => .pure hi

theorem advance_alike [NumberText α] :
    (plan.advance solver p).Corresponds (RunState.Alike π L S) (Iterate.Alike π) π.fault
      (plan'.advance solver' p') := by
  refine Corresponds.states.bind fun r r' related => ?_
  refine (RunM.ofSolver_alike (solvers.step _ _ related.state)).bind fun i i' hi => ?_
  refine (RunM.setState_alike (related.state.advance hi)).bind fun _ _ _ => ?_
  refine (keep_alike h plans hi.point).bind fun _ _ _ => ?_
  refine (gradientNorm_alike h plans hi).bind fun _ _ _ => ?_
  exact (RunM.report_alike _ _ _ _).bind fun _ _ _ => .pure hi

omit h in
theorem verdict_alike (startTime : α) (left : ℕ) :
    (plan.verdict solver startTime left).Corresponds (RunState.Alike π L S) Eq π.fault
      (plan'.verdict solver' startTime left) := by
  refine Corresponds.states.bind fun r r' related => ?_
  refine (RunM.ofSolver_alike (solvers.terminate _ _ related.state)).bind fun own own' same => ?_
  subst same
  split
  · exact .pure rfl
  · split
    · exact .pure rfl
    · refine (timeOver_alike plans startTime).bind fun late late' same => ?_
      subst same
      split <;> exact .pure rfl

/-! ### The course of two runs -/

variable [NumberText α]

/-- Steps side by side, by induction on the steps that are left. -/
theorem iterate_alike (startTime : α) (left : ℕ) {last last' : Iterate α}
    (hlast : last.Alike π last') :
    (plan.iterate solver p startTime left last).Corresponds (RunState.Alike π L S)
      (fun r r' => r'.1 = r.1 ∧ r.2.Alike π r'.2) π.fault
      (plan'.iterate solver' p' startTime left last') := by
  induction left generalizing last last' with
  | zero =>
    refine (verdict_alike plans solvers startTime 0).bind fun reason reason' same => ?_
    subst same
    exact .pure ⟨rfl, hlast⟩
  | succ left ih =>
    refine (verdict_alike plans solvers startTime (left + 1)).bind fun reason reason' same => ?_
    subst same
    split
    · exact .pure ⟨rfl, hlast⟩
    · exact (advance_alike h plans solvers).bind fun next next' hnext => ih hnext

theorem pursue_alike (startTime : α) :
    (plan.pursue solver p startTime).Corresponds (RunState.Alike π L S)
      (fun r r' => r'.1 = r.1 ∧ r.2.Alike π r'.2) π.fault (plan'.pursue solver' p' startTime) := by
  refine Corresponds.tryCatch (E := π.fault) ?_ fun e e' he => ?_
  · rw [plans.maxSteps]
    exact (prepare_alike h plans solvers).bind fun first first' hfirst =>
      iterate_alike h plans solvers startTime plan.maxSteps hfirst
  · rw [h.ofOptimization e e' he]
    split
    · refine Corresponds.states.bind fun _ _ _ => ?_
      exact (RunM.report_alike _ _ _ _).bind fun _ _ _ => .throw he
    · exact .throw he

omit solvers in
theorem closing_alike (reason : Reason) {last last' : Iterate α} (hlast : last.Alike π last') :
    (plan.closing solver reason last : RunM α ς σ _).Corresponds (RunState.Alike π L S)
      (Outcome.Alike π L) π.fault (plan'.closing solver' reason last' : RunM α ς' σ' _) := by
  have marked : (SolverM.markTerminated reason : SolverM α ς σ Unit).Corresponds
      (Workspace.Alike L S) Eq π.fault (SolverM.markTerminated reason : SolverM α ς' σ' Unit) :=
    .change fun _ _ related => { related with lifecycle := rfl }
  refine (RunM.ofSolver_alike marked).bind fun _ _ _ => ?_
  refine (gradientNorm_alike h plans hlast).bind fun norm norm' same => ?_
  subst same
  refine Corresponds.states.bind fun r r' related => ?_
  refine (RunM.report_alike _ _ _ _).bind fun _ _ _ => .pure ?_
  exact {
    point := hlast.point
    cost := hlast.cost
    gradientNorm := rfl
    steps := related.state.steps
    reason := rfl
    counts := ⟨_, _, related.work.ledger, rfl, rfl, rfl, rfl⟩
    history := related.history }

theorem run_alike :
    (plan.run solver p).Corresponds (RunState.Alike π L S) (Outcome.Alike π L) π.fault
      (plan'.run solver' p') := by
  refine (opening_alike h plans).bind fun time time' same => ?_
  subst same
  refine (pursue_alike h plans solvers time).bind fun r r' ended => ?_
  obtain ⟨reason, last⟩ := r
  obtain ⟨reason', last'⟩ := r'
  obtain ⟨rfl, hlast⟩ := ended
  exact closing_alike h plans reason' hlast

/-- Two related checks lead to related checks. -/
theorem nextCheckpoint_alike (startTime : α) (left : ℕ) {c : Checkpoint α ς σ}
    {c' : Checkpoint α ς' σ'} (hc : c.Alike π L S c') :
    Option.Rel (Checkpoint.Alike π L S) (plan.nextCheckpoint solver p startTime left c)
      (plan'.nextCheckpoint solver' p' startTime left c') := by
  obtain ⟨checked, verdicts⟩ := verdict_alike plans solvers startTime left _ _ hc.run
  unfold nextCheckpoint
  rcases hv : (plan.verdict solver startTime left).outcome c.run with ⟨verdict, r⟩
  rcases hv' : (plan'.verdict solver' startTime left).outcome c'.run with ⟨verdict', r'⟩
  rw [hv, hv'] at checked verdicts
  cases verdicts with
  | error => exact .none
  | @ok reason reason' same =>
    subst same
    cases reason
    case notTerminated =>
      obtain ⟨advanced, nexts⟩ := advance_alike h plans solvers _ _ checked
      dsimp only at advanced nexts ⊢
      rcases ha : (plan.advance solver p).outcome r with ⟨next, s⟩
      rcases ha' : (plan'.advance solver' p').outcome r' with ⟨next', s'⟩
      rw [ha, ha'] at advanced nexts
      cases nexts with
      | error => exact .none
      | ok hnext => exact .some ⟨hnext, advanced⟩
    all_goals exact .none

end Parts

variable {work : Workspace ς σ} {work' : Workspace ς' σ'}

omit [Scalar α] in
theorem initial_alike (plans : plan.Alike π plan') (works : work.Alike L S work')
    (clock : Clock α) : (plan.initial work clock).Alike π L S (plan'.initial work' clock) where
  work := works
  clock := rfl
  state := ⟨plans.start, .none, .none, .none, .none, .none, rfl⟩
  history := .nil

variable [NumberText α] (h : π.Observed) (plans : plan.Alike π plan')
  (solvers : Solver.Alike π L S solver p solver' p') (works : work.Alike L S work')

include h plans solvers works

/-- **Two runs side by side end alike**, with related outcomes or related faults, and they leave related
workspaces. -/
theorem execute_alike (clock : Clock α) :
    Agree (Outcome.Alike π L) π.fault (plan.execute solver p work clock).1
        (plan'.execute solver' p' work' clock).1 ∧
      (plan.execute solver p work clock).2.1.Alike L S (plan'.execute solver' p' work' clock).2.1 ∧
      (plan'.execute solver' p' work' clock).2.2 = (plan.execute solver p work clock).2.2 := by
  obtain ⟨after, answers⟩ :=
    run_alike h plans solvers _ _ (initial_alike plans works clock)
  exact ⟨answers, after.work, after.clock⟩

/-- **Two runs side by side pass through related checks**, as long as either gets there. -/
theorem checkpoint_alike (clock : Clock α) (k : ℕ) :
    Option.Rel (Checkpoint.Alike π L S) (plan.checkpoint solver p work clock k)
      (plan'.checkpoint solver' p' work' clock k) := by
  induction k with
  | zero =>
    have begun : (plan.opening solver >>= fun _ => plan.prepare solver p).Corresponds
        (RunState.Alike π L S) (Iterate.Alike π) π.fault
        (plan'.opening solver' >>= fun _ => plan'.prepare solver' p') :=
      (opening_alike h plans).bind fun _ _ _ => prepare_alike h plans solvers
    obtain ⟨after, answers⟩ := begun _ _ (initial_alike plans works clock)
    unfold checkpoint
    rcases ha : (plan.opening solver >>= fun _ => plan.prepare solver p).outcome
      (plan.initial work clock) with ⟨result, r⟩
    rcases hb : (plan'.opening solver' >>= fun _ => plan'.prepare solver' p').outcome
      (plan'.initial work' clock) with ⟨result', r'⟩
    rw [ha, hb] at after answers
    cases answers with
    | ok same => exact .some ⟨same, after⟩
    | error => exact .none
  | succ k ih =>
    unfold checkpoint
    rw [plans.maxSteps]
    rcases hc : plan.checkpoint solver p work clock k with _ | c <;>
      rcases hc' : plan'.checkpoint solver' p' work' clock k with _ | c' <;> rw [hc, hc'] at ih
    · exact .none
    · cases ih
    · cases ih
    · cases ih with
      | some related => exact nextCheckpoint_alike h plans solvers _ _ related

end Plan

end QuasiNewton
