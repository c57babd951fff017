import QuasiNewton.Proofs.Run.Checkpoint

/-!
# Steps from known gradients

A run asks for a step only from an iterate that its solver has handed out. If the solver hands out all
iterates with their gradients, then it does not matter what it would do without one: the run is the run of
the guarded solver, which refuses a step where the gradient is not known. Two solvers that refuse such a
step in different words can be compared in this way.
-/

set_option autoImplicit false

namespace QuasiNewton

open Attempt
open QuasiNewton.Decimal (NumberText)

variable {α ς σ : Type}

/-- The solver without its steps from states with no known gradient. -/
def Solver.guarded (solver : Solver α ς σ) : Solver α ς σ :=
  { solver with
    step := fun p state =>
      if state.gradient?.isSome then solver.step p state else throw (.mismatch .noShape) }

theorem Solver.guarded_step {solver : Solver α ς σ} {p : Problem α σ} {state : IterState α}
    (known : state.gradient?.isSome = true) : solver.guarded.step p state = solver.step p state :=
  if_pos known

theorem Solver.guarded_refuses {solver : Solver α ς σ} {p : Problem α σ} {state : IterState α}
    (unknown : state.gradient? = none) : solver.guarded.step p state = throw (.mismatch .noShape) :=
  if_neg (by simp [unknown])

/-- A solver that hands out its iterates with their gradients. -/
structure Solver.Informs (solver : Solver α ς σ) (p : Problem α σ) : Prop where
  init : ∀ state w i w', (solver.init p state).outcome w = (.ok i, w') → i.gradient?.isSome = true
  step : ∀ state w i w', (solver.step p state).outcome w = (.ok i, w') → i.gradient?.isSome = true

namespace Plan

variable [Scalar α] [NumberText α] {plan : Plan α} {solver : Solver α ς σ} {p : Problem α σ}
  {r r' : RunState α ς σ}

theorem advance_guarded (known : r.state.gradient?.isSome = true) :
    (plan.advance solver.guarded p).outcome r = (plan.advance solver p).outcome r := by
  simp only [advance, outcome_bind, outcome_get, Solver.guarded_step known]

variable (informs : solver.Informs p)

include informs

omit [NumberText α] in
theorem known_of_prepare {first : Iterate α} (h : (plan.prepare solver p).outcome r = (.ok first, r')) :
    r'.state.gradient?.isSome = true := by
  obtain ⟨⟨w, init, -⟩, state, -⟩ := prepare_ok h
  rw [state]
  exact informs.init _ _ _ _ init

theorem known_of_advance {next : Iterate α} (h : (plan.advance solver p).outcome r = (.ok next, r')) :
    r'.state.gradient?.isSome = true := by
  have advanced := advance_ok h
  obtain ⟨w, step, -⟩ := advanced.step
  rw [advanced.state]
  exact informs.step _ _ _ _ step

/-- The gradient stays known from step to step, by induction on the steps that are left. -/
theorem iterate_guarded (startTime : α) (left : Nat) (last : Iterate α)
    (known : r.state.gradient?.isSome = true) :
    (plan.iterate solver.guarded p startTime left last).outcome r =
      (plan.iterate solver p startTime left last).outcome r := by
  induction left generalizing r last with
  | zero => rfl
  | succ left ih =>
    have verdicts : plan.verdict solver.guarded startTime (left + 1) =
        plan.verdict solver startTime (left + 1) := rfl
    simp only [iterate, outcome_bind, verdicts]
    rcases checked : (plan.verdict solver startTime (left + 1)).outcome r with ⟨e | reason, t⟩
    · rfl
    · -- a check leaves the state as it is
      have known' : t.state.gradient?.isSome = true := by rwa [(verdict_ok checked).state]
      by_cases stops : reason.terminated = true
      · simp only [stops, if_true]
      · simp only [stops, Bool.false_eq_true, if_false, outcome_bind, advance_guarded known']
        rcases advanced : (plan.advance solver p).outcome t with ⟨e | next, u⟩
        · rfl
        · exact ih next (known_of_advance informs advanced)

theorem pursue_guarded (startTime : α) :
    (plan.pursue solver.guarded p startTime).outcome r = (plan.pursue solver p startTime).outcome r := by
  have prepares : plan.prepare solver.guarded p = plan.prepare solver p := rfl
  have bodies : (do plan.iterate solver.guarded p startTime plan.maxSteps (← plan.prepare solver p) :
      RunM α ς σ _).outcome r =
      (do plan.iterate solver p startTime plan.maxSteps (← plan.prepare solver p) :
        RunM α ς σ _).outcome r := by
    rw [outcome_bind, outcome_bind]
    rcases prepared : (plan.prepare solver p).outcome r with ⟨e | first, t⟩
    · rfl
    · exact iterate_guarded informs startTime _ first (known_of_prepare informs prepared)
  -- the handler reads no more of the solver than its name
  unfold pursue
  rw [prepares, outcome_tryCatch, outcome_tryCatch, bodies]
  rfl

variable (work : Workspace ς σ) (clock : Clock α)

/-- **A run does not see whether its solver is guarded.** -/
theorem execute_guarded :
    plan.execute solver.guarded p work clock = plan.execute solver p work clock := by
  have opens : plan.opening solver.guarded = plan.opening solver := rfl
  have runs (r : RunState α ς σ) : (plan.run solver.guarded p).outcome r =
      (plan.run solver p).outcome r := by
    simp only [run, outcome_bind, opens, pursue_guarded informs]
    rfl
  unfold execute
  rw [runs]

theorem checkpoint_guarded (k : Nat) :
    plan.checkpoint solver.guarded p work clock k = plan.checkpoint solver p work clock k := by
  induction k with
  | zero => rfl
  | succ k ih =>
    simp only [checkpoint, ih]
    rcases reached : plan.checkpoint solver p work clock k with _ | c
    · rfl
    · have known : c.run.state.gradient?.isSome = true := by
        cases k with
        | zero =>
          obtain ⟨_, _, -, prepared⟩ := begins_of_checkpoint reached
          exact known_of_prepare informs prepared
        | succ k =>
          obtain ⟨_, _, -, -, advanced⟩ := goesOn_of_checkpoint reached
          exact known_of_advance informs advanced
      have verdicts : plan.verdict solver.guarded clock.read.1 (plan.maxSteps - k) =
          plan.verdict solver clock.read.1 (plan.maxSteps - k) := rfl
      simp only [Option.bind_some, nextCheckpoint, verdicts]
      rcases checked : (plan.verdict solver clock.read.1 (plan.maxSteps - k)).outcome c.run with
        ⟨e | reason, t⟩
      · rfl
      · have known' : t.state.gradient?.isSome = true := by rwa [(verdict_ok checked).state]
        cases reason with
        | notTerminated => simp only [advance_guarded known']
        | _ => rfl

end Plan

end QuasiNewton
