import QuasiNewton.Proofs.Run.Checkpoint
import QuasiNewton.Proofs.Run.Points

/-!
# Watching a run

A run is watched in two ways: by its journal, whose threshold says how much is entered, and by the points that it
keeps. Neither changes what the run does. Of two runs that differ in the threshold and in whether points are kept,
all parts do the same (`Plan.run_watched`), and the journal of the one with the higher threshold has exactly those
entries of the other one that reach this threshold (`Journal.Thinned`).

The solver is asked for two things: that its parts do the same whatever the threshold is, and that it hands out
points of the family of the run, because a run that keeps points fails where a point cannot be copied.
-/

set_option autoImplicit false

namespace QuasiNewton

open Attempt
open QuasiNewton.Decimal (NumberText)

/-! ### Two journals -/

/-- The second journal has the given threshold, which is at least as high as that of the first one, and those
entries of the first one that reach it. -/
structure Journal.Thinned (level : Severity) (j j' : Journal) : Prop where
  below : j.threshold ≤ level
  threshold : j'.threshold = level
  entries : j'.entries = j.entries.filter fun e => decide (level ≤ e.severity)

namespace Journal.Thinned

variable {level : Severity} {j j' : Journal}

theorem empty {threshold : Severity} (h : threshold ≤ level) :
    Thinned level { threshold } { threshold := level } := ⟨h, rfl, rfl⟩

/-- The same entry keeps two journals related, whether it is made in both, in the first or in neither. -/
theorem enter (h : j.Thinned level j') (e : Entry) : (j.enter e).Thinned level (j'.enter e) where
  below := by simpa using h.below
  threshold := by simpa using h.threshold
  entries := by
    -- an entry that reaches the higher threshold reaches the lower one
    by_cases reaches : level ≤ e.severity
    · have first : j.threshold ≤ e.severity := h.below.trans reaches
      simp [Journal.enter, Journal.enters, h.threshold, reaches, first, h.entries]
    · by_cases entered : j.threshold ≤ e.severity
      · simp [Journal.enter, Journal.enters, h.threshold, reaches, entered, h.entries]
      · simp [Journal.enter, Journal.enters, h.threshold, reaches, entered, h.entries]

end Journal.Thinned

/-! ### Two runs -/

variable {α ς σ β : Type}

/-- Two workspaces that differ in their journals only, with a solver that satisfies `I`. -/
structure Workspace.Watched (I : ς → Prop) (level : Severity) (w w' : Workspace ς σ) : Prop where
  same : w.Same w'
  journal : w.journal.Thinned level w'.journal
  solver : I w.solver

/-- Two runs at the same place, at a point of a family. -/
structure RunState.Watched (I : ς → Prop) (level : Severity) (family : Family) (r r' : RunState α ς σ) : Prop where
  work : r.work.Watched I level r'.work
  clock : r'.clock = r.clock
  state : r'.state = r.state
  point : family.Holds r.state.point

/-- The same outcome, but for the points that were kept. -/
def Outcome.SameButHistory (o o' : Outcome α) : Prop := o' = { o with history := o'.history }

/-- The same iterate, at a point of a family. -/
def Iterate.SameIn (family : Family) (i i' : Iterate α) : Prop := i' = i ∧ family.Holds i.point

/-- The parts of a solver do the same whatever the threshold of the journal is, as long as the solver satisfies `I`
and points are of the family. -/
structure Solver.Unwatched (I : ς → Prop) (level : Severity) (family : Family) (solver : Solver α ς σ)
    (p : Problem α σ) : Prop where
  init : ∀ state : IterState α, family.Holds state.point → (solver.init p state).Corresponds
    (Workspace.Watched I level) (Iterate.SameIn family) Eq (solver.init p state)
  step : ∀ state : IterState α, family.Holds state.point → (solver.step p state).Corresponds
    (Workspace.Watched I level) (Iterate.SameIn family) Eq (solver.step p state)
  terminate : ∀ state, (solver.terminate state).Corresponds (Workspace.Watched I level) Eq Eq
    (solver.terminate state)

/-- The same run, with points kept or not. -/
def Plan.recording (plan : Plan α) (history : Bool) : Plan α := { plan with history }

variable {I : ς → Prop} {level : Severity} {family : Family}

namespace SolverM

theorem report_watched (e : Entry) :
    (report e : SolverM α ς σ Unit).Corresponds (Workspace.Watched I level) Eq Eq (report e) :=
  .change fun _ _ h => ⟨⟨h.same.ledger, h.same.solver, h.same.lifecycle⟩, h.journal.enter e, h.solver⟩

/-- Counted evaluations do the same, with what is known of their answers. -/
theorem ofEvaluation_yields {e : Evaluation α σ β} {Q : β → Prop}
    (h : ∀ l x l', e.outcome l = (.ok x, l') → Q x) :
    (ofEvaluation e : SolverM α ς σ β).Corresponds (Workspace.Watched I level) (fun x y => y = x ∧ Q x) Eq
      (ofEvaluation e) :=
  (corresponds_refl h).onPart (fun _ _ r => r.same.ledger.symm) fun _ _ _ _ r same =>
    ⟨⟨same.symm, r.same.solver, r.same.lifecycle⟩, r.journal, r.solver⟩

theorem ofEvaluation_watched (e : Evaluation α σ β) :
    (ofEvaluation e : SolverM α ς σ β).Corresponds (Workspace.Watched I level) Eq Eq (ofEvaluation e) :=
  (ofEvaluation_yields (Q := fun _ => True) fun _ _ _ _ => trivial).mono (fun _ _ same => same.1.symm)
    fun _ _ => id

theorem requireStage_watched (name : String) (allowed : List Status) :
    (requireStage name allowed : SolverM α ς σ Unit).Corresponds (Workspace.Watched I level) Eq Eq
      (requireStage name allowed) := by
  refine Corresponds.states.bind fun w w' h => ?_
  rw [h.same.lifecycle]
  dsimp only
  split
  · exact .pure rfl
  · exact .throw rfl

theorem enterStage_watched (status : Status) :
    (enterStage status : SolverM α ς σ Unit).Corresponds (Workspace.Watched I level) Eq Eq (enterStage status) :=
  .change fun _ _ h => ⟨⟨h.same.ledger, h.same.solver, by rw [h.same.lifecycle]⟩, h.journal, h.solver⟩

theorem markTerminated_watched (reason : Reason) :
    (markTerminated reason : SolverM α ς σ Unit).Corresponds (Workspace.Watched I level) Eq Eq
      (markTerminated reason) :=
  .change fun _ _ h => ⟨⟨h.same.ledger, h.same.solver, rfl⟩, h.journal, h.solver⟩

end SolverM

namespace RunM

theorem ofSolver_watched {Q : β → β → Prop} {task : SolverM α ς σ β}
    (h : task.Corresponds (Workspace.Watched I level) Q Eq task) :
    (ofSolver task).Corresponds (RunState.Watched I level family) Q Eq (ofSolver task) :=
  h.onPart (fun _ _ r => r.work) fun _ _ _ _ r after => { r with work := after }

theorem report_watched (severity : Severity) (text : String) :
    (report severity text : RunM α ς σ Unit).Corresponds (RunState.Watched I level family) Eq Eq
      (report severity text) :=
  ofSolver_watched (SolverM.report_watched _)

theorem readClock_watched :
    (readClock : RunM α ς σ α).Corresponds (RunState.Watched I level family) Eq Eq readClock := by
  refine Corresponds.states.bind fun r r' h => ?_
  rw [h.clock]
  exact (Corresponds.change fun _ _ after => { after with clock := rfl }).bind fun _ _ _ => .pure rfl

theorem setState_watched {state : IterState α} (held : family.Holds state.point) :
    (setState state : RunM α ς σ Unit).Corresponds (RunState.Watched I level family) Eq Eq (setState state) :=
  .change fun _ _ h => ⟨h.work, h.clock, rfl, held⟩

end RunM

namespace Plan

variable [Scalar α]

/-- The options decide the same, whether points are to be kept or not. -/
theorem ofOptions_history (o : RunOptions α) (history history' : Bool) :
    Agree (fun plan plan' => plan' = plan.recording history' ∧ plan.family.Holds plan.start) Eq
      (ofOptions { o with history }) (ofOptions { o with history := history' }) := by
  refine Agree.and ?_ fun plan planned => start_held planned
  refine (Agree.of_eq rfl).bind fun _ _ _ => (Agree.of_eq rfl).bind fun _ _ _ => ?_
  refine (Agree.of_eq rfl).bind fun family _ same => same ▸ ?_
  refine (Agree.of_eq rfl).bind fun start _ same => same ▸ ?_
  exact (Agree.of_eq rfl).bind fun steps _ same => same ▸ .ok rfl

variable {plan : Plan α} {solver : Solver α ς σ} {p : Problem α σ} {history : Bool}

/-- A point of the family is kept without failing, and nothing else changes. -/
theorem outcome_keep {x : Tensor α} (held : plan.family.Holds x) (r : RunState α ς σ) :
    ∃ kept, (plan.keep x).outcome r = (.ok (), { r with history := kept }) := by
  unfold keep
  split
  · simp only [held.copy_eq, outcome_bind, outcome_ofOperands_ok, outcome_modify]
    exact ⟨_, rfl⟩
  · exact ⟨r.history, rfl⟩

theorem keep_watched {x : Tensor α} (held : plan.family.Holds x) :
    (plan.keep x : RunM α ς σ Unit).Corresponds (RunState.Watched I level plan.family) Eq Eq
      ((plan.recording history).keep x) := by
  intro r r' h
  obtain ⟨kept, first⟩ := plan.outcome_keep held r
  obtain ⟨kept', second⟩ := (plan.recording history).outcome_keep held r'
  rw [first, second]
  exact ⟨⟨h.work, h.clock, h.state, h.point⟩, .ok rfl⟩

theorem gradientNorm_watched (i : Iterate α) :
    (plan.gradientNorm i : RunM α ς σ α).Corresponds (RunState.Watched I level plan.family) Eq Eq
      (plan.gradientNorm i) := by
  unfold gradientNorm
  split
  · exact .ofOperands (.of_eq rfl) fun _ => rfl
  · exact .throw rfl

theorem timeOver_watched (startTime : α) :
    (plan.timeOver startTime : RunM α ς σ Bool).Corresponds (RunState.Watched I level plan.family) Eq Eq
      (plan.timeOver startTime) := by
  unfold timeOver
  split
  · exact .pure rfl
  · exact RunM.readClock_watched.bind fun time _ same => same ▸ .pure rfl

omit [Scalar α] in
theorem opening_watched :
    (plan.opening solver : RunM α ς σ α).Corresponds (RunState.Watched I level plan.family) Eq Eq
      ((plan.recording history).opening solver) := by
  refine RunM.readClock_watched.bind fun time _ same => same ▸ ?_
  refine (Corresponds.ofOperands (.of_eq rfl) fun _ => rfl).bind fun unknowns _ same => same ▸ ?_
  exact (RunM.report_watched _ _).bind fun _ _ _ => .pure rfl

theorem closing_watched [NumberText α] (reason : Reason) (last : Iterate α) :
    (plan.closing solver reason last : RunM α ς σ _).Corresponds (RunState.Watched I level plan.family)
      Outcome.SameButHistory Eq ((plan.recording history).closing solver reason last) := by
  refine (RunM.ofSolver_watched (SolverM.markTerminated_watched reason)).bind fun _ _ _ => ?_
  refine (gradientNorm_watched last).bind fun norm _ same => same ▸ ?_
  refine Corresponds.states.bind fun r r' h => ?_
  rw [h.state, h.work.same.ledger]
  exact (RunM.report_watched _ _).bind fun _ _ _ => .pure rfl

section Steps

variable (h : solver.Unwatched I level plan.family p)

include h

theorem prepare_watched :
    (plan.prepare solver p).Corresponds (RunState.Watched I level plan.family) (Iterate.SameIn plan.family) Eq
      ((plan.recording history).prepare solver p) := by
  refine Corresponds.states.bind fun r r' hr => ?_
  rw [hr.state]
  refine (RunM.ofSolver_watched (h.init _ hr.point)).bind fun _ first made => ?_
  obtain ⟨rfl, held⟩ := made
  refine (RunM.setState_watched held).bind fun _ _ _ => ?_
  exact (keep_watched held).bind fun _ _ _ => .pure ⟨rfl, held⟩

theorem verdict_watched (startTime : α) (left : Nat) :
    (plan.verdict solver startTime left).Corresponds (RunState.Watched I level plan.family) Eq Eq
      ((plan.recording history).verdict solver startTime left) := by
  refine Corresponds.states.bind fun r r' hr => ?_
  rw [hr.state]
  refine (RunM.ofSolver_watched (h.terminate _)).bind fun own _ same => same ▸ ?_
  split
  · exact .pure rfl
  · split
    · exact .pure rfl
    · refine (timeOver_watched startTime).bind fun late _ same => same ▸ ?_
      split <;> exact .pure rfl

variable [NumberText α]

theorem advance_watched :
    (plan.advance solver p).Corresponds (RunState.Watched I level plan.family) (Iterate.SameIn plan.family) Eq
      ((plan.recording history).advance solver p) := by
  refine Corresponds.states.bind fun r r' hr => ?_
  rw [hr.state]
  refine (RunM.ofSolver_watched (h.step _ hr.point)).bind fun _ next made => ?_
  obtain ⟨rfl, held⟩ := made
  refine (RunM.setState_watched held).bind fun _ _ _ => ?_
  refine (keep_watched held).bind fun _ _ _ => ?_
  refine (gradientNorm_watched next).bind fun norm _ same => same ▸ ?_
  exact (RunM.report_watched _ _).bind fun _ _ _ => .pure ⟨rfl, held⟩

/-- Steps that are watched, by induction on the steps that are left. -/
theorem iterate_watched (startTime : α) (left : Nat) (last : Iterate α) :
    (plan.iterate solver p startTime left last).Corresponds (RunState.Watched I level plan.family) Eq Eq
      ((plan.recording history).iterate solver p startTime left last) := by
  induction left generalizing last with
  | zero =>
    exact (verdict_watched h startTime 0).bind fun reason _ same => same ▸ .pure rfl
  | succ left ih =>
    refine (verdict_watched h startTime (left + 1)).bind fun reason _ same => same ▸ ?_
    split
    · exact .pure rfl
    · refine (advance_watched h).bind fun _ next made => ?_
      obtain ⟨rfl, -⟩ := made
      exact ih next

theorem pursue_watched (startTime : α) :
    (plan.pursue solver p startTime).Corresponds (RunState.Watched I level plan.family) Eq Eq
      ((plan.recording history).pursue solver p startTime) := by
  let watched := plan.recording history
  have body : (do plan.iterate solver p startTime plan.maxSteps (← plan.prepare solver p) :
      RunM α ς σ _).Corresponds (RunState.Watched I level plan.family) Eq Eq
      (do watched.iterate solver p startTime plan.maxSteps (← watched.prepare solver p)) :=
    (prepare_watched h).bind fun _ first made => by
      obtain ⟨rfl, -⟩ := made
      exact iterate_watched h startTime plan.maxSteps first
  refine body.tryCatch fun e _ same => same ▸ ?_
  split
  · refine Corresponds.states.bind fun r r' hr => ?_
    rw [hr.state]
    exact (RunM.report_watched _ _).bind fun _ _ _ => .throw rfl
  · exact .throw rfl

/-- **A run does the same whatever is entered into its journal, and whether it keeps points or not.** -/
theorem run_watched :
    (plan.run solver p).Corresponds (RunState.Watched I level plan.family) Outcome.SameButHistory Eq
      ((plan.recording history).run solver p) := by
  refine opening_watched.bind fun startTime _ same => same ▸ ?_
  refine (pursue_watched h startTime).bind fun ending _ same => same ▸ ?_
  exact closing_watched _ _

theorem execute_watched (history : Bool) (start : plan.family.Holds plan.start) {work work' : Workspace ς σ}
    (works : work.Watched I level work') (clock : Clock α) :
    Agree Outcome.SameButHistory Eq (plan.execute solver p work clock).1
        ((plan.recording history).execute solver p work' clock).1 ∧
      (plan.execute solver p work clock).2.1.Watched I level
        ((plan.recording history).execute solver p work' clock).2.1 ∧
      ((plan.recording history).execute solver p work' clock).2.2 = (plan.execute solver p work clock).2.2 := by
  obtain ⟨after, answers⟩ := run_watched h (plan.initial work clock)
    ((plan.recording history).initial work' clock) ⟨works, rfl, rfl, start⟩
  exact ⟨answers, after.work, after.clock⟩

end Steps

end Plan

end QuasiNewton
