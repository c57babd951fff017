import QuasiNewton.Proofs.Outcomes
import QuasiNewton.Run

/-!
# Recorded runs

A recorded solver does what a given solver does, and it keeps a record of the calls that a run makes. The
record changes nothing: a run of the recorded solver ends as a run of the solver itself does, and it leaves
the same behind, but for the record (`Plan.execute_recorded`).
-/

set_option autoImplicit false

namespace QuasiNewton

open Attempt
open QuasiNewton.Decimal (NumberText)

/-- What a run calls of a solver. -/
inductive Call where
  | init
  | step
  | terminate
deriving DecidableEq, Repr

/-- What a solver keeps for itself, and the calls of its parts in their order. -/
structure Recorded (ς : Type) where
  kept : ς
  calls : List Call

variable {α ς σ β γ : Type}

namespace Workspace

def recording (w : Workspace ς σ) : Workspace (Recorded ς) σ :=
  ⟨w.ledger, ⟨w.solver, []⟩, w.lifecycle, w.journal⟩

def withoutRecord (w : Workspace (Recorded ς) σ) : Workspace ς σ :=
  ⟨w.ledger, w.solver.kept, w.lifecycle, w.journal⟩

/-- The workspace that a part of the solver has left, with the record there was. -/
def resume (w : Workspace ς σ) (before : Workspace (Recorded ς) σ) : Workspace (Recorded ς) σ :=
  ⟨w.ledger, ⟨w.solver, before.solver.calls⟩, w.lifecycle, w.journal⟩

end Workspace

namespace SolverM

def enterCall (call : Call) : SolverM α (Recorded ς) σ Unit :=
  modify fun w => { w with solver := ⟨w.solver.kept, w.solver.calls ++ [call]⟩ }

/-- A part of a solver, which enters itself into the record before anything else. -/
def recorded (call : Call) (task : SolverM α ς σ β) : SolverM α (Recorded ς) σ β := do
  enterCall call
  Attempt.onPart Workspace.withoutRecord Workspace.resume task

end SolverM

/-- A solver that keeps a record of its calls. -/
def Solver.recorded (solver : Solver α ς σ) : Solver α (Recorded ς) σ where
  name := solver.name
  init p state := SolverM.recorded .init (solver.init p state)
  step p state := SolverM.recorded .step (solver.step p state)
  terminate state := SolverM.recorded .terminate (solver.terminate state)

def RunState.withoutRecord (r : RunState α (Recorded ς) σ) : RunState α ς σ :=
  ⟨r.work.withoutRecord, r.clock, r.state, r.history⟩

/-- Two computations within a run do the same, but for the record of calls. -/
def RunM.SameButRecord (a : RunM α (Recorded ς) σ β) (b : RunM α ς σ β) : Prop :=
  a.Corresponds (fun r s => s = r.withoutRecord) Eq Eq b

namespace SolverM

/-- A recorded part enters its call, whether it fails or not. -/
theorem outcome_recorded (call : Call) (task : SolverM α ς σ β) (w : Workspace (Recorded ς) σ) :
    (recorded call task).outcome w = ((task.outcome w.withoutRecord).1,
      ⟨(task.outcome w.withoutRecord).2.ledger,
        ⟨(task.outcome w.withoutRecord).2.solver, w.solver.calls ++ [call]⟩,
        (task.outcome w.withoutRecord).2.lifecycle, (task.outcome w.withoutRecord).2.journal⟩) := rfl

theorem recorded_corresponds (call : Call) (task : SolverM α ς σ β) :
    (recorded call task).Corresponds (fun w v => v = w.withoutRecord) Eq Eq task := by
  intro w v same
  subst same
  rw [outcome_recorded]
  exact ⟨rfl, .of_eq rfl⟩

end SolverM

namespace RunM.SameButRecord

theorem ofSolver {task : SolverM α (Recorded ς) σ β} {task' : SolverM α ς σ β}
    (h : task.Corresponds (fun w v => v = w.withoutRecord) Eq Eq task') :
    SameButRecord (RunM.ofSolver task) (RunM.ofSolver task') := by
  refine h.onPart (fun r s same => ?_) fun r s w v same after => ?_
  · rw [same]
    rfl
  · rw [same, after]
    rfl

theorem bind {a : RunM α (Recorded ς) σ β} {b : RunM α ς σ β} (first : a.SameButRecord b)
    {f : β → RunM α (Recorded ς) σ γ} {g : β → RunM α ς σ γ} (next : ∀ x, (f x).SameButRecord (g x)) :
    (a >>= f).SameButRecord (b >>= g) :=
  Corresponds.bind first fun x _ same => same ▸ next x

theorem pure (x : β) : SameButRecord (Pure.pure x : RunM α (Recorded ς) σ β) (Pure.pure x) :=
  Corresponds.pure rfl

theorem throw (e : Fault α) :
    SameButRecord (MonadExcept.throw e : RunM α (Recorded ς) σ β) (MonadExcept.throw e) :=
  Corresponds.throw rfl

theorem ofOperands (r : Except Mismatch β) :
    SameButRecord (Attempt.ofOperands r : RunM α (Recorded ς) σ β) (Attempt.ofOperands r) :=
  Corresponds.ofOperands (.of_eq rfl) fun _ => rfl

/-- What comes after reading a run may use what is not in the record. -/
theorem states {f : RunState α (Recorded ς) σ → RunM α (Recorded ς) σ γ}
    {g : RunState α ς σ → RunM α ς σ γ} (next : ∀ r, (f r).SameButRecord (g r.withoutRecord)) :
    SameButRecord (get >>= f) (get >>= g) :=
  Corresponds.states.bind fun r _ same => same ▸ next r

theorem change {f : RunState α (Recorded ς) σ → RunState α (Recorded ς) σ}
    {g : RunState α ς σ → RunState α ς σ} (h : ∀ r, (f r).withoutRecord = g r.withoutRecord) :
    SameButRecord (modify f) (modify g) :=
  Corresponds.change fun r s same => by rw [same, h]

theorem tryCatch {a : RunM α (Recorded ς) σ β} {b : RunM α ς σ β} (body : a.SameButRecord b)
    {f : Fault α → RunM α (Recorded ς) σ β} {g : Fault α → RunM α ς σ β}
    (handled : ∀ e, (f e).SameButRecord (g e)) :
    SameButRecord (MonadExcept.tryCatch a f) (MonadExcept.tryCatch b g) :=
  Corresponds.tryCatch body fun e _ same => same ▸ handled e

theorem report (severity : Severity) (text : String) :
    SameButRecord (RunM.report severity text : RunM α (Recorded ς) σ Unit) (RunM.report severity text) :=
  ofSolver (.change fun w v same => by rw [same]; rfl)

theorem readClock : SameButRecord (RunM.readClock : RunM α (Recorded ς) σ α) RunM.readClock :=
  states fun _ => bind (change fun _ => rfl) fun _ => pure _

theorem setState (state : IterState α) :
    SameButRecord (RunM.setState state : RunM α (Recorded ς) σ Unit) (RunM.setState state) :=
  change fun _ => rfl

end RunM.SameButRecord

namespace Plan

open RunM

variable [Scalar α] (plan : Plan α) (solver : Solver α ς σ) (p : Problem α σ)

theorem keep_recorded (x : Tensor α) :
    SameButRecord (plan.keep x : RunM α (Recorded ς) σ Unit) (plan.keep x) := by
  unfold keep
  split
  · exact .bind (.ofOperands _) fun copy => .change fun _ => rfl
  · exact .pure _

theorem gradientNorm_recorded (i : Iterate α) :
    SameButRecord (plan.gradientNorm i : RunM α (Recorded ς) σ α) (plan.gradientNorm i) := by
  unfold gradientNorm
  split
  · exact .ofOperands _
  · exact .throw _

theorem timeOver_recorded (startTime : α) :
    SameButRecord (plan.timeOver startTime : RunM α (Recorded ς) σ Bool) (plan.timeOver startTime) := by
  unfold timeOver
  split
  · exact .pure _
  · exact .bind .readClock fun time => .pure _

theorem prepare_recorded : (plan.prepare solver.recorded p).SameButRecord (plan.prepare solver p) := by
  refine .states fun r => ?_
  refine .bind (.ofSolver (SolverM.recorded_corresponds _ _)) fun first => ?_
  refine .bind (.setState _) fun _ => ?_
  exact .bind (plan.keep_recorded _) fun _ => .pure _

theorem advance_recorded [NumberText α] :
    (plan.advance solver.recorded p).SameButRecord (plan.advance solver p) := by
  refine .states fun r => ?_
  refine .bind (.ofSolver (SolverM.recorded_corresponds _ _)) fun next => ?_
  refine .bind (.setState _) fun _ => ?_
  refine .bind (plan.keep_recorded _) fun _ => ?_
  refine .bind (plan.gradientNorm_recorded _) fun norm => ?_
  exact .bind (.report _ _) fun _ => .pure _

theorem verdict_recorded (startTime : α) (left : Nat) :
    (plan.verdict solver.recorded startTime left).SameButRecord (plan.verdict solver startTime left) := by
  refine .states fun r => ?_
  refine .bind (.ofSolver (SolverM.recorded_corresponds _ _)) fun own => ?_
  split
  · exact .pure _
  · split
    · exact .pure _
    · refine .bind (plan.timeOver_recorded startTime) fun late => ?_
      split <;> exact .pure _

variable [NumberText α]

theorem iterate_recorded (startTime : α) (left : Nat) (last : Iterate α) :
    (plan.iterate solver.recorded p startTime left last).SameButRecord
      (plan.iterate solver p startTime left last) := by
  induction left generalizing last with
  | zero => exact .bind (plan.verdict_recorded solver startTime 0) fun reason => .pure _
  | succ left ih =>
    refine .bind (plan.verdict_recorded solver startTime (left + 1)) fun reason => ?_
    split
    · exact .pure _
    · exact .bind (plan.advance_recorded solver p) fun next => ih next

theorem pursue_recorded (startTime : α) :
    (plan.pursue solver.recorded p startTime).SameButRecord (plan.pursue solver p startTime) := by
  refine .tryCatch ?_ fun e => ?_
  · exact .bind (plan.prepare_recorded solver p) fun first => plan.iterate_recorded solver p _ _ first
  · split
    · exact .states fun r => .bind (.report _ _) fun _ => .throw e
    · exact .throw e

omit [Scalar α] [NumberText α] in
theorem opening_recorded :
    (plan.opening solver.recorded).SameButRecord (plan.opening solver) := by
  refine .bind .readClock fun time => ?_
  refine .bind (.ofOperands _) fun unknowns => ?_
  exact .bind (.report _ _) fun _ => .pure _

theorem closing_recorded (reason : Reason) (last : Iterate α) :
    (plan.closing solver.recorded reason last).SameButRecord (plan.closing solver reason last) := by
  refine .bind (.ofSolver (.change fun w v same => ?_)) fun _ => ?_
  · rw [same]
    rfl
  refine .bind (plan.gradientNorm_recorded _) fun norm => ?_
  exact .states fun r => .bind (.report _ _) fun _ => .pure _

theorem run_recorded : (plan.run solver.recorded p).SameButRecord (plan.run solver p) := by
  refine .bind (plan.opening_recorded solver) fun startTime => ?_
  refine .bind (plan.pursue_recorded solver p startTime) fun ended => ?_
  exact plan.closing_recorded solver ended.1 ended.2

/-- **The record changes nothing**: a run of the recorded solver has the outcome of a run of the solver, and
leaves the same workspace and the same clock. -/
theorem execute_recorded (work : Workspace ς σ) (clock : Clock α) :
    plan.execute solver p work clock =
      ((plan.execute solver.recorded p work.recording clock).1,
        (plan.execute solver.recorded p work.recording clock).2.1.withoutRecord,
        (plan.execute solver.recorded p work.recording clock).2.2) := by
  obtain ⟨after, answers⟩ := plan.run_recorded solver p ⟨work.recording, clock, { point := plan.start }, #[]⟩
    ⟨work, clock, { point := plan.start }, #[]⟩ rfl
  unfold execute
  rw [answers.eq]
  dsimp only
  rw [after]
  rfl

end Plan

end QuasiNewton
