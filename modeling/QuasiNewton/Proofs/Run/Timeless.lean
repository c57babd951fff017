import QuasiNewton.Proofs.Run.Checkpoint

/-!
# Runs without a time limit

A run without a time limit looks at the clock once, when it begins, and never uses what it has seen. It
therefore does the same at any time: `Plan.execute_timeless`.
-/

set_option autoImplicit false

namespace QuasiNewton

open Attempt
open QuasiNewton.Decimal (NumberText)

variable {α ς σ β γ : Type}

/-- Two runs at the same place, at whatever time. -/
def RunState.SameButClock (r r' : RunState α ς σ) : Prop := r' = { r with clock := r'.clock }

/-- A computation within a run that does the same at any time. -/
def RunM.Timeless (a : RunM α ς σ β) : Prop := a.Corresponds RunState.SameButClock Eq Eq a

namespace RunM.Timeless

variable {a : RunM α ς σ β}

theorem pure (x : β) : Timeless (Pure.pure x : RunM α ς σ β) := Corresponds.pure rfl

theorem throw (e : Fault α) : Timeless (MonadExcept.throw e : RunM α ς σ β) := Corresponds.throw rfl

/-- What follows may use the time it was given. -/
theorem followed (h : a.Timeless) {Q : γ → γ → Prop} {next next' : β → RunM α ς σ γ}
    (k : ∀ x, (next x).Corresponds RunState.SameButClock Q Eq (next' x)) :
    (a >>= next).Corresponds RunState.SameButClock Q Eq (a >>= next') :=
  Corresponds.bind h fun x _ same => same ▸ k x

theorem bind (h : a.Timeless) {next : β → RunM α ς σ γ} (k : ∀ x, (next x).Timeless) :
    (a >>= next).Timeless := h.followed k

theorem ofOperands (r : Except Mismatch β) : Timeless (Attempt.ofOperands r : RunM α ς σ β) :=
  Corresponds.ofOperands (.of_eq rfl) fun _ => rfl

/-- What is read of the run is used without its clock. -/
theorem states {next : RunState α ς σ → RunM α ς σ γ} (k : ∀ r, (next r).Timeless)
    (blind : ∀ r clock, next { r with clock } = next r) : (get >>= next).Timeless := by
  intro r r' same
  have sameNext : next r' = next r := by
    rw [show r' = _ from same]
    exact blind r r'.clock
  have both := k r r r' same
  rw [outcome_bind, outcome_bind]
  dsimp only [outcome_get]
  rwa [sameNext]

theorem change {f : RunState α ς σ → RunState α ς σ}
    (h : ∀ r clock, f { r with clock } = { f r with clock }) :
    Timeless (modify f : RunM α ς σ PUnit) :=
  Corresponds.change fun r r' same => by
    have after : f r' = { f r with clock := r'.clock } := by
      rw [show r' = _ from same]
      exact h r r'.clock
    exact after.trans (by rw [after])

theorem ofSolver (task : SolverM α ς σ β) : Timeless (RunM.ofSolver task : RunM α ς σ β) := by
  intro r r' same
  rw [show r' = _ from same]
  exact ⟨rfl, .of_eq rfl⟩

theorem tryCatch (h : a.Timeless) {handler : Fault α → RunM α ς σ β}
    (k : ∀ e, (handler e).Timeless) : Timeless (MonadExcept.tryCatch a handler) :=
  Corresponds.tryCatch h fun e _ same => same ▸ k e

theorem report (severity : Severity) (text : String) :
    Timeless (RunM.report severity text : RunM α ς σ Unit) := ofSolver _

theorem setState (state : IterState α) : Timeless (RunM.setState state : RunM α ς σ Unit) :=
  change fun _ _ => rfl

end RunM.Timeless

namespace Plan

open RunM (Timeless)

variable [Scalar α] (plan : Plan α) (solver : Solver α ς σ) (p : Problem α σ)

theorem keep_timeless (x : Tensor α) : Timeless (plan.keep x : RunM α ς σ Unit) := by
  unfold keep
  split
  · exact (Timeless.ofOperands _).bind fun _ => .change fun _ _ => rfl
  · exact .pure ()

theorem gradientNorm_timeless (i : Iterate α) : Timeless (plan.gradientNorm i : RunM α ς σ α) := by
  unfold gradientNorm
  split
  · exact .ofOperands _
  · exact .throw _

theorem prepare_timeless : Timeless (plan.prepare solver p) :=
  .states (fun _ => (Timeless.ofSolver _).bind fun _ => (Timeless.setState _).bind fun _ =>
    (plan.keep_timeless _).bind fun _ => .pure _) fun _ _ => rfl

theorem advance_timeless [NumberText α] : Timeless (plan.advance solver p) :=
  .states (fun _ => (Timeless.ofSolver _).bind fun _ => (Timeless.setState _).bind fun _ =>
    (plan.keep_timeless _).bind fun _ => (plan.gradientNorm_timeless _).bind fun _ =>
      (Timeless.report _ _).bind fun _ => .pure _) fun _ _ => rfl

theorem closing_timeless [NumberText α] (reason : Reason) (last : Iterate α) :
    Timeless (plan.closing solver reason last : RunM α ς σ _) :=
  (Timeless.ofSolver _).bind fun _ => (plan.gradientNorm_timeless last).bind fun _ =>
    .states (fun _ => (Timeless.report _ _).bind fun _ => .pure _) fun _ _ => rfl

omit [Scalar α] in
/-- What the clock shows in the beginning depends on the time, and nothing else that happens then. -/
theorem opening_corresponds :
    (plan.opening solver : RunM α ς σ α).Corresponds RunState.SameButClock (fun _ _ => True) Eq
      (plan.opening solver : RunM α ς σ α) := by
  have read : (RunM.readClock : RunM α ς σ α).Corresponds RunState.SameButClock (fun _ _ => True) Eq
      (RunM.readClock : RunM α ς σ α) := by
    intro r r' same
    rw [show r' = _ from same]
    exact ⟨rfl, .ok trivial⟩
  exact read.bind fun _ _ _ => (Timeless.ofOperands _).followed fun _ =>
    (Timeless.report _ _).followed fun _ => .pure trivial

variable {plan} (unlimited : plan.maxTime? = none)

include unlimited

theorem verdict_eq_of_unlimited (startTime startTime' : α) (left : Nat) :
    plan.verdict solver startTime' left = plan.verdict solver startTime left := by
  unfold verdict timeOver
  rw [unlimited]

theorem verdict_timeless (startTime : α) (left : Nat) :
    Timeless (plan.verdict solver startTime left : RunM α ς σ Reason) := by
  unfold verdict timeOver
  rw [unlimited]
  refine .states (fun _ => (Timeless.ofSolver _).bind fun own => ?_) fun _ _ => rfl
  split
  · exact .pure _
  · split <;> exact .pure _

variable [NumberText α]

/-- Steps at two times, by induction on the steps that are left. -/
theorem iterate_timeless (startTime startTime' : α) (left : Nat) (last : Iterate α) :
    (plan.iterate solver p startTime left last).Corresponds RunState.SameButClock Eq Eq
      (plan.iterate solver p startTime' left last) := by
  have verdicts := verdict_eq_of_unlimited solver unlimited startTime startTime'
  induction left generalizing last with
  | zero =>
    simp only [iterate, verdicts]
    exact (verdict_timeless solver unlimited startTime 0).bind fun _ => .pure _
  | succ left ih =>
    simp only [iterate, verdicts]
    refine (verdict_timeless solver unlimited startTime (left + 1)).followed fun reason => ?_
    split
    · exact .pure rfl
    · exact (plan.advance_timeless solver p).followed fun next => ih next

theorem pursue_timeless (startTime startTime' : α) :
    (plan.pursue solver p startTime).Corresponds RunState.SameButClock Eq Eq
      (plan.pursue solver p startTime') := by
  have body : (do plan.iterate solver p startTime plan.maxSteps (← plan.prepare solver p) :
      RunM α ς σ _).Corresponds RunState.SameButClock Eq Eq
      (do plan.iterate solver p startTime' plan.maxSteps (← plan.prepare solver p)) :=
    (plan.prepare_timeless solver p).followed fun first =>
      iterate_timeless solver p unlimited startTime startTime' _ first
  refine body.tryCatch fun e _ same => ?_
  subst same
  split
  · exact Timeless.states (fun _ => (Timeless.report _ _).bind fun _ => .throw e) fun _ _ => rfl
  · exact .throw rfl

theorem run_timeless : Timeless (plan.run solver p) := by
  refine (plan.opening_corresponds solver).bind fun time time' _ => ?_
  refine (pursue_timeless solver p unlimited time time').bind fun ending _ same => ?_
  subst same
  exact plan.closing_timeless solver _ _

/-- **A run without a time limit does the same at any time.** -/
theorem execute_timeless (work : Workspace ς σ) (clock clock' : Clock α) :
    (plan.execute solver p work clock').1 = (plan.execute solver p work clock).1 ∧
      (plan.execute solver p work clock').2.1 = (plan.execute solver p work clock).2.1 := by
  obtain ⟨same, answers⟩ := run_timeless solver p unlimited (plan.initial work clock)
    (plan.initial work clock') rfl
  have sameWork := congrArg RunState.work (show _ = _ from same)
  exact ⟨answers.eq.symm, sameWork⟩

end Plan

end QuasiNewton
