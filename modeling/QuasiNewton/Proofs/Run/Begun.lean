import QuasiNewton.Proofs.Run.Checkpoint

/-!
# What a run does after its first iterate

A run has begun once its solver has handed out the first iterate (`Plan.Begins`). If the solver refuses the first
iterate, then the run fails with the same fault and has worked with nothing else (`execute_of_refused`). If the
run has begun, then whatever it ends with, it leaves what its solver leaves: a property of the workspace that
holds after the first iterate and that steps, checks, marks and entries keep (`Solver.Keeps`) holds in the end
(`execute_of_begun`).
-/

set_option autoImplicit false

namespace QuasiNewton

open Attempt
open QuasiNewton.Decimal (NumberText)

variable {α ς σ β : Type}

/-- A property of workspaces that a solver keeps, however its steps and checks end, and that also marks and entries
in the journal keep. -/
structure Solver.Keeps (solver : Solver α ς σ) (p : Problem α σ) (I : Workspace ς σ → Prop) : Prop where
  step : ∀ state w, I w → (solver.step p state).Ensures w (fun _ t => I t) fun _ t => I t
  terminate : ∀ state w, I w → (solver.terminate state).Ensures w (fun _ t => I t) fun _ t => I t
  mark : ∀ reason w, I w → I { w with lifecycle := ⟨.terminated, reason⟩ }
  enter : ∀ e w, I w → I { w with journal := w.journal.enter e }

/-- A computation within a run that keeps a property of the workspace, whether it succeeds or fails. -/
def RunM.Keeps (I : Workspace ς σ → Prop) (a : RunM α ς σ β) : Prop :=
  ∀ r : RunState α ς σ, I r.work → a.Ensures r (fun _ t => I t.work) fun _ t => I t.work

namespace RunM.Keeps

variable {I : Workspace ς σ → Prop} {a : RunM α ς σ β} {γ : Type}

theorem pure (x : β) : Keeps I (Pure.pure x : RunM α ς σ β) := fun _ h => h

theorem throw (e : Fault α) : Keeps I (MonadExcept.throw e : RunM α ς σ β) := fun _ h => h

theorem ofOperands (x : Except Mismatch β) : Keeps I (Attempt.ofOperands x : RunM α ς σ β) := by
  cases x with
  | ok x => exact pure x
  | error cause => exact throw (.mismatch cause)

theorem states : Keeps I (get : RunM α ς σ _) := fun _ h => h

theorem change {f : RunState α ς σ → RunState α ς σ} (same : ∀ r, (f r).work = r.work) :
    Keeps I (modify f : RunM α ς σ PUnit) := fun r h => ensures_modify.mpr ((same r).symm ▸ h)

theorem setState (state : IterState α) : Keeps I (RunM.setState state : RunM α ς σ Unit) :=
  change fun _ => rfl

theorem bind (h : Keeps I a) {next : β → RunM α ς σ γ} (k : ∀ x, Keeps I (next x)) :
    Keeps I (a >>= next) := fun r hr =>
  ensures_bind.mpr ((h r hr).mono (fun x t => k x t) fun _ _ => id)

theorem ofSolver {task : SolverM α ς σ β} (h : ∀ w, I w → task.Ensures w (fun _ t => I t) fun _ t => I t) :
    Keeps I (RunM.ofSolver task : RunM α ς σ β) := fun r hr => ensures_onPart.mpr (h r.work hr)

end RunM.Keeps

namespace Plan

variable [Scalar α] {plan : Plan α} {solver : Solver α ς σ} {p : Problem α σ} {I : Workspace ς σ → Prop}

/-! ### Parts of a run -/

section Parts

open RunM (Keeps)

theorem keep_keeps (x : Tensor α) : Keeps I (plan.keep x : RunM α ς σ Unit) := by
  unfold keep
  split
  · exact (Keeps.ofOperands _).bind fun _ => .change fun _ => rfl
  · exact .pure ()

theorem gradientNorm_keeps (i : Iterate α) : Keeps I (plan.gradientNorm i : RunM α ς σ α) := by
  unfold gradientNorm
  split
  · exact .ofOperands _
  · exact .throw _

theorem timeOver_keeps (startTime : α) : Keeps I (plan.timeOver startTime : RunM α ς σ Bool) := by
  unfold timeOver
  split
  · exact .pure _
  · refine Keeps.bind ?_ fun _ => .pure _
    exact Keeps.states.bind fun _ => (Keeps.change fun _ => by rfl).bind fun _ => .pure _

variable (h : solver.Keeps p I)

include h

omit [Scalar α] in
theorem report_keeps (severity : Severity) (text : String) :
    Keeps I (RunM.report severity text : RunM α ς σ Unit) :=
  .ofSolver fun w hw => ensures_modify.mpr (h.enter _ w hw)

theorem advance_keeps [NumberText α] : Keeps I (plan.advance solver p) := by
  unfold advance
  refine Keeps.states.bind fun r => (Keeps.ofSolver (h.step r.state)).bind fun next => ?_
  refine (Keeps.setState (r.state.advance next)).bind fun _ => (keep_keeps next.point).bind fun _ => ?_
  exact (gradientNorm_keeps next).bind fun _ => (report_keeps h _ _).bind fun _ => .pure next

theorem verdict_keeps (startTime : α) (left : Nat) : Keeps I (plan.verdict solver startTime left) := by
  unfold verdict
  refine Keeps.states.bind fun r => (Keeps.ofSolver (h.terminate r.state)).bind fun own => ?_
  split
  · exact .pure _
  · split
    · exact .pure _
    · refine (timeOver_keeps startTime).bind fun late => ?_
      split <;> exact .pure _

variable [NumberText α]

/-- By induction on the steps that are left. -/
theorem iterate_keeps (startTime : α) (left : Nat) (last : Iterate α) :
    Keeps I (plan.iterate solver p startTime left last) := by
  induction left generalizing last with
  | zero => exact (verdict_keeps h startTime 0).bind fun _ => .pure _
  | succ left ih =>
    refine (verdict_keeps h startTime (left + 1)).bind fun reason => ?_
    split
    · exact .pure _
    · exact (advance_keeps h).bind ih

theorem closing_keeps (reason : Reason) (last : Iterate α) :
    Keeps I (plan.closing solver reason last : RunM α ς σ _) :=
  (Keeps.ofSolver fun w hw => ensures_modify.mpr (h.mark reason w hw)).bind fun _ =>
    (gradientNorm_keeps last).bind fun _ => Keeps.states.bind fun _ => (report_keeps h _ _).bind fun _ => .pure _

end Parts

/-! ### Whole runs -/

section Runs

open RunM (Keeps)

variable [NumberText α] {work : Workspace ς σ} {clock : Clock α}

variable (plan solver p work clock) in
/-- The run has got its first iterate from the solver. -/
def Begins : Prop :=
  ∃ startTime r first w, (plan.opening solver).outcome (plan.initial work clock) = (.ok startTime, r) ∧
    (solver.init p r.state).outcome r.work = (.ok first, w)

omit [Scalar α] [NumberText α] in
/-- A run from a point with an axis is opened, which changes nothing but the clock and the journal. -/
theorem exists_opening (solver : Solver α ς σ) (work : Workspace ς σ) (clock : Clock α) {unknowns : Nat}
    (axes : plan.start.length = .ok unknowns) :
    ∃ startTime r, (plan.opening solver).outcome (plan.initial work clock) = (.ok startTime, r) := by
  simp only [opening, axes, RunM.readClock, RunM.report, RunM.ofSolver, SolverM.report, outcome_bind,
    outcome_get, outcome_modify, outcome_pure, outcome_onPart, ofOperands_of_ok]
  exact ⟨_, _, rfl⟩

/-- A run that returns has begun. -/
theorem begins_of_execute {o : Outcome α} {w : Workspace ς σ} {clock' : Clock α}
    (returned : plan.execute solver p work clock = (.ok o, w, clock')) : plan.Begins solver p work clock := by
  obtain ⟨k, c, -, reached, -⟩ := execute_ok returned
  obtain ⟨c₀, first⟩ := exists_checkpoint_of_le (Nat.zero_le k) reached
  obtain ⟨startTime, r, opened, prepared⟩ := begins_of_checkpoint first
  obtain ⟨⟨w, init, -⟩, -⟩ := prepare_ok prepared
  exact ⟨startTime, r, c₀.last, w, opened, init⟩

/-- **A run that has begun leaves what its solver leaves**, whatever it ends with. -/
theorem execute_of_begun (h : solver.Keeps p I)
    (first : ∀ w, Workspace.Same work w →
      (solver.init p { point := plan.start }).Ensures w (fun _ t => I t) fun _ _ => True)
    (begun : plan.Begins solver p work clock) : I (plan.execute solver p work clock).2.1 := by
  obtain ⟨startTime, r, i, w, opened, init⟩ := begun
  obtain ⟨-, same, state, -⟩ := opening_ok opened
  have state : r.state = { point := plan.start } := state
  have after : I w := by
    rw [state] at init
    exact (first r.work same).of_ok init
  have prepared : (plan.prepare solver p).Ensures r (fun _ t => I t.work) fun _ t => I t.work := by
    refine ensures_bind.mpr (ensures_get.mpr (ensures_bind.mpr (ensures_onPart.mpr (ensures_of_ok init ?_))))
    exact ((Keeps.setState _).bind fun _ => (keep_keeps i.point).bind fun _ => .pure i) _ after
  have pursued : (plan.pursue solver p startTime).Ensures r (fun _ t => I t.work) fun _ t => I t.work := by
    refine Ensures.tryCatch (ensures_bind.mpr (prepared.mono (fun i t ht =>
      iterate_keeps h startTime plan.maxSteps i t ht) fun _ _ => id)) fun e t ht => ?_
    split
    · exact (Keeps.states.bind fun _ => (report_keeps h _ _).bind fun _ => .throw e) t ht
    · exact ht
  have ended : (plan.run solver p).Ensures (plan.initial work clock) (fun _ t => I t.work)
      fun _ t => I t.work :=
    ensures_bind.mpr (ensures_of_ok opened (ensures_bind.mpr (pursued.mono
      (fun ending t ht => closing_keeps h ending.1 ending.2 t ht) fun _ _ => id)))
  unfold Ensures at ended
  rw [execute, ← initial]
  rcases run : (plan.run solver p).outcome (plan.initial work clock) with ⟨e | o, t⟩ <;> rw [run] at ended <;>
    exact ended

/-- **A run that is refused its first iterate fails with the same fault** and leaves what the refusal has left, but
for the journal. -/
theorem execute_of_refused {startTime : α} {r : RunState α ς σ} {e : Fault α} {w : Workspace ς σ}
    (opened : (plan.opening solver).outcome (plan.initial work clock) = (.ok startTime, r))
    (refused : (solver.init p r.state).outcome r.work = (.error e, w)) :
    ∃ w' clock', plan.execute solver p work clock = (.error e, w', clock') ∧ Workspace.Same w w' := by
  have prepared : (do plan.iterate solver p startTime plan.maxSteps (← plan.prepare solver p) :
      RunM α ς σ _).outcome r = (.error e, { r with work := w }) := by
    simp only [prepare, RunM.ofSolver, outcome_bind, outcome_get, outcome_onPart, refused]
  have pursued : ∃ r', (plan.pursue solver p startTime).outcome r = (.error e, r') ∧ Workspace.Same w r'.work := by
    rw [pursue, outcome_tryCatch, prepared]
    dsimp only
    split
    · exact ⟨_, rfl, rfl, rfl, rfl⟩
    · exact ⟨_, rfl, rfl, rfl, rfl⟩
  obtain ⟨r', failed, same⟩ := pursued
  have ran : (plan.run solver p).outcome (plan.initial work clock) = (.error e, r') := by
    simp only [Plan.run, outcome_bind, opened, failed]
  refine ⟨r'.work, r'.clock, ?_, same⟩
  rw [execute, ← initial, ran]

end Runs

end Plan

end QuasiNewton
