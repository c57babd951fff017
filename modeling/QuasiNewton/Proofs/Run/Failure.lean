import QuasiNewton.Proofs.Run.Checkpoint

/-!
# Where a run fails

A run that fails has failed in one of four places: before its first check, at a check, in a step from a
check that let it go on, or at its end. `Plan.Fails` lists them together with the check that the run has
reached before, and `Plan.fails_of_execute` says that there are no others. The fault is passed on as it is.
-/

set_option autoImplicit false

namespace QuasiNewton

open Attempt
open QuasiNewton.Decimal (NumberText)

variable {α ς σ : Type} [Scalar α]

namespace Plan

variable [NumberText α] (plan : Plan α) (solver : Solver α ς σ) (p : Problem α σ)
  (work : Workspace ς σ) (clock : Clock α)

/-- A run fails with a fault. -/
inductive Fails (e : Fault α) : Prop
  | early {r : RunState α ς σ}
      (failed : (plan.opening solver >>= fun _ => plan.prepare solver p).outcome
        (plan.initial work clock) = (.error e, r))
  | check {k : Nat} {c : Checkpoint α ς σ} {r : RunState α ς σ}
      (reached : plan.checkpoint solver p work clock k = some c)
      (failed : (plan.verdict solver clock.read.1 (plan.maxSteps - k)).outcome c.run = (.error e, r))
  | step {k : Nat} {c : Checkpoint α ς σ} {r r' : RunState α ς σ}
      (reached : plan.checkpoint solver p work clock k = some c)
      (goesOn : (plan.verdict solver clock.read.1 (plan.maxSteps - k)).outcome c.run =
        (.ok .notTerminated, r))
      (failed : (plan.advance solver p).outcome r = (.error e, r'))
  | closing {k : Nat} {c : Checkpoint α ς σ} {reason : Reason} {r r' : RunState α ς σ}
      (reached : plan.checkpoint solver p work clock k = some c)
      (stops : (plan.verdict solver clock.read.1 (plan.maxSteps - k)).outcome c.run = (.ok reason, r))
      (failed : (plan.closing solver reason c.last).outcome r = (.error e, r'))

variable {plan solver p work clock} {r r' : RunState α ς σ} {e : Fault α}

/-- Steps from a checkpoint on fail at a check or in a step. The induction is on the steps that are
left. -/
theorem fails_of_iterate {left k : Nat} {c : Checkpoint α ς σ}
    (reached : plan.checkpoint solver p work clock k = some c) (within : k + left = plan.maxSteps)
    (h : (plan.iterate solver p clock.read.1 left c.last).outcome c.run = (.error e, r')) :
    plan.Fails solver p work clock e := by
  induction left generalizing k c with
  | zero =>
    have none : plan.maxSteps - k = 0 := by omega
    simp only [iterate, bind_error, outcome_pure] at h
    rcases h with failed | ⟨reason, t, -, returned⟩
    · exact .check reached (none ▸ failed)
    · simp at returned
  | succ left ih =>
    have some : plan.maxSteps - k = left + 1 := by omega
    rw [iterate, bind_error] at h
    rcases h with failed | ⟨reason, t, checked, h⟩
    · exact .check reached (some ▸ failed)
    · by_cases stops : reason.terminated = true
      · simp [stops] at h
      · have goesOn : reason = .notTerminated := by cases reason <;> simp_all [Reason.terminated]
        subst goesOn
        simp only [Reason.terminated, Bool.false_eq_true, if_false, bind_error] at h
        rcases h with failed | ⟨next, t', advanced, h⟩
        · exact .step reached (some ▸ checked) failed
        · have nextReached : plan.checkpoint solver p work clock (k + 1) = Option.some ⟨next, t'⟩ := by
            simp only [checkpoint, reached, Option.bind_some, nextCheckpoint, some, checked, advanced]
          exact ih nextReached (by omega) h

/-- The handler passes every fault on. -/
theorem pursue_error {startTime : α}
    (h : (plan.pursue solver p startTime).outcome r = (.error e, r')) :
    ∃ t, (do plan.iterate solver p startTime plan.maxSteps (← plan.prepare solver p) :
      RunM α ς σ _).outcome r = (.error e, t) := by
  unfold pursue at h
  rw [outcome_tryCatch] at h
  split at h
  case h_1 => exact absurd h nofun
  case h_2 fault t body =>
    by_cases entered : fault.ofOptimization = true
    · simp only [entered, if_true, RunM.report, RunM.ofSolver, SolverM.report, outcome_bind,
        outcome_get, outcome_onPart, outcome_modify, outcome_throw] at h
      obtain ⟨same, -⟩ := Prod.mk.inj h
      exact ⟨t, by rw [← same]; exact body⟩
    · simp only [entered] at h
      obtain ⟨same, -⟩ := Prod.mk.inj h
      exact ⟨t, by rw [← same]; exact body⟩

/-- **A run that fails has failed in one of four places.** -/
theorem fails_of_execute {w : Workspace ς σ} {clock' : Clock α}
    (h : plan.execute solver p work clock = (.error e, w, clock')) :
    plan.Fails solver p work clock e := by
  rcases run : (plan.run solver p).outcome (plan.initial work clock) with ⟨result, r⟩
  have parts : (result, r.work, r.clock) = (Except.error e, w, clock') := by
    rw [← h, execute, ← initial, run]
  obtain ⟨rfl, -⟩ := Prod.mk.inj parts
  simp only [Plan.run, bind_error] at run
  rcases run with failed | ⟨startTime, r₀, opened, failed | ⟨⟨reason, last⟩, r₁, pursued, failed⟩⟩
  · exact .early (bind_error.mpr (.inl failed))
  · obtain ⟨t, body⟩ := pursue_error failed
    rcases bind_error.mp body with unprepared | ⟨first, r₁, prepared, iterated⟩
    · exact .early (bind_error.mpr (.inr ⟨startTime, r₀, opened, unprepared⟩))
    · have reached : plan.checkpoint solver p work clock 0 = some ⟨first, r₁⟩ := by
        simp only [checkpoint, outcome_bind, opened, prepared]
      obtain ⟨rfl, -⟩ := opening_ok opened
      exact fails_of_iterate reached (Nat.zero_add _) iterated
  · obtain ⟨k, c, reached, rfl, checked, -⟩ := pursue_ok opened pursued
    exact .closing reached checked failed

/-! ### Runs that do not fail -/

variable (plan) in
/-- What a run needs of an iterate: a point that can be copied, and a gradient that has a norm. -/
structure Accepts (i : Iterate α) : Prop where
  copy : ∃ copy, plan.family.copy i.point = .ok copy
  norm : ∃ gradient norm, i.gradient? = some gradient ∧ plan.family.norm gradient = .ok norm

omit [NumberText α] in
theorem keep_ensures {x : Tensor α} (h : ∃ copy, plan.family.copy x = .ok copy) (r : RunState α ς σ) :
    (plan.keep x).Ensures r (fun _ _ => True) fun _ _ => False := by
  obtain ⟨copy, copied⟩ := h
  unfold keep
  split
  · rw [copied]
    exact trivial
  · exact trivial

omit [NumberText α] in
theorem gradientNorm_ensures {i : Iterate α}
    (h : ∃ gradient norm, i.gradient? = some gradient ∧ plan.family.norm gradient = .ok norm)
    (r : RunState α ς σ) : (plan.gradientNorm i).Ensures r (fun _ _ => True) fun _ _ => False := by
  obtain ⟨gradient, norm, known, computed⟩ := h
  simp only [gradientNorm, known, computed, ofOperands_of_ok, ensures_pure]

omit [NumberText α] in
theorem prepare_ensures {E : Fault α → Prop}
    (h : (solver.init p r.state).Ensures r.work (fun i _ => plan.Accepts i) fun e _ => E e) :
    (plan.prepare solver p).Ensures r (fun _ _ => True) fun e _ => E e := by
  simp only [prepare, RunM.ofSolver, RunM.setState, ensures_bind, ensures_get, ensures_onPart,
    ensures_modify, ensures_pure]
  exact h.mono (fun i _ accepted => (keep_ensures accepted.copy _).mono (fun _ _ => id) fun _ _ => False.elim)
    fun _ _ => id

/-- A step of a run fails only where the solver fails. -/
theorem advance_ensures {E : Fault α → Prop}
    (h : (solver.step p r.state).Ensures r.work (fun i _ => plan.Accepts i) fun e _ => E e) :
    (plan.advance solver p).Ensures r (fun _ _ => True) fun e _ => E e := by
  simp only [advance, RunM.ofSolver, RunM.setState, RunM.report, SolverM.report, ensures_bind, ensures_get,
    ensures_onPart, ensures_modify, ensures_pure]
  refine h.mono (fun i w accepted => ?_) fun _ _ => id
  refine (keep_ensures accepted.copy _).mono (fun _ t _ => ?_) fun _ _ => False.elim
  exact (gradientNorm_ensures accepted.norm t).mono (fun _ _ => id) fun _ _ => False.elim

omit [NumberText α] in
theorem verdict_ensures
    (h : (solver.terminate r.state).Ensures r.work (fun _ _ => True) fun _ _ => False) (startTime : α)
    (left : Nat) :
    (plan.verdict solver startTime left).Ensures r (fun _ _ => True) fun _ _ => False := by
  simp only [verdict, RunM.ofSolver, ensures_bind, ensures_get, ensures_onPart]
  refine h.mono (fun own w _ => ?_) fun _ _ => id
  split
  · exact trivial
  · split
    · exact trivial
    · unfold timeOver
      split
      · exact trivial
      · simp only [RunM.readClock, ensures_bind, ensures_get, ensures_modify, ensures_pure]
        split <;> exact trivial

theorem closing_ensures {last : Iterate α}
    (h : ∃ gradient norm, last.gradient? = some gradient ∧ plan.family.norm gradient = .ok norm)
    (reason : Reason) (r : RunState α ς σ) :
    (plan.closing solver reason last).Ensures r (fun _ _ => True) fun _ _ => False := by
  simp only [closing, RunM.ofSolver, SolverM.markTerminated, RunM.report, SolverM.report, ensures_bind,
    ensures_get, ensures_onPart, ensures_modify, ensures_pure]
  exact (gradientNorm_ensures h _).mono (fun _ _ => id) fun _ _ => id

variable (plan solver p) in
/-- A solver that never fails, and hands out only what the run accepts. -/
structure Serves : Prop where
  init : ∀ s w, (solver.init p s).Ensures w (fun i _ => plan.Accepts i) fun _ _ => False
  step : ∀ s w, (solver.step p s).Ensures w (fun i _ => plan.Accepts i) fun _ _ => False
  terminate : ∀ s w, (solver.terminate s).Ensures w (fun _ _ => True) fun _ _ => False

theorem Serves.accepts (h : plan.Serves solver p) {k : Nat} {c : Checkpoint α ς σ}
    (reached : plan.checkpoint solver p work clock k = some c) : plan.Accepts c.last := by
  cases k with
  | zero =>
    obtain ⟨w, w', -, init, -⟩ := (checkpoint_zero reached).init
    exact (h.init _ w).of_ok init
  | succ k =>
    obtain ⟨_, r, -, -, advanced⟩ := checkpoint_succ reached
    obtain ⟨w, step, -⟩ := advanced.step
    exact (h.step _ r.work).of_ok step

/-- **A run returns if its solver never fails**, and if its start point has an axis. -/
theorem Serves.execute_returns (h : plan.Serves solver p) {unknowns : Nat}
    (axes : plan.start.length = .ok unknowns) (work : Workspace ς σ) (clock : Clock α) :
    ∃ o w clock', plan.execute solver p work clock = (.ok o, w, clock') := by
  rcases ended : plan.execute solver p work clock with ⟨e | o, w, clock'⟩
  · exfalso
    cases fails_of_execute ended with
    | early failed =>
      have begun : (plan.opening solver >>= fun _ => plan.prepare solver p).Ensures
          (plan.initial work clock) (fun _ _ => True) fun _ _ => False := by
        simp only [opening, axes, RunM.readClock, RunM.report, RunM.ofSolver, SolverM.report, ensures_bind,
          ensures_get, ensures_modify, ensures_pure, ensures_onPart, ofOperands_of_ok]
        exact prepare_ensures (h.init _ _)
      exact begun.of_error failed
    | check _ failed => exact (verdict_ensures (h.terminate _ _) _ _).of_error failed
    | step _ _ failed =>
      exact (advance_ensures (E := fun _ => False) (h.step _ _)).of_error failed
    | closing reached _ failed => exact (closing_ensures (h.accepts reached).norm _ _).of_error failed
  · exact ⟨o, w, clock', rfl⟩

end Plan

end QuasiNewton
