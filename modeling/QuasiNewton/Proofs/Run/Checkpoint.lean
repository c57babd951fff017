import QuasiNewton.Proofs.Outcomes
import QuasiNewton.Run

/-!
# The checks of a run

A run looks for a reason to stop after its first iterate and after every step. `Plan.checkpoint` is the
run at the check after `k` steps, as long as it gets there: the first check comes after the first iterate
(`Plan.prepare`), and each further one after a check without a reason to stop and one more step
(`Plan.advance`). `Plan.execute_ok` is the top: a run that returns has ended at one of its checkpoints,
with the verdict of that check.
-/

set_option autoImplicit false

namespace QuasiNewton

open Attempt
open QuasiNewton.Decimal (NumberText)

/-- A run at a check: the current iterate and all the run works on. -/
structure Checkpoint (α ς σ : Type) where
  last : Iterate α
  run : RunState α ς σ

/-- What a solver works on, but for the journal. -/
structure Workspace.Same {ς σ : Type} (w w' : Workspace ς σ) : Prop where
  ledger : w'.ledger = w.ledger
  solver : w'.solver = w.solver
  lifecycle : w'.lifecycle = w.lifecycle

variable {α ς σ : Type} [Scalar α]

namespace Plan

section Definitions

variable (plan : Plan α) (solver : Solver α ς σ) (p : Problem α σ)

/-- What a run works on in the beginning. -/
def initial (work : Workspace ς σ) (clock : Clock α) : RunState α ς σ :=
  ⟨work, clock, { point := plan.start }, #[]⟩

/-- The next checkpoint, with `left` steps left, if the run goes on to it. -/
def nextCheckpoint [NumberText α] (startTime : α) (left : Nat) (c : Checkpoint α ς σ) :
    Option (Checkpoint α ς σ) :=
  match (plan.verdict solver startTime left).outcome c.run with
  | (.ok .notTerminated, r) =>
    match (plan.advance solver p).outcome r with
    | (.ok next, r') => some ⟨next, r'⟩
    | _ => none
  | _ => none

/-- The run at the check after `k` steps, if it gets there. -/
def checkpoint [NumberText α] (work : Workspace ς σ) (clock : Clock α) :
    Nat → Option (Checkpoint α ς σ)
  | 0 =>
    match (plan.opening solver >>= fun _ => plan.prepare solver p).outcome
        (plan.initial work clock) with
    | (.ok first, r) => some ⟨first, r⟩
    | _ => none
  | k + 1 =>
    (checkpoint work clock k).bind (plan.nextCheckpoint solver p clock.read.1 (plan.maxSteps - k))

/-- What is kept of a point in the history. -/
structure Kept (point : Tensor α) (before after : Array (Tensor α)) : Prop where
  /-- Without a history nothing is kept. -/
  off : plan.history = false → after = before
  /-- With a history a copy of the point is kept behind all earlier ones. -/
  on : plan.history = true → ∃ copy, plan.family.copy point = .ok copy ∧ after = before.push copy

/-- What the beginning of a run has led to. -/
structure Prepared (work : Workspace ς σ) (first : Iterate α) (r : RunState α ς σ) : Prop where
  init : ∃ w w', Workspace.Same work w ∧
    (solver.init p { point := plan.start }).outcome w = (.ok first, w') ∧ Workspace.Same w' r.work
  state : r.state = IterState.replace { point := plan.start } first
  kept : plan.Kept first.point #[] r.history

/-- What one step of a run has led to. -/
structure Advanced (r : RunState α ς σ) (next : Iterate α) (r' : RunState α ς σ) : Prop where
  step : ∃ w, (solver.step p r.state).outcome r.work = (.ok next, w) ∧ Workspace.Same w r'.work
  state : r'.state = r.state.advance next
  kept : plan.Kept next.point r.history r'.history

/-- What a check of a run has led to, with `left` steps left: the reasons to stop in their order. -/
structure Checked (left : Nat) (r : RunState α ς σ) (reason : Reason) (r' : RunState α ς σ) :
    Prop where
  /-- The criteria of the solver decide, then the number of steps, then the time. -/
  decided : ∃ own, (solver.terminate r.state).outcome r.work = (.ok own, r'.work) ∧
    (own.terminated = true ∧ reason = own ∨
      own.terminated = false ∧ (left = 0 ∧ reason = .maxIterations ∨
        0 < left ∧ (plan.maxTime? ≠ none ∧ reason = .timeout ∨ reason = .notTerminated)))
  state : r'.state = r.state
  history : r'.history = r.history

/-- What the end of a run reports of it, and what it leaves. -/
structure Reported (last : Iterate α) (r : RunState α ς σ) (o : Outcome α) (w : Workspace ς σ) :
    Prop where
  gradient : ∃ gradient, last.gradient? = some gradient ∧
    plan.family.norm gradient = .ok o.gradientNorm
  point : o.point = last.point
  cost : o.cost = last.cost
  steps : o.steps = r.state.steps
  history : o.history = r.history
  costCalls : o.costCalls = r.work.ledger.costCalls
  gradientCalls : o.gradientCalls = r.work.ledger.gradientCalls
  work : Workspace.Same { r.work with lifecycle := ⟨.terminated, o.reason⟩ } w

end Definitions

end Plan

/-! ### The parts of a run -/

theorem Workspace.Same.trans {ς σ : Type} {u v w : Workspace ς σ} (h : u.Same v) (k : v.Same w) :
    u.Same w :=
  ⟨k.ledger.trans h.ledger, k.solver.trans h.solver, k.lifecycle.trans h.lifecycle⟩

namespace Plan

variable {plan : Plan α} {solver : Solver α ς σ} {p : Problem α σ} {work : Workspace ς σ}
  {clock : Clock α} {r r' : RunState α ς σ}

theorem keep_ok {point : Tensor α} {u : Unit} (h : (plan.keep point).outcome r = (.ok u, r')) :
    plan.Kept point r.history r'.history ∧ r'.work = r.work ∧ r'.state = r.state := by
  unfold keep at h
  split at h
  case isTrue on =>
    simp only [bind_ok, ofOperands_ok, modify_ok] at h
    obtain ⟨copy, _, ⟨copied, rfl⟩, rfl⟩ := h
    exact ⟨⟨by simp [on], fun _ => ⟨copy, copied, rfl⟩⟩, rfl, rfl⟩
  case isFalse off =>
    obtain ⟨-, rfl⟩ := pure_ok.mp h
    exact ⟨⟨fun _ => rfl, fun on => absurd on off⟩, rfl, rfl⟩

omit [Scalar α] in
theorem report_ok {severity : Severity} {text : String} {u : Unit}
    (h : (RunM.report severity text : RunM α ς σ Unit).outcome r = (.ok u, r')) :
    Workspace.Same r.work r'.work ∧ r'.state = r.state ∧ r'.history = r.history := by
  simp only [RunM.report, RunM.ofSolver, SolverM.report, onPart_ok, modify_ok] at h
  obtain ⟨w, rfl, rfl⟩ := h
  exact ⟨⟨rfl, rfl, rfl⟩, rfl, rfl⟩

omit [Scalar α] in
/-- The beginning of a run reads the clock and makes an entry in the journal. -/
theorem opening_ok {startTime : α} (h : (plan.opening solver).outcome r = (.ok startTime, r')) :
    startTime = r.clock.read.1 ∧ Workspace.Same r.work r'.work ∧ r'.state = r.state ∧
      r'.history = r.history := by
  simp only [opening, RunM.readClock, bind_ok, get_ok, modify_ok, pure_ok, ofOperands_ok] at h
  obtain ⟨_, _, ⟨_, _, ⟨rfl, rfl⟩, _, _, rfl, rfl, rfl⟩, _, _, ⟨-, rfl⟩, _, _, entered, rfl, rfl⟩ := h
  obtain ⟨same, sameState, sameHistory⟩ := report_ok entered
  exact ⟨rfl, same, sameState, sameHistory⟩

theorem prepare_ok {first : Iterate α} (h : (plan.prepare solver p).outcome r = (.ok first, r')) :
    (∃ w, (solver.init p r.state).outcome r.work = (.ok first, w) ∧ r'.work = w) ∧
      r'.state = r.state.replace first ∧ plan.Kept first.point r.history r'.history := by
  simp only [prepare, RunM.ofSolver, RunM.setState, bind_ok, get_ok, onPart_ok, modify_ok,
    pure_ok] at h
  obtain ⟨_, _, ⟨rfl, rfl⟩, _, _, ⟨w, init, rfl⟩, _, _, rfl, _, _, keep, rfl, rfl⟩ := h
  obtain ⟨kept, sameWork, sameState⟩ := keep_ok keep
  exact ⟨⟨w, init, sameWork⟩, sameState, kept⟩

/-- The norm of the gradient is asked for only where the gradient is known. -/
theorem gradientNorm_ok {i : Iterate α} {norm : α}
    (h : (plan.gradientNorm i).outcome r = (.ok norm, r')) :
    ∃ gradient, i.gradient? = some gradient ∧ plan.family.norm gradient = .ok norm ∧ r = r' := by
  unfold gradientNorm at h
  split at h
  case h_1 gradient known => exact ⟨gradient, known, ofOperands_ok.mp h⟩
  case h_2 => exact absurd h throw_ok

theorem advance_ok [NumberText α] {next : Iterate α}
    (h : (plan.advance solver p).outcome r = (.ok next, r')) : plan.Advanced solver p r next r' := by
  simp only [advance, RunM.ofSolver, RunM.setState, bind_ok, get_ok, onPart_ok, modify_ok,
    pure_ok] at h
  obtain ⟨_, _, ⟨rfl, rfl⟩, _, _, ⟨w, step, rfl⟩, _, _, rfl, _, _, keep, _, _, norm, _, _, entered,
    rfl, rfl⟩ := h
  obtain ⟨kept, sameWork, sameState⟩ := keep_ok keep
  obtain ⟨-, -, -, rfl⟩ := gradientNorm_ok norm
  obtain ⟨same, reported, sameHistory⟩ := report_ok entered
  rw [sameWork] at same
  exact ⟨⟨w, step, same⟩, reported.trans sameState, sameHistory ▸ kept⟩

theorem timeOver_ok {startTime : α} {late : Bool}
    (h : (plan.timeOver startTime).outcome r = (.ok late, r')) :
    (late = true → plan.maxTime? ≠ none) ∧ r'.work = r.work ∧ r'.state = r.state ∧
      r'.history = r.history := by
  unfold timeOver at h
  split at h
  case h_1 =>
    obtain ⟨rfl, rfl⟩ := pure_ok.mp h
    exact ⟨nofun, rfl, rfl, rfl⟩
  case h_2 limit limited =>
    simp only [RunM.readClock, bind_ok, get_ok, modify_ok, pure_ok] at h
    obtain ⟨_, _, ⟨_, _, ⟨rfl, rfl⟩, _, _, rfl, rfl, rfl⟩, rfl, rfl⟩ := h
    exact ⟨fun _ => by simp [limited], rfl, rfl, rfl⟩

theorem verdict_ok {startTime : α} {left : Nat} {reason : Reason}
    (h : (plan.verdict solver startTime left).outcome r = (.ok reason, r')) :
    plan.Checked solver left r reason r' := by
  simp only [verdict, RunM.ofSolver, bind_ok, get_ok, onPart_ok] at h
  obtain ⟨_, _, ⟨rfl, rfl⟩, own, _, ⟨w, asked, rfl⟩, h⟩ := h
  split at h
  case isTrue stops =>
    obtain ⟨rfl, rfl⟩ := pure_ok.mp h
    exact ⟨⟨_, asked, .inl ⟨stops, rfl⟩⟩, rfl, rfl⟩
  case isFalse goesOn =>
    have open' : own.terminated = false := by simpa using goesOn
    split at h
    case isTrue none =>
      obtain ⟨rfl, rfl⟩ := pure_ok.mp h
      exact ⟨⟨_, asked, .inr ⟨open', .inl ⟨none, rfl⟩⟩⟩, rfl, rfl⟩
    case isFalse some =>
      rw [bind_ok] at h
      obtain ⟨late, _, clock, h⟩ := h
      obtain ⟨limited, sameWork, sameState, sameHistory⟩ := timeOver_ok clock
      split at h <;> obtain ⟨rfl, rfl⟩ := pure_ok.mp h
      case isTrue late =>
        exact ⟨⟨_, sameWork ▸ asked, .inr ⟨open', .inr ⟨Nat.pos_of_ne_zero some,
          .inl ⟨limited late, rfl⟩⟩⟩⟩, sameState, sameHistory⟩
      case isFalse =>
        exact ⟨⟨_, sameWork ▸ asked, .inr ⟨open', .inr ⟨Nat.pos_of_ne_zero some, .inr rfl⟩⟩⟩,
          sameState, sameHistory⟩

omit [Scalar α] in
/-- Without a step left a check always has a reason to stop. -/
theorem Checked.terminated {reason : Reason} (h : plan.Checked solver 0 r reason r') :
    reason.terminated = true := by
  obtain ⟨own, -, ⟨stops, rfl⟩ | ⟨-, ⟨-, rfl⟩ | ⟨some, -⟩⟩⟩ := h.decided
  · exact stops
  · rfl
  · exact absurd some (Nat.lt_irrefl 0)

theorem closing_ok [NumberText α] {reason : Reason} {last : Iterate α} {o : Outcome α}
    (h : (plan.closing solver reason last).outcome r = (.ok o, r')) :
    o.reason = reason ∧ plan.Reported last r o r'.work := by
  simp only [closing, RunM.ofSolver, SolverM.markTerminated, bind_ok, get_ok, onPart_ok, modify_ok,
    pure_ok] at h
  obtain ⟨_, _, ⟨_, rfl, rfl⟩, norm, _, known, _, _, ⟨rfl, rfl⟩, _, _, entered, rfl, rfl⟩ := h
  obtain ⟨gradient, found, computed, rfl⟩ := gradientNorm_ok known
  exact ⟨rfl, ⟨gradient, found, computed⟩, rfl, rfl, rfl, rfl, rfl, rfl, (report_ok entered).1⟩

/-! ### The run -/

section Run

variable [NumberText α]

theorem begins_of_checkpoint {c : Checkpoint α ς σ}
    (h : plan.checkpoint solver p work clock 0 = some c) :
    ∃ startTime r, (plan.opening solver).outcome (plan.initial work clock) = (.ok startTime, r) ∧
      (plan.prepare solver p).outcome r = (.ok c.last, c.run) := by
  simp only [checkpoint] at h
  split at h
  case h_2 => exact absurd h nofun
  case h_1 first r run =>
    obtain rfl := Option.some.inj h
    exact bind_ok.mp run

theorem goesOn_of_checkpoint {k : Nat} {c' : Checkpoint α ς σ}
    (h : plan.checkpoint solver p work clock (k + 1) = some c') :
    ∃ c r, plan.checkpoint solver p work clock k = some c ∧
      (plan.verdict solver clock.read.1 (plan.maxSteps - k)).outcome c.run = (.ok .notTerminated, r) ∧
      (plan.advance solver p).outcome r = (.ok c'.last, c'.run) := by
  simp only [checkpoint, Option.bind_eq_some_iff] at h
  obtain ⟨c, reached, next⟩ := h
  unfold nextCheckpoint at next
  split at next
  case h_2 => exact absurd next nofun
  case h_1 r checked =>
    split at next
    case h_2 => exact absurd next nofun
    case h_1 i r' advanced =>
      obtain rfl := Option.some.inj next
      exact ⟨c, r, reached, checked, advanced⟩

theorem checkpoint_zero {c : Checkpoint α ς σ}
    (h : plan.checkpoint solver p work clock 0 = some c) :
    plan.Prepared solver p work c.last c.run := by
  obtain ⟨startTime, r₀, opened, prepared⟩ := begins_of_checkpoint h
  obtain ⟨-, same, sameState, sameHistory⟩ := opening_ok opened
  obtain ⟨⟨w, init, found⟩, state, kept⟩ := prepare_ok prepared
  rw [sameState] at init state
  rw [sameHistory] at kept
  exact ⟨⟨_, _, same, init, found ▸ ⟨rfl, rfl, rfl⟩⟩, state, kept⟩

theorem checkpoint_succ {k : Nat} {c' : Checkpoint α ς σ}
    (h : plan.checkpoint solver p work clock (k + 1) = some c') :
    ∃ c r, plan.checkpoint solver p work clock k = some c ∧
      plan.Checked solver (plan.maxSteps - k) c.run .notTerminated r ∧
      plan.Advanced solver p r c'.last c'.run := by
  obtain ⟨c, r, reached, checked, advanced⟩ := goesOn_of_checkpoint h
  exact ⟨c, r, reached, verdict_ok checked, advance_ok advanced⟩

/-- A run passes through its checkpoints in order. -/
theorem exists_checkpoint_of_le {k m : Nat} (h : k ≤ m) {c : Checkpoint α ς σ}
    (reached : plan.checkpoint solver p work clock m = some c) :
    ∃ c', plan.checkpoint solver p work clock k = some c' := by
  induction h generalizing c with
  | refl => exact ⟨c, reached⟩
  | step _ ih =>
    obtain ⟨c', _, before, -, -⟩ := checkpoint_succ reached
    exact ih before

theorem le_maxSteps {k : Nat} {c : Checkpoint α ς σ}
    (reached : plan.checkpoint solver p work clock k = some c) : k ≤ plan.maxSteps := by
  cases k with
  | zero => exact Nat.zero_le _
  | succ k =>
    obtain ⟨c', r, -, checked, -⟩ := checkpoint_succ reached
    refine Nat.lt_of_not_le fun beyond => ?_
    rw [Nat.sub_eq_zero_of_le beyond] at checked
    exact absurd checked.terminated nofun

/-- Steps from a checkpoint on end at a checkpoint, with the verdict there. The induction is on the
steps that are left. -/
theorem iterate_ok {left k : Nat} {c : Checkpoint α ς σ} {reason : Reason} {last : Iterate α}
    (reached : plan.checkpoint solver p work clock k = some c) (within : k + left = plan.maxSteps)
    (h : (plan.iterate solver p clock.read.1 left c.last).outcome c.run = (.ok (reason, last), r')) :
    ∃ m c', plan.checkpoint solver p work clock m = some c' ∧ c'.last = last ∧
      (plan.verdict solver clock.read.1 (plan.maxSteps - m)).outcome c'.run = (.ok reason, r') ∧
      reason.terminated = true := by
  induction left generalizing k c with
  | zero =>
    simp only [iterate, bind_ok, pure_ok, Prod.mk.injEq] at h
    obtain ⟨_, _, checked, ⟨rfl, rfl⟩, rfl⟩ := h
    have none : plan.maxSteps - k = 0 := by omega
    exact ⟨k, c, reached, rfl, none ▸ checked, (verdict_ok checked).terminated⟩
  | succ left ih =>
    rw [iterate, bind_ok] at h
    obtain ⟨own, r, checked, h⟩ := h
    have some : plan.maxSteps - k = left + 1 := by omega
    split at h
    case isTrue stops =>
      obtain ⟨same, rfl⟩ := pure_ok.mp h
      obtain ⟨rfl, rfl⟩ := Prod.mk.inj same
      exact ⟨k, c, reached, rfl, some ▸ checked, stops⟩
    case isFalse goesOn =>
      rw [bind_ok] at h
      obtain ⟨next, r'', advanced, h⟩ := h
      have nextReached : plan.checkpoint solver p work clock (k + 1) = Option.some ⟨next, r''⟩ := by
        have notYet : own = .notTerminated := by cases own <;> simp_all [Reason.terminated]
        subst notYet
        simp only [checkpoint, reached, Option.bind_some, nextCheckpoint, some, checked, advanced]
      exact ih nextReached (by omega) h

/-- All steps of a run end at a checkpoint: only they can succeed, since the handler passes every
fault on. -/
theorem pursue_ok {r₀ r₁ : RunState α ς σ} {startTime : α} {reason : Reason} {last : Iterate α}
    (opened : (plan.opening solver).outcome (plan.initial work clock) = (.ok startTime, r₀))
    (h : (plan.pursue solver p startTime).outcome r₀ = (.ok (reason, last), r₁)) :
    ∃ m c, plan.checkpoint solver p work clock m = some c ∧ c.last = last ∧
      (plan.verdict solver clock.read.1 (plan.maxSteps - m)).outcome c.run = (.ok reason, r₁) ∧
      reason.terminated = true := by
  obtain ⟨rfl, -⟩ := opening_ok opened
  -- the handler only reports a fault and throws it again
  have body := tryCatch_ok (fun fault t passed => by
    by_cases entered : fault.ofOptimization = true
    · simp only [entered, if_true, bind_ok] at passed
      obtain ⟨_, _, -, _, _, -, thrown⟩ := passed
      exact absurd thrown throw_ok
    · simp only [entered] at passed
      exact absurd passed throw_ok) h
  obtain ⟨first, r₂, prepared, iterated⟩ := bind_ok.mp body
  have reached : plan.checkpoint solver p work clock 0 = some ⟨first, r₂⟩ := by
    simp only [checkpoint, outcome_bind, opened, prepared]
  exact iterate_ok reached (Nat.zero_add _) iterated

/-- A run that returns has stopped at one of its checkpoints and has been closed there. -/
theorem execute_stops {o : Outcome α} {w : Workspace ς σ} {clock' : Clock α}
    (h : plan.execute solver p work clock = (.ok o, w, clock')) :
    ∃ k c r r', plan.checkpoint solver p work clock k = some c ∧
      (plan.verdict solver clock.read.1 (plan.maxSteps - k)).outcome c.run = (.ok o.reason, r) ∧
      o.reason.terminated = true ∧ (plan.closing solver o.reason c.last).outcome r = (.ok o, r') ∧
      r'.work = w ∧ r'.clock = clock' := by
  rcases run : (plan.run solver p).outcome (plan.initial work clock) with ⟨result, r'⟩
  have parts : (result, r'.work, r'.clock) = (Except.ok o, w, clock') := by
    rw [← h, execute, ← initial, run]
  obtain ⟨rfl, same⟩ := Prod.mk.inj parts
  obtain ⟨rfl, rfl⟩ := Prod.mk.inj same
  simp only [Plan.run, bind_ok] at run
  obtain ⟨startTime, r₀, opened, ⟨reason, last⟩, r₁, pursued, closed⟩ := run
  obtain ⟨m, c, reached, rfl, checked, stops⟩ := pursue_ok opened pursued
  obtain ⟨rfl, -⟩ := closing_ok closed
  exact ⟨m, c, r₁, r', reached, checked, stops, closed, rfl, rfl⟩

/-- **A run that returns has ended at one of its checkpoints.** Its result tells what is known there. -/
theorem execute_ok {o : Outcome α} {w : Workspace ς σ} {clock' : Clock α}
    (h : plan.execute solver p work clock = (.ok o, w, clock')) :
    ∃ k c r, plan.checkpoint solver p work clock k = some c ∧
      plan.Checked solver (plan.maxSteps - k) c.run o.reason r ∧ o.reason.terminated = true ∧
      plan.Reported c.last r o w := by
  obtain ⟨k, c, r, r', reached, checked, stops, closed, rfl, -⟩ := execute_stops h
  exact ⟨k, c, r, reached, verdict_ok checked, stops, (closing_ok closed).2⟩

end Run

end Plan

end QuasiNewton
