import QuasiNewton.Proofs.Run.Checkpoint
import QuasiNewton.Proofs.Run.Recorded

/-!
# What a run calls and when it reads the clock

Every run, whether it returns or fails, calls the parts of its solver in one order: it prepares a first
iterate, and then it asks whether to stop and makes a step in turns. It reads the clock at its beginning
and, where there is a time limit, at the checks that the solver and the number of steps let pass.
`Plan.Course` lists the records that a run can leave, and `Plan.execute_course` says that there are no
others.
-/

set_option autoImplicit false

namespace QuasiNewton

open Attempt
open QuasiNewton.Decimal (NumberText)

variable {α ς σ β γ : Type}

/-- The clock after some readings. -/
def Clock.later (c : Clock α) (readings : Nat) : Clock α :=
  { c with position := c.position + readings }

theorem Clock.later_later (c : Clock α) (m n : Nat) : (c.later m).later n = c.later (m + n) := by
  unfold later
  rw [Nat.add_assoc]

/-- The calls of a run up to its check after `k` steps. -/
def Call.course : Nat → List Call
  | 0 => [.init]
  | k + 1 => course k ++ [.terminate, .step]

namespace Call

theorem count_init_course (k : Nat) : (course k).count .init = 1 := by
  induction k with
  | zero => rfl
  | succ k ih => simp [course, ih]

theorem count_step_course (k : Nat) : (course k).count .step = k := by
  induction k with
  | zero => rfl
  | succ k ih => simp [course, ih]

theorem count_terminate_course (k : Nat) : (course k).count .terminate = k := by
  induction k with
  | zero => rfl
  | succ k ih => simp [course, ih]

end Call

/-! ### The parts of a run -/

namespace RunM

/-- Whether it fails or not, a computation makes the given calls and readings of the clock. -/
def Leaves (a : RunM α (Recorded ς) σ β) (calls : List Call) (readings : Nat) : Prop :=
  ∀ r, (a.outcome r).2.work.solver.calls = r.work.solver.calls ++ calls ∧
    (a.outcome r).2.clock = r.clock.later readings

/-- A computation without calls and readings. -/
abbrev Quiet (a : RunM α (Recorded ς) σ β) : Prop := a.Leaves [] 0

namespace Leaves

variable {a : RunM α (Recorded ς) σ β} {calls : List Call} {readings : Nat}

/-- If what follows is quiet, it does not matter whether it happens. -/
theorem bind (h : a.Leaves calls readings) {next : β → RunM α (Recorded ς) σ γ}
    (quiet : ∀ x, (next x).Quiet) : (a >>= next).Leaves calls readings := by
  intro r
  obtain ⟨made, read⟩ := h r
  rw [outcome_bind]
  rcases run : a.outcome r with ⟨fault | x, t⟩
  · rw [run] at made read
    exact ⟨made, read⟩
  · rw [run] at made read
    obtain ⟨none, same⟩ := quiet x t
    exact ⟨by rw [none, made, List.append_nil], by rw [same, read]; rfl⟩

theorem states {next : RunState α (Recorded ς) σ → RunM α (Recorded ς) σ γ}
    (h : ∀ r, (next r).Leaves calls readings) : (get >>= next).Leaves calls readings :=
  fun r => h r r

theorem pure (x : β) : (Pure.pure x : RunM α (Recorded ς) σ β).Quiet :=
  fun _ => ⟨(List.append_nil _).symm, rfl⟩

theorem throw (e : Fault α) : (MonadExcept.throw e : RunM α (Recorded ς) σ β).Quiet :=
  fun _ => ⟨(List.append_nil _).symm, rfl⟩

theorem ofOperands (result : Except Mismatch β) :
    Quiet (Attempt.ofOperands result : RunM α (Recorded ς) σ β) := by
  cases result with
  | ok x => exact pure x
  | error cause => exact throw _

theorem change {f : RunState α (Recorded ς) σ → RunState α (Recorded ς) σ}
    (calls : ∀ r, (f r).work.solver.calls = r.work.solver.calls) (clock : ∀ r, (f r).clock = r.clock) :
    (modify f : RunM α (Recorded ς) σ PUnit).Quiet :=
  fun r => ⟨(calls r).trans (List.append_nil _).symm, clock r⟩

theorem setState (state : IterState α) : (RunM.setState state : RunM α (Recorded ς) σ Unit).Quiet :=
  change (fun _ => rfl) fun _ => rfl

theorem report (severity : Severity) (text : String) :
    (RunM.report severity text : RunM α (Recorded ς) σ Unit).Quiet :=
  fun _ => ⟨(List.append_nil _).symm, rfl⟩

theorem readClock : (RunM.readClock : RunM α (Recorded ς) σ α).Leaves [] 1 :=
  fun _ => ⟨(List.append_nil _).symm, rfl⟩

theorem recorded (call : Call) (task : SolverM α ς σ β) :
    (RunM.ofSolver (SolverM.recorded call task)).Leaves [call] 0 :=
  fun _ => ⟨rfl, rfl⟩

end Leaves

end RunM

namespace Plan

open RunM

variable [Scalar α] (plan : Plan α) (solver : Solver α ς σ) (p : Problem α σ)

theorem keep_quiet (x : Tensor α) : (plan.keep x : RunM α (Recorded ς) σ Unit).Quiet := by
  unfold keep
  split
  · exact .bind (.ofOperands _) fun copy => .change (fun _ => rfl) fun _ => rfl
  · exact .pure _

theorem gradientNorm_quiet (i : Iterate α) : (plan.gradientNorm i : RunM α (Recorded ς) σ α).Quiet := by
  unfold gradientNorm
  split
  · exact .ofOperands _
  · exact .throw _

omit [Scalar α] in
theorem opening_leaves : (plan.opening solver.recorded).Leaves [] 1 := by
  refine .bind .readClock fun time => ?_
  refine .bind (.ofOperands _) fun unknowns => ?_
  exact .bind (.report _ _) fun _ => .pure _

theorem prepare_leaves : (plan.prepare solver.recorded p).Leaves [.init] 0 := by
  refine .states fun r => ?_
  refine .bind (.recorded _ _) fun first => ?_
  refine .bind (.setState _) fun _ => ?_
  exact .bind (plan.keep_quiet _) fun _ => .pure _

theorem advance_leaves [NumberText α] : (plan.advance solver.recorded p).Leaves [.step] 0 := by
  refine .states fun r => ?_
  refine .bind (.recorded _ _) fun next => ?_
  refine .bind (.setState _) fun _ => ?_
  refine .bind (plan.keep_quiet _) fun _ => ?_
  refine .bind (plan.gradientNorm_quiet _) fun norm => ?_
  exact .bind (.report _ _) fun _ => .pure _

theorem closing_quiet [NumberText α] (reason : Reason) (last : Iterate α) :
    (plan.closing solver.recorded reason last).Quiet := by
  refine .bind (a := RunM.ofSolver (SolverM.markTerminated reason)) ?_ fun _ => ?_
  · exact fun _ => ⟨(List.append_nil _).symm, rfl⟩
  refine .bind (plan.gradientNorm_quiet _) fun norm => ?_
  exact .states fun r => .bind (.report _ _) fun _ => .pure _

/-! ### Checks -/

/-- How often a check reads the clock that the solver and the number of steps let pass. -/
def looks : Nat := if plan.maxTime?.isSome then 1 else 0

/-- The reason of a check with `left` steps left, given that of the solver and the time since the start:
the solver comes first, then the number of steps, then the time. -/
def judge (own : Reason) (left : Nat) (elapsed : α) : Reason :=
  if own.terminated then own
  else if left = 0 then .maxIterations
  else if plan.maxTime?.any fun limit => decide (limit ≤ elapsed) then .timeout
  else .notTerminated

/-- How often a check reads the clock. -/
def readings (own : Reason) (left : Nat) : Nat :=
  if own.terminated ∨ left = 0 then 0 else plan.looks

variable {plan solver} {r : RunState α ς σ} {own : Reason} {w : Workspace ς σ} {startTime : α} {left : Nat}

/-- What a check makes of a run. -/
theorem outcome_verdict (asked : (solver.terminate r.state).outcome r.work = (.ok own, w)) :
    (plan.verdict solver startTime left).outcome r =
      (.ok (plan.judge own left (r.clock.reading r.clock.position - startTime)),
        { r with work := w, clock := r.clock.later (plan.readings own left) }) := by
  simp only [verdict, RunM.ofSolver, outcome_bind, outcome_get, outcome_onPart, asked, judge, readings]
  by_cases stops : own.terminated = true
  · simp only [stops, if_true, true_or, outcome_pure]
    rfl
  by_cases spent : left = 0
  · simp only [stops, spent, if_true, or_true, Bool.false_eq_true, if_false, outcome_pure]
    rfl
  rcases limited : plan.maxTime? with _ | limit
  · simp only [stops, spent, timeOver, limited, looks, or_self, Bool.false_eq_true, if_false, Option.any_none,
      Option.isSome_none, outcome_bind, outcome_pure]
    rfl
  · simp only [stops, spent, timeOver, limited, looks, or_self, Bool.false_eq_true, if_false, if_true,
      Option.any_some, Option.isSome_some, readClock, Clock.read, outcome_bind, outcome_get, outcome_modify,
      outcome_pure]
    split <;> rfl

theorem outcome_verdict_error {e : Fault α}
    (asked : (solver.terminate r.state).outcome r.work = (.error e, w)) :
    (plan.verdict solver startTime left).outcome r = (.error e, { r with work := w }) := by
  simp only [verdict, RunM.ofSolver, outcome_bind, outcome_get, outcome_onPart, asked]

omit [Scalar α] in
theorem readings_le : plan.readings own left ≤ plan.looks := by
  unfold readings
  split
  · exact Nat.zero_le _
  · exact Nat.le_refl _

theorem readings_of_goesOn {elapsed : α} (goesOn : (plan.judge own left elapsed).terminated = false) :
    plan.readings own left = plan.looks := by
  by_cases stops : own.terminated = true
  · rw [judge, if_pos stops, stops] at goesOn
    cases goesOn
  by_cases spent : left = 0
  · rw [judge, if_neg stops, if_pos spent] at goesOn
    cases goesOn
  · exact if_neg (by simp [stops, spent])

variable (plan solver startTime left) in
/-- A check asks the solver once and reads the clock at most once, and exactly once if it has to and lets
the run go on. -/
theorem verdict_leaves (r : RunState α (Recorded ς) σ) :
    ∃ readings ≤ plan.looks,
      ((plan.verdict solver.recorded startTime left).outcome r).2.work.solver.calls =
        r.work.solver.calls ++ [.terminate] ∧
      ((plan.verdict solver.recorded startTime left).outcome r).2.clock = r.clock.later readings ∧
      ∀ reason r', (plan.verdict solver.recorded startTime left).outcome r = (.ok reason, r') →
        reason.terminated = false → readings = plan.looks := by
  have entered : ((solver.recorded.terminate r.state).outcome r.work).2.solver.calls =
      r.work.solver.calls ++ [.terminate] := rfl
  rcases asked : (solver.recorded.terminate r.state).outcome r.work with ⟨e | own, w⟩
  · rw [asked] at entered
    rw [outcome_verdict_error asked]
    exact ⟨0, Nat.zero_le _, entered, rfl, fun _ _ same => absurd (Prod.mk.inj same).1 nofun⟩
  · rw [asked] at entered
    rw [outcome_verdict asked]
    refine ⟨plan.readings own left, readings_le, entered, rfl, fun reason r' same goesOn => ?_⟩
    obtain rfl := Except.ok.inj (Prod.mk.inj same).1
    exact readings_of_goesOn goesOn

/-! ### Whole runs -/

variable (plan)

/-- The records that a run can leave: its calls, and how often it has read the clock. -/
inductive Course : List Call → Nat → Prop
  | unprepared : Course [.init] 1
  /-- The run stops or fails at the check after `k` steps, or it fails after it has stopped there. -/
  | checked {k : Nat} (within : k ≤ plan.maxSteps) {readings : Nat} (once : readings ≤ plan.looks) :
    Course (Call.course k ++ [.terminate]) (1 + k * plan.looks + readings)
  /-- The run fails in the step after `k` steps. -/
  | stepped {k : Nat} (within : k < plan.maxSteps) :
    Course (Call.course (k + 1)) (1 + (k + 1) * plan.looks)

omit [Scalar α] in
theorem Course.counts {calls : List Call} {readings : Nat} (h : plan.Course calls readings) :
    calls.count .init = 1 ∧ calls.count .step ≤ plan.maxSteps ∧
      1 + calls.count .step * plan.looks ≤ readings ∧
      readings ≤ 1 + calls.count .terminate * plan.looks := by
  cases h with
  | unprepared => simp
  | @checked k within readings once =>
    simp only [List.count_append, Call.count_init_course, Call.count_step_course,
      Call.count_terminate_course, List.count_singleton, Nat.add_mul]
    refine ⟨rfl, within, by simp, by simpa [Nat.add_assoc] using once⟩
  | @stepped k within =>
    simp only [Call.count_init_course, Call.count_step_course, Call.count_terminate_course]
    exact ⟨trivial, within, Nat.le_refl _, Nat.le_refl _⟩

variable (solver)

/-- What a run has left at an end. -/
def Ends (clock : Clock α) (r : RunState α (Recorded ς) σ) : Prop :=
  ∃ readings, plan.Course r.work.solver.calls readings ∧ r.clock = clock.later readings

variable [NumberText α] {clock : Clock α}

omit [NumberText α] in
theorem verdict_ends {k : Nat} (within : k ≤ plan.maxSteps) {r t : RunState α (Recorded ς) σ}
    (calls : r.work.solver.calls = Call.course k) (read : r.clock = clock.later (1 + k * plan.looks))
    {result : Except (Fault α) Reason}
    (checked : (plan.verdict solver.recorded startTime left).outcome r = (result, t)) :
    plan.Ends clock t ∧ t.work.solver.calls = Call.course k ++ [.terminate] ∧
      ∀ reason, result = .ok reason → reason.terminated = false →
        t.clock = clock.later (1 + (k + 1) * plan.looks) := by
  obtain ⟨readings, once, asked, looked, goes⟩ :=
    plan.verdict_leaves solver startTime left r
  rw [checked, calls] at asked
  rw [checked, read, Clock.later_later] at looked
  refine ⟨⟨_, asked ▸ .checked within once, looked⟩, asked, fun reason same goesOn => ?_⟩
  rw [goes reason t (by rw [checked, same]) goesOn] at looked
  rw [Nat.add_mul, Nat.one_mul, ← Nat.add_assoc]
  exact looked

theorem advance_ends {k : Nat} (within : k < plan.maxSteps) {r t : RunState α (Recorded ς) σ}
    (calls : r.work.solver.calls = Call.course k ++ [.terminate])
    (read : r.clock = clock.later (1 + (k + 1) * plan.looks)) {result : Except (Fault α) (Iterate α)}
    (advanced : (plan.advance solver.recorded p).outcome r = (result, t)) :
    plan.Ends clock t ∧ t.work.solver.calls = Call.course (k + 1) ∧
      t.clock = clock.later (1 + (k + 1) * plan.looks) := by
  obtain ⟨made, same⟩ := plan.advance_leaves solver p r
  rw [advanced, calls, List.append_assoc] at made
  rw [advanced, read] at same
  exact ⟨⟨_, made ▸ .stepped within, same⟩, made, same⟩

/-- Steps of a run that has been prepared, by induction on the steps that are left. -/
theorem iterate_ends (left k : Nat) (within : k + left = plan.maxSteps) (last : Iterate α)
    {r : RunState α (Recorded ς) σ} (calls : r.work.solver.calls = Call.course k)
    (read : r.clock = clock.later (1 + k * plan.looks)) :
    plan.Ends clock ((plan.iterate solver.recorded p startTime left last).outcome r).2 := by
  induction left generalizing k last r with
  | zero =>
    rcases checked : (plan.verdict solver.recorded startTime 0).outcome r with ⟨result, t⟩
    obtain ⟨ends, -⟩ := plan.verdict_ends solver (by omega) calls read checked
    unfold iterate
    rw [outcome_bind, checked]
    cases result <;> exact ends
  | succ left ih =>
    rcases checked : (plan.verdict solver.recorded startTime (left + 1)).outcome r with ⟨result, t⟩
    obtain ⟨ends, asked, goesOn⟩ := plan.verdict_ends solver (by omega) calls read checked
    unfold iterate
    rw [outcome_bind, checked]
    rcases result with e | reason
    · exact ends
    by_cases stops : reason.terminated = true
    · simp only [stops, if_true, outcome_pure]
      exact ends
    have looked := goesOn reason rfl (by simpa using stops)
    rcases advanced : (plan.advance solver.recorded p).outcome t with ⟨next, u⟩
    obtain ⟨ends', made, same⟩ := plan.advance_ends solver p (by omega) asked looked advanced
    simp only [stops, Bool.false_eq_true, if_false, outcome_bind, advanced]
    cases next with
    | error e => exact ends'
    | ok next => exact ih (k + 1) (by omega) next made same

omit [Scalar α] [NumberText α] in
theorem Ends.of_quiet {r : RunState α (Recorded ς) σ} (h : plan.Ends clock r)
    {a : RunM α (Recorded ς) σ β} (quiet : a.Quiet) : plan.Ends clock (a.outcome r).2 := by
  obtain ⟨readings, course, read⟩ := h
  obtain ⟨none, same⟩ := quiet r
  exact ⟨readings, by rw [none, List.append_nil]; exact course, by rw [same, read]; rfl⟩

theorem pursue_ends {r : RunState α (Recorded ς) σ} (calls : r.work.solver.calls = [])
    (read : r.clock = clock.later 1) :
    plan.Ends clock ((plan.pursue solver.recorded p startTime).outcome r).2 := by
  have body : plan.Ends clock ((plan.prepare solver.recorded p >>=
      plan.iterate solver.recorded p startTime plan.maxSteps).outcome r).2 := by
    obtain ⟨made, same⟩ := plan.prepare_leaves solver p r
    rw [outcome_bind]
    rcases prepared : (plan.prepare solver.recorded p).outcome r with ⟨result, t⟩
    rw [prepared, calls] at made
    rw [prepared, read] at same
    cases result with
    | error e => exact ⟨1, made ▸ .unprepared, same⟩
    | ok first =>
      refine plan.iterate_ends solver p plan.maxSteps 0 (Nat.zero_add _) first made ?_
      rw [Nat.zero_mul]
      exact same
  unfold pursue
  rw [outcome_tryCatch]
  rcases tried : (plan.prepare solver.recorded p >>=
    plan.iterate solver.recorded p startTime plan.maxSteps).outcome r with ⟨fault | ended, t⟩
  · rw [tried] at body
    refine body.of_quiet plan ?_
    split
    · exact .states fun _ => .bind (.report _ _) fun _ => .throw _
    · exact .throw _
  · rw [tried] at body
    exact body

/-- **Every run takes a course**, if its start point has an axis. -/
theorem execute_course (work : Workspace ς σ) (clock : Clock α) {unknowns : Nat}
    (axes : plan.start.length = .ok unknowns) :
    ∃ readings, plan.Course (plan.execute solver.recorded p work.recording clock).2.1.solver.calls readings ∧
      (plan.execute solver.recorded p work.recording clock).2.2 = clock.later readings := by
  have run : plan.Ends clock
      ((plan.run solver.recorded p).outcome (plan.initial work.recording clock)).2 := by
    have opened : ((plan.opening solver.recorded).outcome (plan.initial work.recording clock)).1 =
        .ok clock.read.1 := by
      simp only [opening, axes, ofOperands_of_ok, RunM.readClock, RunM.report, RunM.ofSolver, SolverM.report,
        outcome_bind, outcome_get, outcome_modify, outcome_pure, outcome_onPart]
      rfl
    obtain ⟨none, read⟩ := plan.opening_leaves solver (plan.initial work.recording clock)
    unfold Plan.run
    rw [outcome_bind]
    rcases begun : (plan.opening solver.recorded).outcome (plan.initial work.recording clock) with ⟨result, r⟩
    rw [begun] at opened none read
    obtain rfl : result = .ok clock.read.1 := opened
    have ends : plan.Ends clock ((plan.pursue solver.recorded p clock.read.1).outcome r).2 :=
      plan.pursue_ends solver p none read
    dsimp only
    rw [outcome_bind]
    rcases pursued : (plan.pursue solver.recorded p clock.read.1).outcome r with ⟨e | ended, t⟩
    · rw [pursued] at ends
      exact ends
    · rw [pursued] at ends
      exact ends.of_quiet plan (plan.closing_quiet solver ended.1 ended.2)
  exact run

end Plan

end QuasiNewton
