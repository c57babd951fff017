import QuasiNewton.Proofs.Run.Calls
import QuasiNewton.Proofs.Run.Failure
import QuasiNewton.Proofs.Run.Points

/-!
# What a run does with any solver

The driver of a run fulfils a contract with whatever solver it is given, also with one that fails or that
changes what it does from call to call, and with any clock. It stops at the first check at which there is a
reason to stop (`Plan.StopsAt`), for the first reason in a fixed order, and it reports what has happened up to
there: `Plan.run_contract` is the result.
-/

set_option autoImplicit false

namespace QuasiNewton

open Attempt
open QuasiNewton.Decimal (NumberText)

variable {α ς σ β : Type}

theorem Reason.terminated_iff {reason : Reason} : reason.terminated = true ↔ reason ≠ .notTerminated := by
  cases reason <;> simp [Reason.terminated]

theorem Reason.converged_iff {reason : Reason} :
    reason.converged = true ↔ reason = .targetPrecision ∨ reason = .noChange := by
  cases reason <;> simp [Reason.converged]

/-- What is left behind does not depend on the record. -/
theorem RunM.SameButRecord.clock_eq {a : RunM α (Recorded ς) σ β} {b : RunM α ς σ β}
    (same : a.SameButRecord b) {calls : List Call} {readings : Nat} (leaves : a.Leaves calls readings)
    (r : RunState α ς σ) : (b.outcome r).2.clock = r.clock.later readings := by
  obtain ⟨after, -⟩ := same ⟨r.work.recording, r.clock, r.state, r.history⟩ r rfl
  rw [after]
  exact (leaves _).2

namespace Plan

variable [Scalar α]

section Definitions

variable [NumberText α] (plan : Plan α) (solver : Solver α ς σ) (p : Problem α σ) (work : Workspace ς σ)
  (clock : Clock α)

/-- The calls that a run makes. -/
def calls : List Call := (plan.execute solver.recorded p work.recording clock).2.1.solver.calls

/-- There is a reason to stop at the check after `k` steps: the solver has one, or no step is left, or the
time is over, as the clock shows it at this check. -/
def StopsAt (k : Nat) : Prop :=
  ∃ c own w, plan.checkpoint solver p work clock k = some c ∧
    (solver.terminate c.run.state).outcome c.run.work = (.ok own, w) ∧
    (own.terminated = true ∨ plan.maxSteps ≤ k ∨ ∃ limit, plan.maxTime? = some limit ∧
      limit ≤ clock.reading (clock.position + 1 + k) - clock.reading clock.position)

/-- What a run that returns has done: it has stopped after `N` steps, where the solver has given the reason
`own`. -/
structure Stopped (N : Nat) (own : Reason) (o : Outcome α) (after : Workspace ς σ) (clock' : Clock α) :
    Prop where
  steps : o.steps = N
  stepCalls : (plan.calls solver p work clock).count .step = N
  terminateCalls : (plan.calls solver p work clock).count .terminate = N + 1
  stops : plan.StopsAt solver p work clock N
  first : ∀ k < N, ¬ plan.StopsAt solver p work clock k
  asked : ∃ c w, plan.checkpoint solver p work clock N = some c ∧
    (solver.terminate c.run.state).outcome c.run.work = (.ok own, w)
  /-- The reason of the solver comes first, then the number of steps, then the time. -/
  reason : o.reason =
    if own.terminated then own else if plan.maxSteps ≤ N then .maxIterations else .timeout
  ended : o.reason ≠ .notTerminated
  success : o.success = true ↔ o.reason = .targetPrecision ∨ o.reason = .noChange
  history : o.history.size = if plan.history then N + 1 else 0
  lifecycle : after.lifecycle = ⟨.terminated, o.reason⟩
  /-- The clock has been read at the start and at all checks that have come to the time. -/
  clock : clock' = clock.later (1 + N * plan.looks + plan.readings own (plan.maxSteps - N))

end Definitions

variable {plan : Plan α} {solver : Solver α ς σ} {p : Problem α σ} {work : Workspace ς σ} {clock : Clock α}

theorem judge_terminated {own : Reason} {left : Nat} {elapsed : α} :
    (plan.judge own left elapsed).terminated = true ↔ own.terminated = true ∨ left = 0 ∨
      ∃ limit, plan.maxTime? = some limit ∧ limit ≤ elapsed := by
  unfold judge
  by_cases stops : own.terminated = true
  · rw [if_pos stops]
    exact ⟨fun _ => .inl stops, fun _ => stops⟩
  rw [if_neg stops]
  by_cases spent : left = 0
  · rw [if_pos spent]
    exact ⟨fun _ => .inr (.inl spent), fun _ => rfl⟩
  rw [if_neg spent]
  rcases plan.maxTime? with _ | limit
  · simp only [Option.any_none, Bool.false_eq_true, if_false]
    exact ⟨nofun, fun decided => by simp [stops, spent] at decided⟩
  by_cases late : limit ≤ elapsed
  · simp only [Option.any_some, decide_eq_true_eq, late, if_true]
    exact ⟨fun _ => .inr (.inr ⟨limit, rfl, late⟩), fun _ => rfl⟩
  · simp only [Option.any_some, decide_eq_true_eq, late, if_false]
    exact ⟨nofun, fun decided => by simp [stops, spent, late] at decided⟩

theorem judge_eq {own : Reason} {left : Nat} {elapsed : α}
    (stops : (plan.judge own left elapsed).terminated = true) : plan.judge own left elapsed =
      if own.terminated then own else if left = 0 then .maxIterations else .timeout := by
  unfold judge at stops ⊢
  by_cases late : (plan.maxTime?.any fun limit => decide (limit ≤ elapsed)) = true
  · rw [if_pos late]
  · rw [if_neg late] at stops ⊢
    split
    case isTrue => rfl
    case isFalse own_ =>
      rw [if_neg own_] at stops
      split
      case isTrue => rfl
      case isFalse spent =>
        rw [if_neg spent] at stops
        cases stops

variable [NumberText α]

/-! ### At a check -/

theorem steps_of_checkpoint {k : Nat} {c : Checkpoint α ς σ}
    (reached : plan.checkpoint solver p work clock k = some c) : c.run.state.steps = k := by
  induction k generalizing c with
  | zero =>
    rw [(checkpoint_zero reached).state]
    rfl
  | succ k ih =>
    obtain ⟨c₀, r, before, checked, advanced⟩ := checkpoint_succ reached
    rw [advanced.state, checked.state, IterState.advance, ih before]
    rfl

theorem history_of_checkpoint {k : Nat} {c : Checkpoint α ς σ}
    (reached : plan.checkpoint solver p work clock k = some c) :
    c.run.history.size = if plan.history then k + 1 else 0 := by
  induction k generalizing c with
  | zero =>
    have kept := (checkpoint_zero reached).kept
    by_cases on : plan.history = true
    · obtain ⟨copy, -, pushed⟩ := kept.on on
      simp [on, pushed]
    · simp [on, kept.off (by simpa using on)]
  | succ k ih =>
    obtain ⟨c₀, r, before, checked, advanced⟩ := checkpoint_succ reached
    have size := ih before
    rw [← checked.history] at size
    by_cases on : plan.history = true
    · obtain ⟨copy, -, pushed⟩ := advanced.kept.on on
      simp [on, pushed, size]
    · simp [on, advanced.kept.off (by simpa using on), size]

theorem clock_of_checkpoint {k : Nat} {c : Checkpoint α ς σ}
    (reached : plan.checkpoint solver p work clock k = some c) :
    c.run.clock = clock.later (1 + k * plan.looks) := by
  induction k generalizing c with
  | zero =>
    obtain ⟨startTime, r, opened, prepared⟩ := begins_of_checkpoint reached
    have read := (plan.opening_recorded solver).clock_eq (plan.opening_leaves solver)
      (plan.initial work clock)
    have same := (plan.prepare_recorded solver p).clock_eq (plan.prepare_leaves solver p) r
    rw [opened] at read
    rw [prepared] at same
    rw [Nat.zero_mul]
    exact same.trans read
  | succ k ih =>
    obtain ⟨c₀, r, before, checked, advanced⟩ := goesOn_of_checkpoint reached
    have same := (plan.advance_recorded solver p).clock_eq (plan.advance_leaves solver p) r
    obtain ⟨own, asked, -⟩ := (verdict_ok checked).decided
    rw [outcome_verdict asked] at checked
    obtain ⟨goesOn, read⟩ := Prod.mk.inj checked
    have looked := readings_of_goesOn (congrArg Reason.terminated (Except.ok.inj goesOn))
    rw [advanced, ← read] at same
    calc c.run.clock = c₀.run.clock.later (plan.readings own (plan.maxSteps - k)) := same
      _ = clock.later (1 + k * plan.looks + plan.looks) := by rw [ih before, Clock.later_later, looked]
      _ = clock.later (1 + (k + 1) * plan.looks) := by rw [Nat.add_mul, Nat.one_mul, Nat.add_assoc]

theorem stopsAt_iff {k : Nat} {c : Checkpoint α ς σ} {own : Reason} {w : Workspace ς σ}
    (reached : plan.checkpoint solver p work clock k = some c)
    (asked : (solver.terminate c.run.state).outcome c.run.work = (.ok own, w)) :
    plan.StopsAt solver p work clock k ↔ (plan.judge own (plan.maxSteps - k)
      (c.run.clock.reading c.run.clock.position - clock.read.1)).terminated = true := by
  rw [judge_terminated, clock_of_checkpoint reached]
  have elapsed {limit : α} (limited : plan.maxTime? = some limit) :
      (clock.later (1 + k * plan.looks)).reading (clock.later (1 + k * plan.looks)).position -
        clock.read.1 = clock.reading (clock.position + 1 + k) - clock.reading clock.position := by
    have once : plan.looks = 1 := by simp [looks, limited]
    simp only [Clock.later, Clock.read, once, Nat.mul_one, Nat.add_assoc]
  constructor
  · rintro ⟨c', own', w', reached', asked', decided⟩
    obtain rfl := Option.some.inj (reached.symm.trans reached')
    obtain ⟨same, -⟩ := Prod.mk.inj (asked.symm.trans asked')
    obtain rfl := Except.ok.inj same
    rcases decided with stops | spent | ⟨limit, limited, late⟩
    · exact .inl stops
    · exact .inr (.inl (Nat.sub_eq_zero_of_le spent))
    · exact .inr (.inr ⟨limit, limited, by rw [elapsed limited]; exact late⟩)
  · intro decided
    refine ⟨c, own, w, reached, asked, ?_⟩
    rcases decided with stops | spent | ⟨limit, limited, late⟩
    · exact .inl stops
    · exact .inr (.inl (Nat.le_of_sub_eq_zero spent))
    · exact .inr (.inr ⟨limit, limited, by rw [← elapsed limited]; exact late⟩)

theorem calls_of_checkpoint {k : Nat} {c : Checkpoint α (Recorded ς) σ}
    (reached : plan.checkpoint solver.recorded p work.recording clock k = some c) :
    c.run.work.solver.calls = Call.course k := by
  induction k generalizing c with
  | zero =>
    obtain ⟨startTime, r, opened, prepared⟩ := begins_of_checkpoint reached
    obtain ⟨none, -⟩ := plan.opening_leaves solver (plan.initial work.recording clock)
    obtain ⟨made, -⟩ := plan.prepare_leaves solver p r
    rw [opened] at none
    rw [prepared, none] at made
    exact made
  | succ k ih =>
    obtain ⟨c₀, r, before, checked, advanced⟩ := goesOn_of_checkpoint reached
    obtain ⟨-, -, asked, -⟩ := plan.verdict_leaves solver clock.read.1 (plan.maxSteps - k) c₀.run
    obtain ⟨made, -⟩ := plan.advance_leaves solver p r
    rw [checked, ih before] at asked
    rw [advanced, asked, List.append_assoc] at made
    exact made

/-- A run that returns after `N` steps has made the calls of its course, and asked once more. -/
theorem calls_of_execute {o : Outcome α} {w : Workspace ς σ} {clock' : Clock α}
    (h : plan.execute solver p work clock = (.ok o, w, clock')) {N : Nat} (steps : o.steps = N) :
    plan.calls solver p work clock = Call.course N ++ [.terminate] := by
  rcases run : plan.execute solver.recorded p work.recording clock with ⟨result, w₁, clock₁⟩
  rw [execute_recorded, run] at h
  obtain ⟨rfl, -⟩ := Prod.mk.inj h
  obtain ⟨k, c, r, r', reached, checked, -, closed, same, -⟩ := execute_stops run
  obtain ⟨-, -, asked, -⟩ := plan.verdict_leaves solver clock.read.1 (plan.maxSteps - k) c.run
  obtain ⟨quiet, -⟩ := plan.closing_quiet solver o.reason c.last r
  have reported := (closing_ok closed).2
  have last : (k : Int) = N := by
    rw [← steps, reported.steps, (verdict_ok checked).state, steps_of_checkpoint reached]
  obtain rfl := Int.ofNat.inj last
  rw [checked, calls_of_checkpoint reached] at asked
  rw [closed, asked, List.append_nil] at quiet
  rw [calls, run, ← same]
  exact quiet

/-! ### The contract -/

/-- **A run stops at the first check at which there is a reason to stop**, and it reports what it has done
until then. -/
theorem stopped_of_execute {o : Outcome α} {w : Workspace ς σ} {clock' : Clock α}
    (h : plan.execute solver p work clock = (.ok o, w, clock')) :
    ∃ N own, plan.Stopped solver p work clock N own o w clock' := by
  obtain ⟨N, c, r, r', reached, checked, stops, closed, rfl, rfl⟩ := execute_stops h
  obtain ⟨own, asked, -⟩ := (verdict_ok checked).decided
  have reported := (closing_ok closed).2
  have steps : o.steps = N := by
    rw [reported.steps, (verdict_ok checked).state, steps_of_checkpoint reached]
  have judged := checked
  rw [outcome_verdict asked] at judged
  obtain ⟨verdict, left⟩ := Prod.mk.inj judged
  have reason := Except.ok.inj verdict
  have calls := calls_of_execute h steps
  have quiet := (plan.closing_recorded solver o.reason c.last).clock_eq
    (plan.closing_quiet solver o.reason c.last) r
  rw [closed, ← left, clock_of_checkpoint reached, Clock.later_later, Clock.later_later] at quiet
  refine ⟨N, own, {
    steps := steps
    stepCalls := by simp [calls, Call.count_step_course]
    terminateCalls := by simp [calls, Call.count_terminate_course]
    stops := (stopsAt_iff reached asked).mpr (by rw [reason]; exact stops)
    first := fun k before earlier => ?_
    asked := ⟨c, r.work, reached, asked⟩
    reason := ?_
    ended := Reason.terminated_iff.mp stops
    success := Reason.converged_iff
    history := by rw [reported.history, (verdict_ok checked).history, history_of_checkpoint reached]
    lifecycle := reported.work.lifecycle
    clock := quiet }⟩
  · obtain ⟨c', after⟩ := exists_checkpoint_of_le before reached
    obtain ⟨c₀, r₀, reached₀, checked₀, -⟩ := goesOn_of_checkpoint after
    obtain ⟨own₀, asked₀, -⟩ := (verdict_ok checked₀).decided
    rw [outcome_verdict asked₀] at checked₀
    have goesOn := Except.ok.inj (Prod.mk.inj checked₀).1
    have again := (stopsAt_iff reached₀ asked₀).mp earlier
    rw [goesOn] at again
    cases again
  · rw [← reason, judge_eq (by rw [reason]; exact stops)]
    simp only [Nat.sub_eq_zero_iff_le]

/-- **The contract of a run with any solver.** A solver that keeps a record of its calls makes the same run.
The first iterate is asked for once, and no more steps are made than permitted. The clock is read at the start,
and with a time limit at all checks that have let a step be made and at most once at a check. A run that
returns has stopped as `Stopped` says. -/
theorem run_contract (plan : Plan α) (solver : Solver α ς σ) (p : Problem α σ) (work : Workspace ς σ)
    (clock : Clock α) {unknowns : Nat} (axes : plan.start.length = .ok unknowns) :
    plan.execute solver p work clock =
        ((plan.execute solver.recorded p work.recording clock).1,
          (plan.execute solver.recorded p work.recording clock).2.1.withoutRecord,
          (plan.execute solver.recorded p work.recording clock).2.2) ∧
      (plan.calls solver p work clock).count .init = 1 ∧
      (plan.calls solver p work clock).count .step ≤ plan.maxSteps ∧
      (∃ readings, (plan.execute solver p work clock).2.2 = clock.later readings ∧
        1 + (plan.calls solver p work clock).count .step * plan.looks ≤ readings ∧
        readings ≤ 1 + (plan.calls solver p work clock).count .terminate * plan.looks) ∧
      ∀ o w clock', plan.execute solver p work clock = (.ok o, w, clock') →
        ∃ N own, plan.Stopped solver p work clock N own o w clock' := by
  have same := plan.execute_recorded solver p work clock
  obtain ⟨readings, course, read⟩ := plan.execute_course solver p work clock axes
  obtain ⟨once, within, least, most⟩ := course.counts
  refine ⟨same, once, within, ⟨readings, ?_, least, most⟩, fun o w clock' => stopped_of_execute⟩
  rw [same]
  exact read

end Plan

/-! ### A run that ends for time -/

/-- A solver that stays at the origin and never has a reason to stop. -/
noncomputable def Solver.resting : Solver ℝ Unit Unit where
  name := "resting"
  init _ _ := pure ⟨.ofVector .lenient ![0, 0], 0, some (.ofVector .lenient ![0, 0])⟩
  step _ _ := pure ⟨.ofVector .lenient ![0, 0], 0, some (.ofVector .lenient ![0, 0])⟩
  terminate _ := pure .notTerminated

/-- A run with at most five steps and a time limit of two ticks. -/
noncomputable def Plan.brief : Plan ℝ := ⟨.lenient, .ofVector .lenient ![0, 0], 5, some (1 + 1), true⟩

/-- A clock that ticks at every reading. -/
noncomputable def Clock.ticking : Clock ℝ := { reading := fun k => k }

def Workspace.blank : Workspace Unit Unit := ⟨.fresh none (), (), {}, { threshold := .info }⟩

theorem Solver.resting_serves : Plan.brief.Serves Solver.resting Problem.absent := by
  have accepted : Plan.brief.Accepts
      ⟨.ofVector .lenient ![0, 0], 0, some (.ofVector .lenient ![0, 0])⟩ :=
    ⟨⟨_, Family.copy_ofVector _ _⟩, _, _, rfl, Family.norm_ofVector _ _⟩
  exact ⟨fun _ _ => accepted, fun _ _ => accepted, fun _ _ => trivial⟩

theorem Solver.resting_stopsAt {work : Workspace Unit Unit} {k : ℕ} {c : Checkpoint ℝ Unit Unit}
    (reached : Plan.brief.checkpoint Solver.resting Problem.absent work .ticking k = some c) :
    Plan.brief.StopsAt Solver.resting Problem.absent work .ticking k ↔ 1 ≤ k := by
  have late : (1 + 1 : ℝ) ≤ Clock.ticking.reading (Clock.ticking.position + 1 + k) -
      Clock.ticking.reading Clock.ticking.position ↔ 1 ≤ k := by
    simp only [Clock.ticking, Nat.zero_add, Nat.cast_add, Nat.cast_one, Nat.cast_zero, sub_zero]
    rw [← Nat.one_le_cast (α := ℝ)]
    constructor <;> intro h <;> linarith
  constructor
  · rintro ⟨c', own, w, -, asked, stops | spent | ⟨limit, limited, expired⟩⟩
    · obtain rfl : Reason.notTerminated = own := Except.ok.inj (Prod.mk.inj asked).1
      cases stops
    · exact le_trans (by decide : 1 ≤ 5) spent
    · obtain rfl := Option.some.inj limited
      exact late.mp expired
  · intro positive
    exact ⟨c, .notTerminated, c.run.work, reached, rfl, .inr (.inr ⟨1 + 1, rfl, late.mpr positive⟩)⟩

/-- For instance, a run of this solver returns after one step, since the second check finds the time over. -/
theorem resting_stops_for_time :
    ∃ o w clock', Plan.brief.execute Solver.resting Problem.absent Workspace.blank .ticking =
        (.ok o, w, clock') ∧ o.steps = 1 ∧ o.reason = .timeout ∧ clock'.position = 3 ∧
      (Plan.brief.calls Solver.resting Problem.absent Workspace.blank .ticking).count .step = 1 ∧
      (Plan.brief.calls Solver.resting Problem.absent Workspace.blank .ticking).count .terminate = 2 := by
  have axes : Plan.brief.start.length = .ok 2 := Tensor.length_ofVector _ _
  obtain ⟨o, w, clock', returned⟩ := Solver.resting_serves.execute_returns axes Workspace.blank .ticking
  obtain ⟨-, -, -, -, contract⟩ := Plan.run_contract Plan.brief Solver.resting Problem.absent Workspace.blank
    .ticking axes
  obtain ⟨N, own, stopped⟩ := contract o w clock' returned
  obtain ⟨c, w', reached, asked⟩ := stopped.asked
  obtain rfl : Reason.notTerminated = own := Except.ok.inj (Prod.mk.inj asked).1
  obtain rfl : N = 1 := by
    have atLeast : 1 ≤ N := (Solver.resting_stopsAt reached).mp stopped.stops
    by_contra different
    obtain ⟨c₁, earlier⟩ := Plan.exists_checkpoint_of_le atLeast reached
    exact stopped.first 1 (by omega) ((Solver.resting_stopsAt earlier).mpr le_rfl)
  refine ⟨o, w, clock', returned, stopped.steps, stopped.reason, ?_, stopped.stepCalls,
    stopped.terminateCalls⟩
  rw [stopped.clock]
  rfl

end QuasiNewton
