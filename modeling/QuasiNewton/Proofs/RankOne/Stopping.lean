import QuasiNewton.Proofs.RankOne.Termination
import QuasiNewton.Proofs.Run.Contract
import QuasiNewton.Proofs.Run.Iterates

/-!
# Why a run of the rank-one solver stops

The solver looks at the norm of the gradient first and then at the change of the cost. What it looks at belongs
to the iterates of the run: the gradient was answered at the current point, the tolerances are those it started
with (`kept_of_checkpoint`), and a change of the cost is known after the first step only. So the reason that a
result gives can be read off the iterates, and no iterate before the last one would have been a reason
(`run_stops_for_its_reason`). Nothing is asked of the problem, the matrix or the search.
-/

set_option autoImplicit false

namespace QuasiNewton.RankOne

open Attempt Matrix Tensor
open QuasiNewton.Decimal (NumberText)

section Checks

variable {α σ : Type} [Scalar α]

/-- The solver decides by the norm of the gradient, and then by the change of the cost. -/
theorem stopReason_ok {r : RankOne α} {state : IterState α} {own : Reason}
    (h : r.stopReason state = .ok own) :
    ∃ norm, gradientNorm r.family state.gradient? = .ok norm ∧
      (own = .targetPrecision ↔ norm < r.tolerances.gradient) ∧
      (own = .noChange ↔ ¬ norm < r.tolerances.gradient ∧
        ∃ change, state.costChange = some change ∧ change < r.tolerances.cost) ∧
      (own.terminated = false ↔ ¬ norm < r.tolerances.gradient ∧
        ¬ ∃ change, state.costChange = some change ∧ change < r.tolerances.cost) := by
  simp only [stopReason, except_bind_ok] at h
  obtain ⟨norm, computed, h⟩ := h
  refine ⟨norm, computed, ?_⟩
  by_cases short : norm < r.tolerances.gradient
  · rw [if_pos short] at h
    obtain rfl := Except.ok.inj h
    simp [short, Reason.terminated]
  · rw [if_neg short] at h
    cases known : state.costChange with
    | none =>
      rw [known] at h
      obtain rfl := Except.ok.inj h
      simp [short, Reason.terminated]
    | some change =>
      rw [known] at h
      have decided : own = if change < r.tolerances.cost then .noChange else .notTerminated :=
        (Except.ok.inj h).symm
      by_cases small : change < r.tolerances.cost <;> simp [decided, short, small, Reason.terminated]

variable [NumberText α] {p : Problem α σ} {plan : Plan α} {work : Workspace (RankOne α) σ}
  {clock : Clock α} {k : ℕ} {c : Checkpoint α (RankOne α) σ}

/-- What a run keeps of its solver, and where the gradient of an iterate comes from. -/
structure Kept (p : Problem α σ) (work : Workspace (RankOne α) σ) (c : Checkpoint α (RankOne α) σ) :
    Prop where
  family : c.run.work.solver.family = work.solver.family
  search : c.run.work.solver.search = work.solver.search
  tolerances : c.run.work.solver.tolerances = work.solver.tolerances
  gradient : ∃ g l l', c.last.gradient? = some g ∧
    (p.evaluateGradient c.last.point).outcome l = (.ok g, l')

/-- By induction on the steps: a step corrects the matrix only, and asks for the gradient at its end. -/
theorem kept_of_checkpoint (reached : plan.checkpoint solver p work clock k = some c) :
    Kept p work c := by
  induction k generalizing c with
  | zero =>
    obtain ⟨w, w', before, started, after⟩ := (Plan.checkpoint_zero reached).init
    obtain ⟨l, gradient, -, asked, point, known, kept, -⟩ := init_ok started
    have same : c.run.work.solver = work.solver := after.solver.trans (kept.trans before.solver)
    exact ⟨by rw [same], by rw [same], by rw [same], gradient, l, w'.ledger, known, by rw [point]; exact asked⟩
  | succ k ih =>
    obtain ⟨c₀, r, earlier, checked, advanced⟩ := Plan.checkpoint_succ reached
    have kept := ih earlier
    obtain ⟨sameWork, -, -⟩ := checked_ok checked
    obtain ⟨w, stepped, after⟩ := advanced.step
    obtain ⟨-, found, searched, gradient, correction, -, -, asked, next, solver⟩ := step_parts stepped
    obtain ⟨sameSearch, sameTolerances⟩ := apply_search r.work.solver correction
    have same : c.run.work.solver = r.work.solver.apply correction := after.solver.trans solver
    refine ⟨?_, ?_, ?_, gradient, searched, w.ledger, by rw [next], by rw [next]; exact asked⟩
    · rw [same, apply_family, sameWork, kept.family]
    · rw [same, sameSearch, sameWork, kept.search]
    · rw [same, sameTolerances, sameWork, kept.tolerances]

/-- **What the solver decides at a check** is what the two tests tell of the iterates. -/
theorem decision_of_checkpoint (reached : plan.checkpoint solver p work clock k = some c) {own : Reason}
    {w : Workspace (RankOne α) σ} (asked : (terminate c.run.state).outcome c.run.work = (.ok own, w)) :
    (∃ norm, c.last.HasNorm norm) ∧
      (own = .targetPrecision ↔ plan.FlatAt solver p work clock work.solver.tolerances.gradient k) ∧
      (own = .noChange ↔ ¬ plan.FlatAt solver p work clock work.solver.tolerances.gradient k ∧
        plan.SettledAt solver p work clock work.solver.tolerances.cost k) ∧
      (own.terminated = false ↔ ¬ plan.FlatAt solver p work clock work.solver.tolerances.gradient k ∧
        ¬ plan.SettledAt solver p work clock work.solver.tolerances.cost k) := by
  have kept := kept_of_checkpoint reached
  obtain ⟨gradient, -, -, known, -⟩ := kept.gradient
  obtain ⟨-, -, current⟩ := Plan.current_of_checkpoint reached
  obtain ⟨norm, computed, target, change, goesOn⟩ := stopReason_ok (terminate_ok asked).1
  rw [current, known] at computed
  have hasNorm : c.last.HasNorm norm := ⟨gradient, _, known, computed⟩
  rw [kept.tolerances] at target change goesOn
  rw [Plan.flatAt_iff reached hasNorm, Plan.settledAt_iff reached]
  exact ⟨⟨norm, hasNorm⟩, target, change, goesOn⟩

/-- The reason with which a check ends a run: the tests come first, then the number of steps, then the time. -/
theorem reason_of_checkpoint (reached : plan.checkpoint solver p work clock k = some c) {reason : Reason}
    {r : RunState α (RankOne α) σ}
    (checked : plan.Checked solver (plan.maxSteps - k) c.run reason r) (ended : reason.terminated = true) :
    (reason = .targetPrecision ↔ plan.FlatAt solver p work clock work.solver.tolerances.gradient k) ∧
      (reason = .noChange ↔ ¬ plan.FlatAt solver p work clock work.solver.tolerances.gradient k ∧
        plan.SettledAt solver p work clock work.solver.tolerances.cost k) ∧
      (reason = .maxIterations → k = plan.maxSteps ∧
        ¬ plan.FlatAt solver p work clock work.solver.tolerances.gradient k ∧
        ¬ plan.SettledAt solver p work clock work.solver.tolerances.cost k) ∧
      (reason = .timeout → k < plan.maxSteps ∧
        ¬ plan.FlatAt solver p work clock work.solver.tolerances.gradient k ∧
        ¬ plan.SettledAt solver p work clock work.solver.tolerances.cost k) := by
  have within := Plan.le_maxSteps reached
  obtain ⟨own, asked, decided⟩ := checked.decided
  obtain ⟨-, target, change, goesOn⟩ := decision_of_checkpoint reached asked
  rcases decided with ⟨-, rfl⟩ | ⟨silent, limited⟩
  · -- the solver has decided, so that no limit is the reason
    have converged : reason.converged = true := by
      rcases stopReason_cases (terminate_ok asked).1 with converged | silent
      · exact converged
      · exact absurd ended (by simp [silent])
    refine ⟨target, change, ?_, ?_⟩
    · rintro rfl
      cases converged
    · rintro rfl
      cases converged
  · obtain ⟨steep, unsettled⟩ := goesOn.mp silent
    rcases limited with ⟨none, rfl⟩ | ⟨some, ⟨-, rfl⟩ | rfl⟩
    · exact ⟨⟨nofun, fun flat => absurd flat steep⟩, ⟨nofun, fun both => absurd both.2 unsettled⟩,
        fun _ => ⟨by omega, steep, unsettled⟩, nofun⟩
    · exact ⟨⟨nofun, fun flat => absurd flat steep⟩, ⟨nofun, fun both => absurd both.2 unsettled⟩,
        nofun, fun _ => ⟨by omega, steep, unsettled⟩⟩
    · cases ended

end Checks

variable {σ : Type}

theorem ofOptions_maxSteps {o : RunOptions ℝ} {plan : Plan ℝ} (h : Plan.ofOptions o = .ok plan) :
    0 ≤ o.maxSteps ∧ plan.maxSteps = ⌊o.maxSteps⌋₊ := by
  simp only [Plan.ofOptions, except_bind_ok, require_ok] at h
  obtain ⟨_, inRange, _, -, _, -, _, -, steps, counted, made⟩ := h
  obtain rfl := Except.ok.inj made
  have nonneg : 0 ≤ o.maxSteps := by simpa using inRange
  rw [Exact.countOf_of_nonneg nonneg] at counted
  exact ⟨nonneg, (Except.ok.inj counted).symm⟩

section Run

variable [NumberText ℝ]

/-- What the reason of a result tells of the iterates of a run that has stopped after `N` of at most `most`
steps. -/
structure StopsFor (plan : Plan ℝ) (p : Problem ℝ σ) (work : Workspace (RankOne ℝ) σ) (clock : Clock ℝ)
    (most N : ℕ) (o : Outcome ℝ) : Prop where
  steps : o.steps = N
  last : ∃ c, plan.checkpoint solver p work clock N = some c ∧ o.point = c.last.point ∧
    o.cost = c.last.cost
  /-- The norm is that of a gradient answered at the point of the result. -/
  gradient : ∃ g l l', (p.evaluateGradient o.point).outcome l = (.ok g, l') ∧
    plan.family.norm g = .ok o.gradientNorm
  targetPrecision : o.reason = .targetPrecision ↔ o.gradientNorm < work.solver.tolerances.gradient
  noChange : o.reason = .noChange ↔ work.solver.tolerances.gradient ≤ o.gradientNorm ∧
    ∃ k c, N = k + 1 ∧ plan.checkpoint solver p work clock k = some c ∧
      |c.last.cost - o.cost| < work.solver.tolerances.cost
  maxIterations : o.reason = .maxIterations → N = most ∧
    work.solver.tolerances.gradient ≤ o.gradientNorm ∧
    ¬ plan.SettledAt solver p work clock work.solver.tolerances.cost N
  timeout : o.reason = .timeout → N < most ∧
    work.solver.tolerances.gradient ≤ o.gradientNorm ∧
    ¬ plan.SettledAt solver p work clock work.solver.tolerances.cost N
  ended : o.reason ≠ .notTerminated
  /-- No earlier iterate has satisfied one of the tests. -/
  earlier : ∀ k < N, ∃ c norm, plan.checkpoint solver p work clock k = some c ∧ c.last.HasNorm norm ∧
    work.solver.tolerances.gradient ≤ norm ∧
    ¬ plan.SettledAt solver p work clock work.solver.tolerances.cost k

variable {p : Problem ℝ σ} {plan : Plan ℝ} {work : Workspace (RankOne ℝ) σ} {clock : Clock ℝ}

/-- A run has gone on from every check before the last one, so that neither test was satisfied there. -/
theorem goesOn_of_lt {k N : ℕ} (before : k < N) {c' : Checkpoint ℝ (RankOne ℝ) σ}
    (reached : plan.checkpoint solver p work clock N = some c') :
    ∃ c norm, plan.checkpoint solver p work clock k = some c ∧ c.last.HasNorm norm ∧
      work.solver.tolerances.gradient ≤ norm ∧
      ¬ plan.SettledAt solver p work clock work.solver.tolerances.cost k := by
  obtain ⟨next, after⟩ := Plan.exists_checkpoint_of_le before reached
  obtain ⟨c, r, here, checked, -⟩ := Plan.checkpoint_succ after
  obtain ⟨own, asked, decided⟩ := checked.decided
  obtain ⟨⟨norm, hasNorm⟩, -, -, goesOn⟩ := decision_of_checkpoint here asked
  have silent : own.terminated = false := by
    rcases decided with ⟨stops, same⟩ | ⟨silent, -⟩
    · rw [← same] at stops
      cases stops
    · exact silent
  obtain ⟨steep, unsettled⟩ := goesOn.mp silent
  rw [Plan.flatAt_iff here hasNorm, not_lt] at steep
  exact ⟨c, norm, here, hasNorm, steep, unsettled⟩

/-- **A run stops for the reason it gives.** For any problem, matrix, search and tolerances, and whatever the
clock shows: a result tells of the target precision exactly if the norm it reports is below the tolerance, and of
a cost without change exactly if the norm is not and the last step has changed the cost by less than the
tolerance, so never before the first step. The limits on steps and time are given as reasons only where neither
test is satisfied, and no iterate before the last one has satisfied a test. -/
theorem run_stops_for_its_reason {options : RunOptions ℝ} (planned : Plan.ofOptions options = .ok plan)
    {o : Outcome ℝ} {w : Workspace (RankOne ℝ) σ} {clock' : Clock ℝ}
    (returned : plan.execute solver p work clock = (.ok o, w, clock')) :
    ∃ N, StopsFor plan p work clock ⌊options.maxSteps⌋₊ N o := by
  obtain ⟨N, c, r, reached, checked, ended, reported⟩ := Plan.execute_ok returned
  obtain ⟨target, change, spent, late⟩ := reason_of_checkpoint reached checked ended
  obtain ⟨gradient, known, computed⟩ := reported.gradient
  obtain ⟨answered, l, l', known', answer⟩ := (kept_of_checkpoint reached).gradient
  obtain rfl := Option.some.inj (known.symm.trans known')
  rw [Plan.flatAt_iff reached ⟨gradient, _, known, computed⟩] at target change spent late
  rw [not_lt] at change spent late
  rw [(ofOptions_maxSteps planned).2] at spent late
  refine ⟨N, {
    steps := by rw [reported.steps, (checked_ok checked).2.1, Plan.steps_of_checkpoint reached]
    last := ⟨c, reached, reported.point, reported.cost⟩
    gradient := ⟨gradient, l, l', by rw [reported.point]; exact answer, computed⟩
    targetPrecision := target
    noChange := ?_
    maxIterations := spent
    timeout := late
    ended := Reason.terminated_iff.mp ended
    earlier := fun k before => goesOn_of_lt before reached }⟩
  rw [change, reported.cost]
  refine and_congr_right fun _ => ?_
  constructor
  · rintro ⟨j, before, c', last, earlier, reached', small⟩
    obtain rfl := Option.some.inj (reached.symm.trans reached')
    exact ⟨j, before, last, earlier, small⟩
  · rintro ⟨j, before, last, earlier, small⟩
    exact ⟨j, before, c, last, earlier, reached, small⟩

end Run

/-- For instance, a run on half the square of the length that may take two steps. -/
theorem halfSquare_stops_for_its_reason :
    ∃ o w clock' N, (Plan.short false).execute solver Quadratic.halfSquare.problem shortWork .still =
        (.ok o, w, clock') ∧
      StopsFor (Plan.short false) Quadratic.halfSquare.problem shortWork .still ⌊(2 : ℝ)⌋₊ N o := by
  obtain ⟨o, w, clock', returned⟩ := short_returns false
  obtain ⟨N, stops⟩ := run_stops_for_its_reason (Plan.short_planned false) returned
  exact ⟨o, w, clock', N, returned, stops⟩

end QuasiNewton.RankOne
