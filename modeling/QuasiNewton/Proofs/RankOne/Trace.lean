import QuasiNewton.Proofs.LineSearch.Descent
import QuasiNewton.Proofs.Objective.Analytic
import QuasiNewton.Proofs.RankOne.Step
import QuasiNewton.Proofs.Run.Points

/-!
# The trace of a run

What a run of the rank-one solver on a steady problem knows at its checks. The iteration state always
holds the current point with its own cost and its own gradient, and what was current at the check before.
`RankOne.Tracks` says so for one check, `RankOne.Follows` for two checks in a row; the first check
satisfies the one (`tracks_zero`) and each step keeps it and satisfies the other (`tracks_succ`).
-/

set_option autoImplicit false

namespace QuasiNewton.RankOne

open Attempt
open QuasiNewton.Decimal (NumberText)

variable {σ : Type}

/-- At the check after `k` steps the iteration state tells the truth about the current point. -/
structure Tracks (plan : Plan ℝ) (p : Problem ℝ σ) (f : Family) (k : ℕ)
    (c : Checkpoint ℝ (RankOne ℝ) σ) : Prop where
  steps : c.run.state.steps = k
  /-- The iterate that was handed out last is the current one. -/
  current : c.last = ⟨c.run.state.point, c.last.cost, c.run.state.gradient?⟩
  cost : c.run.state.cost? = some c.last.cost
  costAt : p.CostAt c.run.state.point c.last.cost
  gradient : ∃ g, c.run.state.gradient? = some g ∧ p.GradientAt f c.run.state.point g
  held : plan.family.Holds c.run.state.point
  family : c.run.work.ledger.family? = some f

/-- Two checks in a row: the first one is remembered, and the cost does not rise. -/
structure Follows (plan : Plan ℝ) (m : Method ℝ) (c c' : Checkpoint ℝ (RankOne ℝ) σ) : Prop where
  previous : c'.run.state.previous =
    ⟨some c.run.state.point, c.run.state.cost?, c.run.state.gradient?⟩
  le : c'.last.cost ≤ c.last.cost
  lt : m.Strict → c'.last.cost < c.last.cost
  history : plan.history = true → c'.run.history = c.run.history.push c'.run.state.point

variable {p : Problem ℝ σ} {plan : Plan ℝ} {work : Workspace (RankOne ℝ) σ} {clock : Clock ℝ}

section Run

variable [NumberText ℝ]

/-- What a run keeps track of at all of its checks. -/
structure Traced (plan : Plan ℝ) (p : Problem ℝ σ) (work : Workspace (RankOne ℝ) σ)
    (clock : Clock ℝ) (f : Family) : Prop where
  family : ∀ g ∈ work.ledger.family?, f = g
  tracks : ∀ k c, plan.checkpoint solver p work clock k = some c → Tracks plan p f k c
  start : ∀ c, plan.checkpoint solver p work clock 0 = some c →
    c.run.state.point = plan.start ∧ c.run.state.previous = {} ∧
      (plan.history = true → c.run.history = #[c.run.state.point])
  /-- Each check follows the one before. -/
  follows : ∀ k c c', plan.checkpoint solver p work clock k = some c →
    plan.checkpoint solver p work clock (k + 1) = some c' →
    Follows plan work.solver.search.method c c'

/-- What a run returns: the current point of one of its checks with the cost and the norm of the
gradient there, a cost that is not above that of the start point, and the points of all checks. -/
structure Truthful (plan : Plan ℝ) (p : Problem ℝ σ) (work : Workspace (RankOne ℝ) σ)
    (clock : Clock ℝ) (f : Family) (o : Outcome ℝ) : Prop where
  point : ∃ k c, plan.checkpoint solver p work clock k = some c ∧ o.steps = k ∧
    o.point = c.run.state.point
  cost : p.CostAt o.point o.cost
  gradient : ∃ g, p.GradientAt f o.point g ∧ plan.family.norm g = .ok o.gradientNorm
  lower : ∃ cost, p.CostAt plan.start cost ∧ o.cost ≤ cost
  size : plan.history = true → (o.history.size : ℤ) = o.steps + 1
  history : plan.history = true → ∀ (k : ℕ) c, k ≤ o.steps →
    plan.checkpoint solver p work clock k = some c → o.history[k]? = some c.run.state.point
  last : plan.history = true → o.history.back? = some o.point

theorem tracks_zero (steady : p.Steady) (started : plan.family.Holds plan.start)
    {c : Checkpoint ℝ (RankOne ℝ) σ} (h : plan.Prepared solver p work c.last c.run) :
    ∃ f, (∀ g ∈ work.ledger.family?, f = g) ∧ Tracks plan p f 0 c ∧
      c.run.state.point = plan.start ∧ c.run.state.previous = {} ∧ c.run.work.solver = work.solver ∧
      (plan.history = true → c.run.history = #[c.run.state.point]) := by
  obtain ⟨w, w', same, init, same'⟩ := h.init
  obtain ⟨l, gradient, hcost, hgradient, point, known, sameSolver, -⟩ := init_ok init
  obtain ⟨f, family, own, costAt⟩ := (steady.cost_ensures _ _).of_ok hcost
  obtain ⟨f', family', own', gradientAt⟩ := (steady.gradient_ensures _ _).of_ok hgradient
  obtain rfl : f' = f := own' f (by simp [family])
  have start : c.run.state.point = plan.start := by rw [h.state]; exact point
  refine ⟨f', fun g hg => own g (same.ledger ▸ hg), ⟨by rw [h.state]; rfl, by rw [h.state]; rfl,
    by rw [h.state]; rfl, start ▸ costAt, ⟨gradient, by rw [h.state]; exact known, start ▸ gradientAt⟩,
    start ▸ started, by rw [same'.ledger, family']⟩, start, by rw [h.state]; rfl,
    same'.solver.trans (sameSolver.trans same.solver), fun on => ?_⟩
  obtain ⟨copy, copied, kept⟩ := h.kept.on on
  rw [point, started.copy_eq] at copied
  rw [kept, start, Except.ok.inj copied]
  rfl

/-- A step keeps track of the current point, does not raise its cost and remembers the one before. -/
theorem tracks_succ (steady : p.Steady) {f : Family} {k : ℕ} {c c' : Checkpoint ℝ (RankOne ℝ) σ}
    {r : RunState ℝ (RankOne ℝ) σ} {left : ℕ} (before : Tracks plan p f k c)
    (admissible : c.run.work.solver.search.method.Admissible)
    (checked : plan.Checked solver left c.run .notTerminated r)
    (advanced : plan.Advanced solver p r c'.last c'.run) :
    Tracks plan p f (k + 1) c' ∧ Follows plan c.run.work.solver.search.method c c' ∧
      c'.run.work.solver.search = c.run.work.solver.search := by
  obtain ⟨sameWork, sameState, sameHistory⟩ := checked_ok checked
  obtain ⟨w, stepped, same⟩ := advanced.step
  obtain ⟨g, known, -⟩ := before.gradient
  rw [sameState, sameWork] at stepped
  obtain ⟨t⟩ := step_ok known before.cost stepped
  have own : t.family = plan.family := before.held.ofTensor_ok t.family_eq
  -- the search keeps the family of the ledger and answers the cost of the point found
  obtain ⟨family, -, ⟨point, hpoint, costAt⟩, le, lt⟩ :=
    (Method.search_ensures (steady.line_answers f t.family c.run.state.point t.direction) admissible
      t.descent before.family).of_ok t.search_eq
  obtain rfl : point = c'.last.point := Except.ok.inj (hpoint.symm.trans t.point_eq)
  obtain ⟨f', family', own', gradientAt⟩ := (steady.gradient_ensures _ _).of_ok t.asked
  obtain rfl : f' = f := own' f (by simp [family])
  have state := advanced.state
  rw [sameState] at state
  have held : plan.family.Holds c'.run.state.point := by
    rw [state]
    exact before.held.scaledAdd_ok (own ▸ t.point_eq)
  refine ⟨⟨?_, by rw [state]; rfl, by rw [state]; rfl, ?_, ⟨t.gradient, ?_, ?_⟩, held, ?_⟩,
    ⟨by rw [state]; rfl, t.cost_eq ▸ le, fun strict => t.cost_eq ▸ lt strict, fun on => ?_⟩, ?_⟩
  · rw [state]
    simp [IterState.advance, before.steps]
  · rw [state, t.cost_eq]
    exact costAt
  · rw [state]
    exact t.gradient_eq
  · rw [state]
    exact gradientAt
  · rw [same.ledger, family']
  · obtain ⟨copy, copied, kept⟩ := advanced.kept.on on
    have point : c'.last.point = c'.run.state.point := by rw [state]; rfl
    rw [point, held.copy_eq] at copied
    rw [kept, sameHistory, Except.ok.inj copied]
  · rw [same.solver, t.solver_eq, (apply_search _ _).1]

/-- A run on a steady problem is traced. The induction is on the steps, with the search of the solver
kept as it is. -/
theorem traced_of_steady (steady : p.Steady) (started : plan.family.Holds plan.start)
    (admissible : work.solver.search.method.Admissible) : ∃ f, Traced plan p work clock f := by
  by_cases reached : ∃ c, plan.checkpoint solver p work clock 0 = some c
  case neg =>
    -- without a first check there is none at all
    have none (k : ℕ) (c : Checkpoint ℝ (RankOne ℝ) σ) :
        plan.checkpoint solver p work clock k ≠ some c :=
      fun hc => reached (Plan.exists_checkpoint_of_le (Nat.zero_le k) hc)
    exact ⟨work.ledger.family?.getD .lenient, fun g hg => by simp [Option.mem_def.mp hg],
      fun k c hc => absurd hc (none k c), fun c hc => absurd hc (none 0 c),
      fun k c _ hc => absurd hc (none k c)⟩
  case pos =>
    obtain ⟨first, reached⟩ := reached
    obtain ⟨f, own, base, start, previous, sameSolver, history⟩ :=
      tracks_zero steady started (Plan.checkpoint_zero reached)
    have kept (k : ℕ) : ∀ c, plan.checkpoint solver p work clock k = some c →
        Tracks plan p f k c ∧ c.run.work.solver.search = work.solver.search := by
      induction k with
      | zero =>
        intro c hc
        obtain rfl := Option.some.inj (reached.symm.trans hc)
        exact ⟨base, by rw [sameSolver]⟩
      | succ k ih =>
        intro c' hc'
        obtain ⟨c, r, hc, checked, advanced⟩ := Plan.checkpoint_succ hc'
        obtain ⟨before, search⟩ := ih c hc
        obtain ⟨after, -, same⟩ := tracks_succ steady before (search ▸ admissible) checked advanced
        exact ⟨after, same.trans search⟩
    refine ⟨f, own, fun k c hc => (kept k c hc).1, fun c hc => ?_, fun k c c' hc hc' => ?_⟩
    · obtain rfl := Option.some.inj (reached.symm.trans hc)
      exact ⟨start, previous, history⟩
    · obtain ⟨c₀, r, hc₀, checked, advanced⟩ := Plan.checkpoint_succ hc'
      obtain rfl := Option.some.inj (hc.symm.trans hc₀)
      obtain ⟨before, search⟩ := kept k c hc
      exact search ▸ (tracks_succ steady before (search ▸ admissible) checked advanced).2.1

namespace Traced

variable {f : Family} (h : Traced plan p work clock f)

include h

/-- The cost never rises between two checks, and with most searches it falls. -/
theorem cost_le {j k : ℕ} (le : j ≤ k) {c c' : Checkpoint ℝ (RankOne ℝ) σ}
    (hc : plan.checkpoint solver p work clock j = some c)
    (hc' : plan.checkpoint solver p work clock k = some c') :
    c'.last.cost ≤ c.last.cost ∧
      (j < k → work.solver.search.method.Strict → c'.last.cost < c.last.cost) := by
  induction le generalizing c' with
  | refl =>
    obtain rfl := Option.some.inj (hc.symm.trans hc')
    exact ⟨le_rfl, fun lt => absurd lt (lt_irrefl j)⟩
  | step le ih =>
    obtain ⟨c₁, _, hc₁, -⟩ := Plan.checkpoint_succ hc'
    have step := h.follows _ c₁ c' hc₁ hc'
    have earlier := (ih hc₁).1
    exact ⟨step.le.trans earlier, fun _ strict => (step.lt strict).trans_le earlier⟩

theorem history_eq (on : plan.history = true) {k : ℕ} {c : Checkpoint ℝ (RankOne ℝ) σ}
    (hc : plan.checkpoint solver p work clock k = some c) :
    c.run.history.size = k + 1 ∧ ∀ j c', j ≤ k → plan.checkpoint solver p work clock j = some c' →
      c.run.history[j]? = some c'.run.state.point := by
  induction k generalizing c with
  | zero =>
    obtain ⟨-, -, first⟩ := h.start c hc
    refine ⟨by simp [first on], fun j c' le hc' => ?_⟩
    obtain rfl := Nat.le_zero.mp le
    obtain rfl := Option.some.inj (hc.symm.trans hc')
    simp [first on]
  | succ k ih =>
    obtain ⟨c₁, _, hc₁, -⟩ := Plan.checkpoint_succ hc
    obtain ⟨size, earlier⟩ := ih hc₁
    have pushed := (h.follows k c₁ c hc₁ hc).history on
    refine ⟨by simp [pushed, size], fun j c' le hc' => ?_⟩
    rcases Nat.lt_or_eq_of_le le with lt | rfl
    · rw [pushed, Array.getElem?_push_lt (by omega), ← earlier j c' (by omega) hc']
      exact (Array.getElem?_eq_getElem _).symm
    · obtain rfl := Option.some.inj (hc.symm.trans hc')
      rw [pushed, ← size, Array.getElem?_push_size]

theorem truthful {o : Outcome ℝ} {w : Workspace (RankOne ℝ) σ} {clock' : Clock ℝ}
    (returned : plan.execute solver p work clock = (.ok o, w, clock')) :
    Truthful plan p work clock f o := by
  obtain ⟨k, c, r, hc, checked, -, reported⟩ := Plan.execute_ok returned
  obtain ⟨-, sameState, sameHistory⟩ := checked_ok checked
  obtain ⟨first, hfirst⟩ := Plan.exists_checkpoint_of_le (Nat.zero_le k) hc
  have tracked := h.tracks k c hc
  have point : o.point = c.run.state.point := by rw [reported.point, tracked.current]
  have steps : o.steps = k := by rw [reported.steps, sameState, tracked.steps]
  refine ⟨⟨k, c, hc, steps, point⟩, ?_, ?_, ?_, fun on => ?_, fun on j c' le hc' => ?_, fun on => ?_⟩
  · rw [point, reported.cost]
    exact tracked.costAt
  · obtain ⟨g, known, gradientAt⟩ := tracked.gradient
    obtain ⟨g', known', norm⟩ := reported.gradient
    rw [tracked.current, known] at known'
    obtain rfl := Option.some.inj known'
    exact ⟨g, point ▸ gradientAt, norm⟩
  · refine ⟨first.last.cost, (h.start first hfirst).1 ▸ (h.tracks 0 first hfirst).costAt, ?_⟩
    rw [reported.cost]
    exact (h.cost_le (Nat.zero_le k) hfirst hc).1
  · rw [reported.history, sameHistory, (h.history_eq on hc).1, steps]
    rfl
  · rw [reported.history, sameHistory]
    exact (h.history_eq on hc).2 j c' (by omega) hc'
  · obtain ⟨size, points⟩ := h.history_eq on hc
    rw [reported.history, sameHistory, point, Array.back?, size]
    exact points k c le_rfl hc

end Traced

/-- **At every check of a run the current cost, gradient and previous iterate are the true ones.** On a
steady problem, with any search that may make a trial and from any workspace: the costs do not rise, with
backtracking and with the strong Wolfe conditions they fall, so that no point comes twice, and a result
tells the truth about the last point. -/
theorem run_is_truthful (steady : p.Steady) {options : RunOptions ℝ}
    (planned : Plan.ofOptions options = .ok plan)
    (admissible : work.solver.search.method.Admissible) (clock : Clock ℝ) :
    ∃ f, Traced plan p work clock f ∧
      (work.solver.search.method.Strict → ∀ j k c c', j < k →
        plan.checkpoint solver p work clock j = some c →
        plan.checkpoint solver p work clock k = some c' → c'.run.state.point ≠ c.run.state.point) ∧
      ∀ o w clock', plan.execute solver p work clock = (.ok o, w, clock') →
        Truthful plan p work clock f o := by
  obtain ⟨f, h⟩ : ∃ f, Traced plan p work clock f :=
    traced_of_steady steady (Plan.start_held planned) admissible
  refine ⟨f, h, fun strict j k c c' lt hc hc' same => ?_, fun o w clock' returned => h.truthful returned⟩
  have falls := (h.cost_le lt.le hc hc').2 lt strict
  -- one point has one cost
  have costAt := (h.tracks k c' hc').costAt
  rw [same] at costAt
  have costs : c'.last.cost = c.last.cost :=
    Except.ok.inj ((costAt work.ledger.state).symm.trans ((h.tracks j c hc).costAt work.ledger.state))
  exact absurd costs falls.ne

end Run

/-- What a short run with backtracking works on in the beginning. -/
noncomputable def backtrackingWork : Workspace (RankOne ℝ) Unit :=
  freshWork .lenient (.ofMatrix .lenient (1 : Matrix (Fin 2) (Fin 2) ℝ)) (.backtracking .usual) ()

/-- For instance, the points of a short run on half the square of the length are distinct, and its
result is truthful. -/
theorem halfSquare_is_truthful :
    ∃ f, Traced (Plan.short true) Quadratic.halfSquare.problem backtrackingWork .still f ∧
      (∀ j k c c', j < k →
        (Plan.short true).checkpoint solver Quadratic.halfSquare.problem backtrackingWork .still j =
          some c →
        (Plan.short true).checkpoint solver Quadratic.halfSquare.problem backtrackingWork .still k =
          some c' →
        c'.run.state.point ≠ c.run.state.point) ∧
      ∀ o w clock', (Plan.short true).execute solver Quadratic.halfSquare.problem backtrackingWork
        .still = (.ok o, w, clock') →
          Truthful (Plan.short true) Quadratic.halfSquare.problem backtrackingWork .still f o := by
  have admissible : backtrackingWork.solver.search.method.Admissible := Backtracking.usual_admissible
  obtain ⟨f, traced, distinct, truthful⟩ := run_is_truthful
    (Quadratic.problem_steady Quadratic.halfSquare) (Plan.short_planned true) admissible .still
  exact ⟨f, traced, distinct trivial, truthful⟩

end QuasiNewton.RankOne
