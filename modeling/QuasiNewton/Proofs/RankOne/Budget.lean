import QuasiNewton.Proofs.LineSearch.Budget
import QuasiNewton.Proofs.RankOne.Stopping

/-!
# The evaluations of a run

On a problem with a gradient of its own the counters of a run follow from its steps. The first iterate costs one
evaluation of the cost and one of the gradient. A step costs what its search spends, and one gradient at its end;
nothing is evaluated again at its start, since the cost there is finite and the gradient is known at every check
(`accounted_of_checkpoint`). So the counters of a run that returns lie between bounds that only the number of steps
and the limits of the search enter (`run_keeps_budget`), in every number system in which zero is not less than
itself.
-/

set_option autoImplicit false

namespace QuasiNewton

/-- The numbers of evaluations that a method permits in a run of a number of steps. -/
def Method.Budget {α : Type} (steps costs gradients : Nat) : Method α → Prop
  | backtracking s => gradients = steps + 1 ∧ steps + 1 ≤ costs ∧ costs ≤ 1 + steps * s.trials
  | wolfe s => steps + 1 ≤ costs ∧ costs ≤ 1 + steps * (s.trials + s.halvings) ∧ steps + 1 ≤ gradients ∧
      gradients ≤ steps + costs
  | secant s => costs = steps + 1 ∧ (1 ≤ s.trials → 1 + 2 * steps ≤ gradients) ∧
      gradients ≤ 1 + steps * (s.trials + 1)

/-- What one more search spends, and a gradient at its end, is in the budget of one more step. -/
theorem Method.Budget.succ {α : Type} {m : Method α} {steps costs gradients trials priced steep : Nat}
    (h : m.Budget steps costs gradients) (spent : m.Spends trials priced steep) :
    m.Budget (steps + 1) (costs + priced) (gradients + steep + 1) := by
  cases m with
  | backtracking s =>
    obtain ⟨exactly, least, most⟩ := h
    obtain ⟨rfl, rfl, some, within⟩ := spent
    refine ⟨by omega, by omega, ?_⟩
    rw [Nat.succ_mul]
    omega
  | wolfe s =>
    obtain ⟨least, most, least', most'⟩ := h
    obtain ⟨rfl, few, some, within⟩ := spent
    refine ⟨by omega, ?_, by omega, by omega⟩
    rw [Nat.succ_mul]
    omega
  | secant s =>
    obtain ⟨exactly, least, most⟩ := h
    obtain ⟨rfl, rfl, some, within⟩ := spent
    refine ⟨by omega, fun may => ?_, ?_⟩
    · have before := least may
      have once := some may
      omega
    · rw [Nat.succ_mul]
      omega

theorem Method.budget_zero {α : Type} (m : Method α) : m.Budget 0 1 1 := by
  cases m <;> simp [Budget]

namespace RankOne

open Attempt
open QuasiNewton.Decimal (NumberText)

variable {α σ : Type} [Scalar α] {p : Problem α σ}

/-- Nothing is evaluated at the start of the next search: its gradient and its cost are known. -/
def StartsKnown (p : Problem α σ) (c : Checkpoint α (RankOne α) σ) : Prop :=
  ∃ gradient, c.run.state.gradient? = some gradient ∧ ∀ (direction : Tensor α) (l : Ledger σ),
    let s := c.run.work.solver.search.configure
      ⟨some c.run.state.point, some gradient, c.run.state.cost?, some direction⟩
    (s.startGradient p c.run.state.point).outcome l = (.ok gradient, l) ∧
      (s.startCost p c.run.state.point).outcome l = (.ok c.last.cost, l)

/-- What a step has spent is told by the number of trials of its search. -/
def Accounted (p : Problem α σ) (c c' : Checkpoint α (RankOne α) σ) : Prop :=
  ∃ a priced steep, nextSearch p c = some (.ok a) ∧
    c.run.work.solver.search.method.Spends a.trials priced steep ∧
    c'.run.work.ledger.costCalls = c.run.work.ledger.costCalls + priced ∧
    c'.run.work.ledger.gradientCalls = c.run.work.ledger.gradientCalls + steep + 1

variable [NumberText α] {plan : Plan α} {work : Workspace (RankOne α) σ} {clock : Clock α}

theorem startsKnown_of_checkpoint {k : Nat} {c : Checkpoint α (RankOne α) σ}
    (reached : plan.checkpoint solver p work clock k = some c)
    (finite : Scalar.isFinite c.last.cost = true) : StartsKnown p c := by
  obtain ⟨-, cost, gradient⟩ := Plan.current_of_checkpoint reached
  obtain ⟨g, -, -, known, -⟩ := (kept_of_checkpoint reached).gradient
  refine ⟨g, gradient.trans known, fun direction l => ⟨rfl, ?_⟩⟩
  simp only [LineSearch.startCost, LineSearch.configure, cost, finite, if_true, outcome_pure]

omit [NumberText α] in
/-- A search from a known start has spent what its method has spent, and hands out a finite cost. -/
theorem search_spends (analytic : p.gradient?.isSome = true) (irrefl : ¬ (0 : α) < 0)
    {c : Checkpoint α (RankOne α) σ} (known : c.run.state.cost? = some c.last.cost)
    (finite : Scalar.isFinite c.last.cost = true) {g : Tensor α} {a : Accepted α} {l l' : Ledger σ}
    (found : (c.run.work.solver.searchOf p c.run.state g).outcome l = (.ok a, l')) :
    Scalar.isFinite a.cost = true ∧ ∃ priced steep, l'.costCalls = l.costCalls + priced ∧
      l'.gradientCalls = l.gradientCalls + steep ∧
      c.run.work.solver.search.method.Spends a.trials priced steep := by
  simp only [searchOf, bind_ok, ofOperands_ok] at found
  obtain ⟨direction, _, ⟨-, rfl⟩, ran⟩ := found
  obtain ⟨family, gradient, t, cost, u, slope, -, first, second, -, -, searched, -⟩ :=
    LineSearch.run_parts rfl rfl ran
  simp only [LineSearch.startGradient, LineSearch.configure, pure_ok] at first
  obtain ⟨rfl, rfl⟩ := first
  simp only [LineSearch.startCost, LineSearch.configure, known, finite, if_true, pure_ok] at second
  obtain ⟨rfl, rfl⟩ := second
  exact (Method.search_spends _ irrefl (Problem.line_metered analytic family _ direction) finite).of_ok searched

/-- What is true at every check of a run: the cost is finite, and the counters are in the budget. -/
structure WithinBudget (m : Method α) (k : Nat) (c : Checkpoint α (RankOne α) σ) : Prop where
  finite : Scalar.isFinite c.last.cost = true
  search : c.run.work.solver.search.method = m
  budget : m.Budget k c.run.work.ledger.costCalls c.run.work.ledger.gradientCalls

/-- A step that starts with a finite cost is accounted for, and ends with a finite cost. -/
theorem accounted_of_advanced (analytic : p.gradient?.isSome = true) (irrefl : ¬ (0 : α) < 0) {left : Nat}
    {c c' : Checkpoint α (RankOne α) σ} {r : RunState α (RankOne α) σ}
    (known : c.run.state.cost? = some c.last.cost) (finite : Scalar.isFinite c.last.cost = true)
    (checked : plan.Checked solver left c.run .notTerminated r)
    (advanced : plan.Advanced solver p r c'.last c'.run) :
    Accounted p c c' ∧ Scalar.isFinite c'.last.cost = true := by
  obtain ⟨sameWork, sameState, -⟩ := checked_ok checked
  obtain ⟨w, stepped, after⟩ := advanced.step
  rw [sameState, sameWork] at stepped
  obtain ⟨g, a, searched, gradient, -, current, found, asked, next, -⟩ := step_parts stepped
  obtain ⟨good, priced, steep, costs, gradients, spent⟩ :=
    search_spends analytic irrefl known finite found
  obtain ⟨costs', gradients'⟩ := (Problem.evaluateGradient_counts analytic _ _).of_ok asked
  refine ⟨⟨a, priced, steep, ?_, spent, ?_, ?_⟩, ?_⟩
  · rw [nextSearch, current, Option.map_some, found]
  · rw [after.ledger, costs', costs]
  · rw [after.ledger, gradients', gradients]
  · rw [next]
    exact good

theorem withinBudget_zero (analytic : p.gradient?.isSome = true) {family? : Option Family} {s : σ}
    (fresh : work.ledger = .fresh family? s) {c : Checkpoint α (RankOne α) σ}
    (reached : plan.checkpoint solver p work clock 0 = some c) :
    WithinBudget work.solver.search.method 0 c := by
  obtain ⟨w, w', before, started, after⟩ := (Plan.checkpoint_zero reached).init
  obtain ⟨l, gradient, hcost, hgradient, -⟩ := init_ok started
  obtain ⟨costs, gradients, finite⟩ := (p.evaluateCost_counts _ _).of_ok hcost
  obtain ⟨costs', gradients'⟩ := (Problem.evaluateGradient_counts analytic _ _).of_ok hgradient
  rw [before.ledger, fresh] at costs gradients
  refine ⟨finite, by rw [(kept_of_checkpoint reached).search], ?_⟩
  rw [after.ledger, costs', gradients', costs, gradients]
  exact Method.budget_zero _

/-- By induction on the steps: every check is within the budget. -/
theorem withinBudget_of_checkpoint (analytic : p.gradient?.isSome = true) (irrefl : ¬ (0 : α) < 0)
    {family? : Option Family} {s : σ} (fresh : work.ledger = .fresh family? s) {k : Nat}
    {c : Checkpoint α (RankOne α) σ} (reached : plan.checkpoint solver p work clock k = some c) :
    WithinBudget work.solver.search.method k c := by
  induction k generalizing c with
  | zero => exact withinBudget_zero analytic fresh reached
  | succ k ih =>
    obtain ⟨c₀, r, earlier, checked, advanced⟩ := Plan.checkpoint_succ reached
    have within := ih earlier
    obtain ⟨-, known, -⟩ := Plan.current_of_checkpoint earlier
    obtain ⟨⟨a, priced, steep, -, spent, costs, gradients⟩, finite⟩ :=
      accounted_of_advanced analytic irrefl known within.finite checked advanced
    refine ⟨finite, by rw [(kept_of_checkpoint reached).search], ?_⟩
    rw [costs, gradients]
    exact within.budget.succ (within.search ▸ spent)

/-- **The evaluation budget of a run.** On a problem with a gradient of its own, with nothing evaluated before:
no step evaluates the cost or the gradient at its start again, every step spends what the trials of its search tell,
and one gradient at its end, and a run that returns has kept the budget of its method for the number of its
steps. -/
theorem run_keeps_budget (analytic : p.gradient?.isSome = true) (irrefl : ¬ (0 : α) < 0) (plan : Plan α)
    (work : Workspace (RankOne α) σ) {family? : Option Family} {s : σ}
    (fresh : work.ledger = .fresh family? s) (clock : Clock α) :
    (∀ k c, plan.checkpoint solver p work clock k = some c → StartsKnown p c ∧
      ∀ c', plan.checkpoint solver p work clock (k + 1) = some c' → Accounted p c c') ∧
    ∀ o w clock', plan.execute solver p work clock = (.ok o, w, clock') →
      ∃ N : Nat, o.steps = N ∧ work.solver.search.method.Budget N o.costCalls o.gradientCalls := by
  constructor
  · intro k c reached
    have within := withinBudget_of_checkpoint analytic irrefl fresh reached
    obtain ⟨-, known, -⟩ := Plan.current_of_checkpoint reached
    refine ⟨startsKnown_of_checkpoint reached within.finite, fun c' reached' => ?_⟩
    obtain ⟨c₀, r, earlier, checked, advanced⟩ := Plan.checkpoint_succ reached'
    obtain rfl := Option.some.inj (reached.symm.trans earlier)
    exact (accounted_of_advanced analytic irrefl known within.finite checked advanced).1
  · intro o w clock' returned
    obtain ⟨N, c, r, reached, checked, -, reported⟩ := Plan.execute_ok returned
    obtain ⟨sameWork, sameState, -⟩ := checked_ok checked
    have within := withinBudget_of_checkpoint analytic irrefl fresh reached
    refine ⟨N, by rw [reported.steps, sameState, Plan.steps_of_checkpoint reached], ?_⟩
    rw [reported.costCalls, reported.gradientCalls, sameWork]
    exact within.budget

/-- Numbers of double precision are such a number system, and so are the real numbers. -/
example : ¬ (0 : Float) < 0 := by decide

/-- For instance, a run with at most twenty slopes in each secant search, on half the square of the length. -/
theorem halfSquare_keeps_budget :
    ∃ o w clock', ∃ N : ℕ, (Plan.short false).execute solver Quadratic.halfSquare.problem shortWork .still =
        (.ok o, w, clock') ∧ o.steps = N ∧ o.costCalls = N + 1 ∧ 1 + 2 * N ≤ o.gradientCalls ∧
      o.gradientCalls ≤ 1 + N * 21 := by
  obtain ⟨o, w, clock', returned⟩ := short_returns false
  have analytic : (Quadratic.halfSquare.problem (σ := Unit)).gradient?.isSome = true := rfl
  have irrefl : ¬ (0 : ℝ) < 0 := lt_irrefl 0
  obtain ⟨-, returns⟩ := run_keeps_budget analytic irrefl (Plan.short false) shortWork rfl .still
  obtain ⟨N, steps, costs, least, most⟩ := returns o w clock' returned
  exact ⟨o, w, clock', N, returned, steps, costs, least (by norm_num [Secant.usual]), most⟩

end RankOne

end QuasiNewton
