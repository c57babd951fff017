import QuasiNewton.Binary64.Arithmetic
import QuasiNewton.Decimal.Text
import QuasiNewton.Proofs.Exact.Contraction
import QuasiNewton.Proofs.Objective.Steady
import QuasiNewton.Proofs.RankOne.Requests
import QuasiNewton.Proofs.RankOne.Termination
import QuasiNewton.Proofs.RankOne.Twins
import QuasiNewton.Proofs.Run.Limits
import QuasiNewton.Proofs.Run.Timeless

/-!
# Rank-one runs with different limits

Two runs with a solver made alike, on one steady problem and without a time limit, that differ in the
permitted number of steps: the run with the smaller limit is a beginning of the other one, also where that one
fails (`limits_give_prefixes`). It does not matter what else differs: the states of the problem, the journals
and the clocks.

That the checks of such runs coincide is true of any solver. Three facts about the rank-one solver are added
here: a run that is made again ends alike (`execute_again`), a run that is cut short after a step can report the
norm of its gradient (`norm_of_goesOn`), and a step that fails has not touched the solver.

Before the first step only the solver has taken that norm, in the family of its matrix. A run from a strict array
with a lenient matrix has none of its own if the gradient is a lenient array, and then the run that may take no
step fails at its end (`FirstNormRefused`, `strict_start_refuses_norm`).
-/

set_option autoImplicit false

namespace QuasiNewton.RankOne

open Attempt Matrix Tensor
open QuasiNewton.Decimal (NumberText)

variable {α σ : Type} [Scalar α]

/-- What a run with a solver works on in the beginning: nothing has been evaluated yet. -/
def newWork (family? : Option Family) (r : RankOne α) (state : σ) (journal : Journal) :
    Workspace (RankOne α) σ := ⟨.fresh family? state, r, {}, journal⟩

variable [NumberText α] {p : Problem α σ} {plan : Plan α} {work : Workspace (RankOne α) σ}
  {clock : Clock α}

/-- **A run that is made again ends alike**, from whatever state of the problem and at whatever time. -/
theorem execute_again (steady : p.Steady) (unlimited : plan.maxTime? = none) {r : RankOne α} {n : Nat}
    (square : r.inverse.Square False n) (family? : Option Family) (s s' : σ) (journal journal' : Journal)
    (clock clock' : Clock α) :
    (plan.execute solver p (newWork family? r s' journal') clock').1 =
        (plan.execute solver p (newWork family? r s journal) clock).1 ∧
      (plan.execute solver p (newWork family? r s' journal') clock').2.1.solver =
        (plan.execute solver p (newWork family? r s journal) clock).2.1.solver := by
  have works : (newWork family? r s journal).Alike (Ledger.SameCounts fun _ _ => True) SameSquare
      (newWork family? r s' journal') := ⟨⟨rfl, rfl, rfl, trivial⟩, ⟨rfl, n, square⟩, rfl⟩
  obtain ⟨answers, solvers⟩ := execute_twin steady.twins plan works clock
  obtain ⟨again, workspaces⟩ := Plan.execute_timeless solver p unlimited
    (newWork family? r s' journal') clock clock'
  exact ⟨again.trans answers, (congrArg Workspace.solver workspaces).trans solvers⟩

/-- A check does not touch the solver. -/
theorem solver_of_verdict {startTime : α} {left : Nat} {reason : Reason}
    {r r' : RunState α (RankOne α) σ}
    (h : (plan.verdict solver startTime left).outcome r = (.ok reason, r')) :
    (∃ own, r.work.solver.stopReason r.state = .ok own) ∧ r'.work = r.work := by
  obtain ⟨own, asked, -⟩ := (Plan.verdict_ok h).decided
  obtain ⟨decided, same⟩ := terminate_ok asked
  exact ⟨⟨own, decided⟩, same.symm⟩

/-- A step starts from a gradient that has a norm in the family of the point, since there it has an inner product
with the direction. -/
theorem norm_of_step {state : IterState α} {next : Iterate α} {w w' : Workspace (RankOne α) σ}
    (stepped : (step p state).outcome w = (.ok next, w')) {family : Family} (holds : family.Holds state.point) :
    ∃ gradient norm, state.gradient? = some gradient ∧ family.norm gradient = .ok norm := by
  obtain ⟨before, found, searched, -, -, known, search, -⟩ := step_parts stepped
  simp only [searchOf, bind_ok, ofOperands_ok] at search
  obtain ⟨direction, _, ⟨along, rfl⟩, ran⟩ := search
  obtain ⟨own, gradient, _, _, _, slope, computes, first, -, product, -⟩ := LineSearch.run_parts rfl rfl ran
  obtain rfl := holds.ofTensor_ok computes
  obtain ⟨rfl, -⟩ : before = gradient ∧ _ := pure_ok.mp first
  have numbers : direction.entries.type ≠ .whole := by
    simp only [RankOne.direction, except_bind_ok] at along
    obtain ⟨product, -, scaled⟩ := along
    exact type_of_scale scaled
  obtain ⟨norm, computed⟩ := Family.norm_of_dot product numbers
  exact ⟨before, norm, known, computed⟩

/-- Where a run has taken one more step, its family has a norm for the gradient. -/
theorem norm_of_next {options : RunOptions α} (planned : Plan.ofOptions options = .ok plan) {M m : Nat}
    {c c' : Checkpoint α (RankOne α) σ} {t : RunState α (RankOne α) σ}
    (goesOn : (plan.limited M).GoesOn solver p work clock m c t)
    (next : (plan.limited M).checkpoint solver p work clock (m + 1) = some c') :
    ∃ gradient norm, c.last.gradient? = some gradient ∧ plan.family.norm gradient = .ok norm := by
  obtain ⟨reached, checked⟩ := goesOn
  cases m with
  | succ m =>
    obtain ⟨_, _, -, -, advanced⟩ := Plan.goesOn_of_checkpoint reached
    exact Plan.norm_of_advance advanced
  | zero =>
    have prepared := Plan.checkpoint_zero reached
    obtain ⟨w, w', -, started, -⟩ := prepared.init
    obtain ⟨_, _, -, -, point, -⟩ := init_ok started
    obtain ⟨-, sameState, -⟩ := checked_ok (Plan.verdict_ok checked)
    obtain ⟨_, stepped, -⟩ := (Plan.advance_ok (Plan.advance_of_goesOn ⟨reached, checked⟩ next)).step
    rw [sameState, prepared.state] at stepped
    have holds : plan.family.Holds (IterState.replace { point := (plan.limited M).start } c.last).point := by
      have start : c.last.point = plan.start := point
      rw [IterState.replace, start]
      exact Plan.start_held planned
    exact norm_of_step stepped holds

/-- Where a run goes on, its gradient is known, and after a step its family has a norm for it. In the beginning it
is the family of the matrix that has one, since the solver has compared it. -/
theorem norm_of_goesOn {m : Nat} {c : Checkpoint α (RankOne α) σ} {t : RunState α (RankOne α) σ}
    (goesOn : plan.GoesOn solver p work clock m c t) :
    ∃ gradient, c.last.gradient? = some gradient ∧ ((∃ norm, plan.family.norm gradient = .ok norm) ∨
      m = 0 ∧ ∃ norm, work.solver.family.norm gradient = .ok norm) := by
  obtain ⟨reached, checked⟩ := goesOn
  cases m with
  | succ m =>
    obtain ⟨_, _, -, -, advanced⟩ := Plan.goesOn_of_checkpoint reached
    obtain ⟨gradient, norm, known, computed⟩ := Plan.norm_of_advance advanced
    exact ⟨gradient, known, .inl ⟨norm, computed⟩⟩
  | zero =>
    have prepared := Plan.checkpoint_zero reached
    obtain ⟨w, w', before, started, after⟩ := prepared.init
    obtain ⟨_, gradient, -, -, -, known, kept, -⟩ := init_ok started
    obtain ⟨⟨own, decided⟩, -⟩ := solver_of_verdict checked
    have family : c.run.work.solver.family = work.solver.family := by
      rw [after.solver, kept, before.solver]
    have current : c.run.state.gradient? = some gradient := by
      rw [prepared.state]
      exact known
    simp only [stopReason, gradientNorm, current, family, except_bind_ok] at decided
    obtain ⟨norm, computed, -⟩ := decided
    exact ⟨gradient, known, .inr ⟨rfl, norm, computed⟩⟩

/-- The first norm is refused to a run: it starts from a strict array with a lenient matrix, and the gradient, which
the solver has compared, is no strict array of numbers. -/
structure FirstNormRefused (plan : Plan α) (r : RankOne α) (c : Checkpoint α (RankOne α) σ) (e : Fault α) :
    Prop where
  start : plan.family = .strict
  matrix : r.family = .lenient
  refused : ∃ gradient why, c.last.gradient? = some gradient ∧ Family.strict.norm gradient = .error why ∧
    e = .mismatch why

omit [NumberText α] in
/-- It is refused if only the family of the matrix has a norm for the gradient. -/
theorem FirstNormRefused.of_norm {r : RankOne α} {c : Checkpoint α (RankOne α) σ} {gradient : Tensor α}
    {why : Mismatch} {norm : α} (known : c.last.gradient? = some gradient)
    (refused : plan.family.norm gradient = .error why) (own : r.family.norm gradient = .ok norm) :
    FirstNormRefused plan r c (.mismatch why) := by
  have start : plan.family = .strict := by
    cases family : plan.family with
    | lenient =>
      -- the lenient family has a norm for every array
      rw [family] at refused
      cases refused
    | strict => rfl
  have matrix : r.family = .lenient := by
    cases family : r.family with
    | lenient => rfl
    | strict =>
      rw [family, ← start] at own
      cases refused.symm.trans own
  exact ⟨start, matrix, gradient, why, known, start ▸ refused, rfl⟩

/-- Where a run goes on, the run with a limit there is cut short or refused its first norm. In both cases it leaves
the solver as it is. -/
theorem cut_or_refused {m M : Nat} (fewer : m ≤ M) {c : Checkpoint α (RankOne α) σ}
    {t : RunState α (RankOne α) σ} (goesOn : (plan.limited M).GoesOn solver p work clock m c t) :
    ∃ answer w clock', (plan.limited m).execute solver p work clock = (answer, w, clock') ∧
      w.solver = t.work.solver ∧ ((∃ o, answer = .ok o ∧ Plan.Cut m c o) ∨
        m = 0 ∧ ∃ e, answer = .error e ∧ FirstNormRefused plan work.solver c e) := by
  obtain ⟨gradient, known, norms⟩ := norm_of_goesOn goesOn
  rcases computed : plan.family.norm gradient with why | norm
  · obtain ⟨w, clock', ended, kept⟩ := Plan.refused_of_goesOn fewer goesOn known computed
    obtain ⟨rfl, norm, own⟩ : m = 0 ∧ ∃ norm, work.solver.family.norm gradient = .ok norm := by
      refine norms.resolve_left fun normed => ?_
      obtain ⟨norm, normed⟩ := normed
      cases computed.symm.trans normed
    exact ⟨_, w, clock', ended, kept, .inr ⟨rfl, _, rfl, .of_norm known computed own⟩⟩
  · obtain ⟨o, w, clock', ended, cut, kept⟩ := Plan.cut_of_goesOn fewer goesOn ⟨gradient, norm, known, computed⟩
    exact ⟨_, w, clock', ended, kept, .inl ⟨o, rfl, cut⟩⟩

/-- At every check of a run the matrix of its solver is square. -/
theorem square_of_checkpoint (steady : p.Steady) {r : RankOne α} {n : Nat}
    (square : r.inverse.Square False n) {family? : Option Family} {s : σ} {journal : Journal} {k : Nat}
    {c : Checkpoint α (RankOne α) σ}
    (reached : plan.checkpoint solver p (newWork family? r s journal) clock k = some c) :
    ∃ n, c.run.work.solver.inverse.Square False n := by
  have plans : plan.Alike (.same plan.family) plan := ⟨rfl, rfl, rfl, rfl, rfl, rfl⟩
  have works : (newWork family? r s journal).Alike (Ledger.SameCounts fun _ _ => True) SameSquare
      (newWork family? r s journal) := ⟨⟨rfl, rfl, rfl, trivial⟩, ⟨rfl, n, square⟩, rfl⟩
  have checks := Plan.checkpoint_alike (Likeness.same_observed plan.family) plans
    (solver_twin steady.twins (Ledger.sameCounts_matching fun _ _ => True) plan.family) works clock k
  rw [reached] at checks
  cases checks with
  | some alike => exact alike.run.work.solver.2

/-- **Runs with different limits are beginnings of each other, also across failures.** Two runs of a solver
made alike on a steady problem, without a time limit, one with at most `M` steps and the other with at most
`m ≤ M`. If the long one returns after `N` steps, then with `N ≤ m` the short one returns the same; with
`m < N` it is cut short at the check of the long one after `m` steps, and its history is the first part of the
longer one. If the long one fails after `k` steps and before the next check, then with `k < m` the short one
fails with the same fault. With `m ≤ k` it is cut short, unless there are no steps and the run, which starts from a
strict array with a lenient matrix, has no norm for the gradient. If it is the step of the solver that fails, then
the solver is left as the run with exactly `k` steps leaves it. -/
theorem limits_give_prefixes (steady : p.Steady) {inverse : Tensor α} {search? : Option (LineSearch α)}
    {tolerances : Tolerances α} {r : RankOne α} (made : make inverse search? tolerances = .ok r)
    {options : RunOptions α} (planned : Plan.ofOptions options = .ok plan) (unlimited : plan.maxTime? = none)
    {m M : Nat} (fewer : m ≤ M) (family? : Option Family) (s s' : σ) (journal journal' : Journal)
    (clock clock' : Clock α) :
    let work := newWork family? r s journal
    let long := (plan.limited M).execute solver p work clock
    let short := (plan.limited m).execute solver p (newWork family? r s' journal') clock'
    (∀ o, long.1 = .ok o → ∃ N : Nat, o.steps = N ∧ (N ≤ m → short.1 = .ok o) ∧
      (m < N → ∃ c o', (plan.limited M).checkpoint solver p work clock m = some c ∧
        short.1 = .ok o' ∧ Plan.Cut m c o' ∧ o'.history.toList = o.history.toList.take (m + 1))) ∧
    (∀ k e, (plan.limited M).FailsAfter solver p work clock k e →
      long.1 = .error e ∧ (k < m → short.1 = .error e) ∧
      (m ≤ k → ∃ c, (plan.limited M).checkpoint solver p work clock m = some c ∧
        ((∃ o', short.1 = .ok o' ∧ Plan.Cut m c o') ∨
          k = 0 ∧ ∃ e', short.1 = .error e' ∧ FirstNormRefused plan r c e'))) ∧
    ∀ e, (plan.limited M).StepFails solver p work clock m e →
      long.2.1.solver.inverse = short.2.1.solver.inverse ∧
        long.2.1.solver.updates = short.2.1.solver.updates ∧
        long.2.1.solver.skips = short.2.1.solver.skips := by
  intro work long short
  obtain ⟨n, square⟩ := square_of_make made
  have unlimited' : (plan.limited m).maxTime? = none := unlimited
  obtain ⟨again, solvers⟩ :=
    execute_again steady unlimited' square family? s s' journal journal' clock clock'
  have cut {c c' : Checkpoint α (RankOne α) σ} {t : RunState α (RankOne α) σ}
      (goesOn : (plan.limited M).GoesOn solver p work clock m c t)
      (next : (plan.limited M).checkpoint solver p work clock (m + 1) = some c') :
      ∃ o', short.1 = .ok o' ∧ Plan.Cut m c o' := by
    obtain ⟨o', w, clock'', ended, cut, -⟩ :=
      Plan.cut_of_goesOn fewer goesOn (norm_of_next planned goesOn next)
    exact ⟨o', again.trans (congrArg Prod.fst ended), cut⟩
  have cutOrRefused {c : Checkpoint α (RankOne α) σ} {t : RunState α (RankOne α) σ}
      (goesOn : (plan.limited M).GoesOn solver p work clock m c t) :
      short.2.1.solver = t.work.solver ∧ ((∃ o', short.1 = .ok o' ∧ Plan.Cut m c o') ∨
        m = 0 ∧ ∃ e', short.1 = .error e' ∧ FirstNormRefused plan r c e') := by
    obtain ⟨answer, w, clock'', ended, kept, answered⟩ := cut_or_refused fewer goesOn
    have same : short.1 = answer := again.trans (congrArg Prod.fst ended)
    refine ⟨(solvers.trans (congrArg (fun result => result.2.1.solver) ended)).trans kept, ?_⟩
    rw [same]
    exact answered
  refine ⟨fun o returned => ?_, fun k e fails => ?_, fun e fails => ?_⟩
  · obtain ⟨N, steps, later, earlier⟩ := Plan.limited_of_return unlimited fewer
      (show (plan.limited M).execute solver p work clock = (.ok o, long.2.1, long.2.2) by rw [← returned])
    refine ⟨N, steps, fun within => again.trans (congrArg Prod.fst (later within)), fun before => ?_⟩
    obtain ⟨c, c', t, goesOn, next, history⟩ := earlier before
    obtain ⟨o', ended, short⟩ := cut goesOn next
    exact ⟨c, o', goesOn.1, ended, short, by rw [short.history, history]⟩
  · obtain ⟨failed, later, earlier⟩ := Plan.limited_of_failure fewer fails
    refine ⟨failed, fun before => again.trans (later before), fun within => ?_⟩
    obtain ⟨c, t, goesOn, goesFurther⟩ := earlier within
    refine ⟨c, goesOn.1, ?_⟩
    rcases within.eq_or_lt with rfl | before
    · exact (cutOrRefused goesOn).2
    · obtain ⟨c', next⟩ := goesFurther before
      exact .inl (cut goesOn next)
  · obtain ⟨c, t, w, goesOn, failed⟩ := fails
    obtain ⟨kept, -⟩ := cutOrRefused goesOn
    obtain ⟨-, sameWork⟩ := solver_of_verdict goesOn.2
    obtain ⟨n, held⟩ : ∃ n, t.work.solver.inverse.Square False n := by
      rw [sameWork]
      exact square_of_checkpoint steady square goesOn.1
    have untouched : w.solver = t.work.solver :=
      ((step_held held False.elim p t.state).of_error failed).1
    obtain ⟨w', clock'', ended, left⟩ := Plan.execute_of_failure goesOn.1 goesOn.2
      (Plan.advance_of_stepFails failed)
    have solver : long.2.1.solver = short.2.1.solver := by
      rw [kept, ← untouched, ← left.solver]
      exact congrArg (fun result => result.2.1.solver) ended
    simp only [solver, and_self]

/-- For instance, on half the square of the length a run that may take two steps takes some, and the run that
may take none is cut short. -/
theorem halfSquare_cut_short :
    let r : RankOne ℝ := shortWork.solver
    let long := ((Plan.short true).limited 2).execute solver (Quadratic.halfSquare.problem (σ := Unit))
      (newWork (some .lenient) r () { threshold := .info }) .still
    let short := ((Plan.short true).limited 0).execute solver (Quadratic.halfSquare.problem (σ := Unit))
      (newWork (some .lenient) r () { threshold := .debug }) .ticking
    ∃ o o', long.1 = .ok o ∧ 0 < o.steps ∧ short.1 = .ok o' ∧ o'.steps = 0 ∧ o'.reason = .maxIterations ∧
      o'.history.toList = o.history.toList.take 1 := by
  intro r long short
  let v : Setting 2 := ⟨.lenient, Quadratic.value 1 0 0, fun x => 1 *ᵥ x - 0,
    { method := .secant .usual }, {}⟩
  have computes := Quadratic.halfSquare_computes (σ := Unit) .lenient
  have newton : Newton v 1 0 0 .usual := ⟨rfl, rfl, rfl, Secant.usual_admissible, rfl⟩
  have fits : shortWork.ledger.Fits .lenient := Ledger.fits_of_eq rfl
  have begins : Begins (Plan.short true) shortWork v ![3, 4] 1 := ⟨rfl, ⟨rfl, rfl⟩, rfl, rfl, rfl, fits⟩
  obtain ⟨o, w, clock', returned⟩ : ∃ o w clock', (Plan.short true).execute solver
      Quadratic.halfSquare.problem shortWork .still = (.ok o, w, clock') :=
    newton.execute_returns isSymm_one PosDef.one (one_mul 1) computes begins rfl rfl
      (tolerances_pos usual_tolerances)
  obtain ⟨c, reached⟩ : ∃ c, (Plan.short true).checkpoint solver Quadratic.halfSquare.problem shortWork
      .still 1 = some c := by
    have gradient : v.gradient ![3, 4] = ![3, 4] := by simp [v]
    have square : ![(3 : ℝ), 4] ⬝ᵥ ![3, 4] = 25 := by norm_num [dotProduct, Fin.sum_univ_two]
    have five : Real.sqrt 25 = 5 := by
      rw [show (25 : ℝ) = 5 ^ 2 by norm_num, Real.sqrt_sq (by norm_num)]
    refine newton.exists_step isSymm_one (one_mul 1) computes begins rfl rfl rfl two_pos ?_ ?_
    · rw [gradient, square, five]
      norm_num [v, Scalar.rootEpsilon]
    · rw [gradient, one_mulVec, square]
      norm_num
  have made : make (ofMatrix .lenient (1 : Matrix (Fin 2) (Fin 2) ℝ)) (some { method := .secant .usual })
      {} = .ok r := rfl
  obtain ⟨returns, -⟩ := limits_give_prefixes (Quadratic.problem_steady Quadratic.halfSquare) made
    (Plan.short_planned true) rfl (Nat.zero_le 2) (some .lenient) () ()
    { threshold := .info } { threshold := .debug } .still .ticking
  have took := Plan.lt_steps_of_checkpoint one_pos reached returned
  obtain ⟨N, steps, -, cut⟩ := returns o (congrArg Prod.fst returned)
  obtain ⟨c', o', -, ended, cut, history⟩ := cut (by omega)
  exact ⟨o, o', congrArg Prod.fst returned, took, ended, cut.steps, cut.reason, history⟩

/-- The first entry of a point is its cost, and the gradient is a lenient array wherever it is asked for. -/
def lenientSlope : Problem Float Unit where
  cost x := pure (x.values.getD 0 0)
  gradient? := some fun _ => pure (.tensor (.lenient (.vector #v[1])))

theorem lenientSlope_steady : lenientSlope.Steady where
  cost _ := .pure _
  gradient := by
    rintro _ ⟨⟩ _
    exact .pure _

/-- A run from a strict array with one entry. -/
def strictStart : Plan Float := ⟨.strict, .strict (.vector #v[0.5]), 1, none, false⟩

/-- A solver with a lenient matrix with one entry. -/
def lenientUnit : RankOne Float where
  family := .lenient
  inverse := .lenient ⟨[1, 1], #v[1]⟩
  search := { method := .backtracking ⟨1, 0.5, 1e-4, 50⟩ }
  tolerances := {}

/-- A run with a lenient matrix from a strict array does not come to the end of its first step where the gradient is
a lenient array; and if it may take no step, it fails as well, since its family has no norm for the gradient. -/
theorem strict_start_refuses_norm :
    let work := newWork (some .strict) lenientUnit () { threshold := .info }
    let clock : Clock Float := { reading := fun _ => 0 }
    lenientSlope.Steady ∧
      make (.lenient ⟨[1, 1], #v[1]⟩) (some { method := .backtracking ⟨1, 0.5, 1e-4, 50⟩ }) {} = .ok lenientUnit ∧
      Plan.ofOptions ⟨.strict (.vector #v[0.5]), 1, none, false⟩ = .ok strictStart ∧
      (strictStart.limited 1).StepFails solver lenientSlope work clock 0 (.mismatch .kind) ∧
      ((strictStart.limited 0).execute solver lenientSlope work clock).1 = .error (.mismatch .kind) := by
  intro work clock
  have stepped : ((strictStart.limited 1).checkpoint solver lenientSlope work clock 0).any (fun c =>
      let checked := ((strictStart.limited 1).verdict solver clock.read.1 1).outcome c.run
      checked.1.toOption = some .notTerminated ∧
        ((solver.step lenientSlope checked.2.state).outcome checked.2.work).1.map (fun _ => ()) =
          .error (.mismatch .kind)) = true := by
    decide +kernel
  have closed : ((strictStart.limited 0).execute solver lenientSlope work clock).1.map (fun _ => ()) =
      .error (.mismatch .kind) := by
    decide +kernel
  refine ⟨lenientSlope_steady, rfl, rfl, ?_, ?_⟩
  · obtain ⟨c, reached, decided⟩ := (Option.any_eq_true _ _).mp stepped
    obtain ⟨goesOn, fails⟩ := of_decide_eq_true decided
    rcases checked : ((strictStart.limited 1).verdict solver clock.read.1 1).outcome c.run with ⟨answer, t⟩
    rw [checked] at goesOn fails
    rcases answer with e | reason
    · cases goesOn
    obtain rfl : reason = .notTerminated := Option.some.inj goesOn
    rcases ended : (solver.step lenientSlope t.state).outcome t.work with ⟨answer, w⟩
    rw [ended] at fails
    rcases answer with e | next
    · obtain rfl : e = .mismatch .kind := Except.error.inj fails
      exact ⟨c, t, w, ⟨reached, checked⟩, ended⟩
    · cases fails
  · rcases ended : ((strictStart.limited 0).execute solver lenientSlope work clock).1 with e | o
    · rw [ended] at closed
      obtain rfl : e = .mismatch .kind := Except.error.inj closed
      rfl
    · rw [ended] at closed
      cases closed

end QuasiNewton.RankOne
