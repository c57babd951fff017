import QuasiNewton.Proofs.Objective.CentralDifferences
import QuasiNewton.Proofs.RankOne.Motion

/-!
# Runs with central differences

A run on a quadratic cost with its own gradient, and the run on the same cost without it. Central differences
of a quadratic cost are exact, so that both runs take the same course and search along the same lines; only
their counts differ, by two evaluations of the cost for each unknown and each gradient
(`differences_drive_same_run`). The two runs are compared as in the case of a motion that moves nothing.
-/

set_option autoImplicit false

namespace QuasiNewton

open Attempt Matrix Tensor
open QuasiNewton.Decimal (NumberText)

variable {σ : Type} {n : ℕ}

/-- The ledgers of a run with gradients and of a run in which each gradient takes `2 n` evaluations of the
cost. -/
structure Ledger.Differenced (n : ℕ) (family : Family) (l l' : Ledger σ) : Prop where
  fits : l.Fits family
  fits' : l'.Fits family
  gradientCalls : l'.gradientCalls = 0
  costCalls : l'.costCalls = l.costCalls + 2 * n * l.gradientCalls

theorem Fault.rescale_one_zero (e : Fault ℝ) : e.rescale 1 0 = e := by
  cases e with
  | search cause => cases cause <;> simp [rescale, SearchFault.rescale]
  | _ => rfl

/-! ### Nothing moves -/

namespace Motion

def still (n : ℕ) : Motion n := ⟨1, one_mem _, 0, 0⟩

theorem still_point (x : Fin n → ℝ) : (still n).point x = x := by
  unfold point still
  rw [one_mulVec, add_zero]

theorem still_vector (v : Fin n → ℝ) : (still n).vector v = v := one_mulVec v

theorem still_matrix (H : Matrix (Fin n) (Fin n) ℝ) : (still n).matrix H = H := by
  unfold matrix still
  rw [transpose_one, Matrix.one_mul, Matrix.mul_one]

theorem still_ofEquals (family : Family) : ((still n).likeness family).OfEquals where
  point := by
    rintro _ _ ⟨x, rfl, rfl⟩
    rw [still_point]
  vector := by
    rintro _ _ ⟨v, rfl, rfl⟩
    rw [still_vector]
  matrix := by
    rintro _ _ ⟨H, rfl, rfl⟩
    rw [still_matrix]
  cost := by
    rintro c _ rfl
    exact add_zero c
  fault := by
    rintro e _ rfl
    exact e.rescale_one_zero

end Motion

/-! ### Evaluations with differences -/

/-- Central differences of a quadratic cost answer what its gradient answers. -/
theorem Problem.Computes.differenced_alike {p : Problem ℝ σ} {family : Family}
    {A : Matrix (Fin n) (Fin n) ℝ} (symm : A.IsSymm) {b : Fin n → ℝ} {c : ℝ}
    (computes : p.Computes family (Quadratic.value A b c) fun x => A *ᵥ x - b) :
    p.Alike ((Motion.still n).likeness family) (Ledger.Differenced n family) p.withoutGradient where
  cost := by
    rintro _ _ ⟨x, rfl, rfl⟩ l l' related
    rw [Motion.still_point]
    have computes' : p.withoutGradient.evaluateCost = p.evaluateCost := rfl
    obtain ⟨s, run⟩ := computes.outcome_cost related.fits x
    obtain ⟨s', run'⟩ := computes.outcome_cost related.fits' x
    rw [computes', run, run']
    refine ⟨⟨Ledger.fits_of_eq rfl, Ledger.fits_of_eq rfl, related.gradientCalls, ?_⟩, .ok ?_⟩
    · have counts := related.costCalls
      dsimp only
      omega
    · exact (add_zero _).symm
  gradient := by
    rintro _ _ ⟨x, rfl, rfl⟩ l l' related
    rw [Motion.still_point]
    obtain ⟨s, run⟩ := computes.outcome_gradient related.fits x
    obtain ⟨s', run'⟩ := Problem.outcome_differences computes.cost related.fits' x
    have distant : (Differences.standardStep : ℝ) ≠ 0 := by norm_num [Differences.standardStep]
    rw [Differences.ofFunction_value_symm symm b c x distant] at run'
    rw [run, run']
    refine ⟨⟨Ledger.fits_of_eq rfl, Ledger.fits_of_eq rfl, related.gradientCalls, ?_⟩, .ok ?_⟩
    · have counts := related.costCalls
      dsimp only
      rw [counts, Nat.mul_succ]
      omega
    · exact ⟨A *ᵥ x - b, rfl, by rw [Motion.still_vector]⟩

/-! ### The two runs -/

namespace RankOne

/-- Two runs at the same check, up to their counts. -/
structure SameCheck (n : ℕ) (family : Family) (p p' : Problem ℝ σ) (c c' : Checkpoint ℝ (RankOne ℝ) σ) :
    Prop where
  last : c'.last = c.last
  state : c'.run.state = c.run.state
  history : c'.run.history = c.run.history
  solver : c'.run.work.solver = c.run.work.solver
  lifecycle : c'.run.work.lifecycle = c.run.work.lifecycle
  search : nextSearch p' c' = nextSearch p c
  ledger : c.run.work.ledger.Differenced n family c'.run.work.ledger

theorem sameCheck_of_alike {family : Family} {p p' : Problem ℝ σ}
    (problems : p.Alike ((Motion.still n).likeness family) (Ledger.Differenced n family) p')
    {c c' : Checkpoint ℝ (RankOne ℝ) σ} (h : c.Alike ((Motion.still n).likeness family)
      (Ledger.Differenced n family) (Alike ((Motion.still n).likeness family)) c') :
    SameCheck n family p p' c c' := by
  have equals := Motion.still_ofEquals (n := n) family
  have computed : ((Motion.still n).likeness family).Computed := Motion.likeness_computed
  have search : nextSearch p' c' = nextSearch p c := by
    have gradients := h.run.state.gradient
    unfold nextSearch
    rcases hg : c.run.state.gradient? with _ | g <;>
      rcases hg' : c'.run.state.gradient? with _ | g' <;> rw [hg, hg'] at gradients <;> cases gradients
    · rw [Option.map_none, Option.map_none]
    · obtain ⟨-, answers⟩ :=
        searchOf_alike computed h.run.work.solver problems h.run.state ‹_› _ _ h.run.work.ledger
      rw [Option.map_some, Option.map_some]
      refine congrArg some (Agree.eq (answers.mono (fun a a' related => ?_) fun e e' related => ?_)).symm
      · exact (equals.accepted related).symm
      · exact (equals.fault e e' related).symm
  exact {
    last := equals.iterate h.last
    state := equals.state h.run.state
    history := equals.history h.run.history
    solver := h.run.work.solver.eq equals rfl
    lifecycle := h.run.work.lifecycle
    search := search
    ledger := h.run.work.ledger }

/-- The outcome of a run whose gradients are evaluations of the cost. -/
def differenced (n : ℕ) (o : Outcome ℝ) : Outcome ℝ :=
  { o with costCalls := o.costCalls + 2 * n * o.gradientCalls, gradientCalls := 0 }

theorem eq_differenced_of_alike {family : Family} {o o' : Outcome ℝ}
    (h : o.Alike (σ := σ) ((Motion.still n).likeness family) (Ledger.Differenced n family) o') :
    o' = differenced n o := by
  have equals := Motion.still_ofEquals (n := n) family
  obtain ⟨x, c, g, k, reason, costCalls, gradientCalls, kept⟩ := o
  obtain ⟨x', c', g', k', reason', costCalls', gradientCalls', kept'⟩ := o'
  obtain ⟨l, l', ledgers, rfl, rfl, rfl, rfl⟩ := h.counts
  obtain rfl := equals.point _ _ h.point
  obtain rfl := equals.cost _ _ h.cost
  obtain rfl := h.gradientNorm
  obtain rfl := h.steps
  obtain rfl := h.reason
  obtain rfl := equals.history h.history
  unfold differenced
  rw [ledgers.costCalls, ledgers.gradientCalls]

section Run

variable [NumberText ℝ]

/-- **Central differences drive the same run** on a quadratic cost as its gradient does. The two runs pass
through the same checks with the same searches, end with the same outcome or fail for the same fault, and
leave the same solver. With differences the gradient is never asked for, and every gradient takes two
evaluations of the cost for each unknown. -/
theorem differences_drive_same_run {A : Matrix (Fin n) (Fin n) ℝ} (symm : A.IsSymm) (b : Fin n → ℝ)
    (const : ℝ) {p : Problem ℝ σ} {plan : Plan ℝ}
    (computes : p.Computes plan.family (Quadratic.value A b const) fun x => A *ᵥ x - b)
    {x₀ : Fin n → ℝ} (start : plan.start = ofVector plan.family x₀) {H₀ : Matrix (Fin n) (Fin n) ℝ}
    {work : Workspace (RankOne ℝ) σ} (stores : work.solver.Stores plan.family H₀)
    (fits : work.ledger.Fits plan.family) (fresh : work.ledger.gradientCalls = 0) (clock : Clock ℝ) :
    (∀ k, Option.Rel (SameCheck n plan.family p p.withoutGradient)
        (plan.checkpoint solver p work clock k)
        (plan.checkpoint solver p.withoutGradient work clock k)) ∧
      (plan.execute solver p.withoutGradient work clock).1 =
        (plan.execute solver p work clock).1.map (differenced n) ∧
      (plan.execute solver p.withoutGradient work clock).2.1.solver =
        (plan.execute solver p work clock).2.1.solver ∧
      (plan.execute solver p.withoutGradient work clock).2.1.lifecycle =
        (plan.execute solver p work clock).2.1.lifecycle ∧
      (plan.execute solver p work clock).2.1.ledger.Differenced n plan.family
        (plan.execute solver p.withoutGradient work clock).2.1.ledger := by
  have equals := Motion.still_ofEquals (n := n) plan.family
  have computed : ((Motion.still n).likeness plan.family).Computed := Motion.likeness_computed
  have problems := computes.differenced_alike symm
  have plans : plan.Alike ((Motion.still n).likeness plan.family) plan :=
    ⟨rfl, rfl, ⟨x₀, start, by rw [Motion.still_point, start]⟩, rfl, rfl, rfl⟩
  have works : work.Alike (Ledger.Differenced n plan.family)
      (Alike ((Motion.still n).likeness plan.family)) work := by
    refine ⟨⟨fits, fits, fresh, by rw [fresh, Nat.mul_zero, Nat.add_zero]⟩,
      ⟨stores.family_eq, stores.family_eq, ⟨H₀, stores.inverse_eq, ?_⟩, rfl, rfl, rfl, rfl⟩, rfl⟩
    rw [Motion.still_matrix, stores.inverse_eq]
  obtain ⟨outcomes, after, -⟩ := execute_alike computed problems plans works clock
  refine ⟨fun k => ?_, ?_, after.solver.eq equals rfl, after.lifecycle, after.ledger⟩
  · exact optionRel_mono (fun _ _ => sameCheck_of_alike problems)
      (checkpoint_alike computed problems plans works clock k)
  · exact (outcomes.mono (fun _ _ => eq_differenced_of_alike) equals.fault).eq_map

end Run

/-- For instance, on half the square of the length in two unknowns. -/
theorem halfSquare_differenced :
    ((Plan.short true).execute solver Quadratic.halfSquare.costOnly (freshWork .lenient
        (ofMatrix .lenient (1 : Matrix (Fin 2) (Fin 2) ℝ)) (.secant .usual) ()) .still).1 =
      ((Plan.short true).execute solver Quadratic.halfSquare.problem (freshWork .lenient
        (ofMatrix .lenient (1 : Matrix (Fin 2) (Fin 2) ℝ)) (.secant .usual) ()) .still).1.map
          (differenced 2) := by
  have fits : (freshWork .lenient (ofMatrix .lenient (1 : Matrix (Fin 2) (Fin 2) ℝ))
      (.secant .usual) ()).ledger.Fits .lenient := Ledger.fits_of_eq rfl
  have start : (Plan.short true).start = ofVector (Plan.short true).family ![3, 4] := rfl
  have stores : (freshWork .lenient (ofMatrix .lenient (1 : Matrix (Fin 2) (Fin 2) ℝ))
      (.secant .usual) ()).solver.Stores (Plan.short true).family (1 : Matrix (Fin 2) (Fin 2) ℝ) :=
    ⟨rfl, rfl⟩
  obtain ⟨-, outcomes, -⟩ := differences_drive_same_run isSymm_one 0 0
    (Quadratic.halfSquare_computes (Plan.short true).family) start stores fits rfl .still
  exact outcomes

end RankOne

end QuasiNewton
