import QuasiNewton.Proofs.LineSearch.Recording
import QuasiNewton.Proofs.Objective.Families
import QuasiNewton.Proofs.RankOne.SideBySide
import QuasiNewton.Proofs.RankOne.Square
import QuasiNewton.Proofs.RankOne.Termination

/-!
# Runs in both families

A run of the rank-one solver on lenient arrays of double precision and the run on strict arrays of the same
numbers agree (`run_agrees_in_both_families`), for parallel problems, every search, all tolerances and limits,
and in every number system. Each operation of a step has one outcome on vectors and square matrices, whatever
the family is (`Likeness.families_computed`); in particular all sums are taken from the left in both of them.
-/

set_option autoImplicit false

namespace QuasiNewton

open Attempt Tensor
open QuasiNewton.Decimal (NumberText)

variable {α σ : Type} {n : ℕ}

/-- The same square matrix in both families. -/
def Tensor.SameMatrix (n : ℕ) (t t' : Tensor α) : Prop :=
  ∃ m : Fin n → Fin n → α, t = .double .lenient (.matrix m) ∧ t' = .double .strict (.matrix m)

/-- A lenient array and the strict one with the same numbers stand for each other; costs and faults stand
for themselves. -/
def Likeness.families (n : ℕ) : Likeness α where
  family := .lenient
  family' := .strict
  point := SameVector n
  vector := SameVector n
  matrix := SameMatrix n
  cost := Eq
  fault := Eq

variable [Scalar α]

/-- Everything that a rank-one solver computes is the same in both families. -/
theorem Likeness.families_computed : (families n : Likeness α).Computed where
  length := by
    rintro _ _ ⟨x, rfl, rfl⟩
    rfl
  copy := by
    rintro _ _ ⟨x, rfl, rfl⟩
    dsimp only [families]
    rw [Family.copy_double, Family.copy_double]
    exact .ok ⟨x, rfl, rfl⟩
  norm := by
    rintro _ _ ⟨v, rfl, rfl⟩
    dsimp only [families]
    rw [Family.norm_double, Family.norm_double]
  plain _ _ := rfl
  ofOptimization := by
    rintro e _ rfl
    rfl
  ofTensor := by
    rintro _ _ ⟨x, rfl, rfl⟩
    exact ⟨Family.ofTensor_double .lenient _, Family.ofTensor_double .strict _⟩
  subPoint := by
    rintro _ _ _ _ ⟨x, rfl, rfl⟩ ⟨z, rfl, rfl⟩
    rw [sub_double, sub_double]
    exact .ok ⟨_, rfl, rfl⟩
  subVector := by
    rintro _ _ _ _ ⟨u, rfl, rfl⟩ ⟨v, rfl, rfl⟩
    rw [sub_double, sub_double]
    exact .ok ⟨_, rfl, rfl⟩
  dot := by
    rintro _ _ _ _ ⟨u, rfl, rfl⟩ ⟨v, rfl, rfl⟩
    dsimp only [families]
    rw [Family.dot_double, Family.dot_double]
  scale := by
    rintro _ _ c ⟨v, rfl, rfl⟩
    rw [scaleVector_double, scaleVector_double]
    exact .ok ⟨_, rfl, rfl⟩
  scaledAdd := by
    rintro _ _ c _ _ ⟨x, rfl, rfl⟩ ⟨d, rfl, rfl⟩
    dsimp only [families]
    rw [Family.scaledAdd_double, Family.scaledAdd_double]
    exact .ok ⟨_, rfl, rfl⟩
  mulVec := by
    rintro _ _ _ _ ⟨m, rfl, rfl⟩ ⟨v, rfl, rfl⟩
    dsimp only [families]
    rw [Family.mulVec_double, Family.mulVec_double]
    exact .ok ⟨_, rfl, rfl⟩
  square := by
    rintro _ _ ⟨v, rfl, rfl⟩
    dsimp only [families]
    rw [Family.outer_double, Family.outer_double]
    exact .ok ⟨_, rfl, rfl⟩
  scaleMatrix := by
    rintro _ _ c ⟨m, rfl, rfl⟩
    rw [scaleMatrix_double, scaleMatrix_double]
    exact .ok ⟨_, rfl, rfl⟩
  addMatrix := by
    rintro _ _ _ _ ⟨m, rfl, rfl⟩ ⟨k, rfl, rfl⟩
    rw [addMatrix_double, addMatrix_double]
    exact .ok ⟨_, rfl, rfl⟩
  definite := by
    rintro _ _ ⟨m, rfl, rfl⟩
    have square (f : Family) : (double f (.matrix m)).Square False n := square_of_shape rfl
    exact ⟨(square .lenient).isDefinite _, (square .strict).isDefinite _⟩
  isFinite := by
    rintro c _ rfl
    rfl
  costChange := by
    rintro a _ b _ rfl rfl
    rfl
  notDescent _ := rfl
  search := by
    rintro τ τ' method R l l' cost _ slope lines rfl
    have same : l.Simulates R l' := ⟨fun alpha => simulates_iff_corresponds.mpr (lines.cost alpha),
      fun alpha => simulates_iff_corresponds.mpr (lines.slope alpha)⟩
    refine (simulates_iff_corresponds.mp (method.search_simulates same cost slope)).mono
      (fun step step' equal => ?_) fun _ _ => id
    subst equal
    exact ⟨rfl, rfl, rfl⟩

/-- Parallel problems answer alike at the same points of both families. -/
theorem Problem.Parallel.alike {p p' : Problem α σ} (same : p.Parallel n p') :
    p.Alike (.families n) Ledger.Parallel p' where
  cost := by
    rintro _ _ ⟨x, rfl, rfl⟩
    exact same.evaluateCost x
  gradient := by
    rintro _ _ ⟨x, rfl, rfl⟩
    exact same.evaluateGradient x

/-- A family takes all sums of a run from the left. -/
structure Family.SumsFromLeft (α : Type) [Scalar α] (n : ℕ) (family : Family) : Prop where
  dot : ∀ u v : Fin n → α, family.dot (.double family (.ofFn u)) (.double family (.ofFn v)) =
    .ok ((Arithmetic.real .double).dot (Vector.ofFn u) (Vector.ofFn v))
  norm : ∀ v : Fin n → α, family.norm (.double family (.ofFn v)) =
    .ok (Scalar.sqrt ((Arithmetic.real .double).dot (Vector.ofFn v) (Vector.ofFn v)))
  mulVec : ∀ (m : Fin n → Fin n → α) (v : Fin n → α),
    family.mulVec (.double family (.matrix m)) (.double family (.ofFn v)) =
      .ok (.double family (.ofFn fun i => (Arithmetic.real .double).sum fun j => m i j * v j))

/-- The limits of a run are checked and read in the same way in both families. -/
theorem plans_alike (x : Fin n → α) (maxSteps : α) (maxTime? : Option α) (history : Bool) :
    Agree (Plan.Alike (.families n)) Eq
      (Plan.ofOptions ⟨.double .lenient (.ofFn x), maxSteps, maxTime?, history⟩)
      (Plan.ofOptions ⟨.double .strict (.ofFn x), maxSteps, maxTime?, history⟩) := by
  have families : Agree (fun f f' => f = .lenient ∧ f' = .strict) Eq
      (Family.ofTensor (.double .lenient (.ofFn x)) : Except (Fault α) Family)
      (Family.ofTensor (.double .strict (.ofFn x))) := by
    rw [Family.ofTensor_double, Family.ofTensor_double]
    exact .ok ⟨rfl, rfl⟩
  have copies : Agree (SameVector n) Eq
      ((Family.lenient.copy (.double .lenient (.ofFn x))).mapError .mismatch :
        Except (Fault α) (Tensor α))
      ((Family.strict.copy (.double .strict (.ofFn x))).mapError .mismatch) := by
    rw [Family.copy_double, Family.copy_double]
    exact .ok ⟨x, rfl, rfl⟩
  refine (Agree.of_eq rfl).bind fun _ _ _ => ?_
  refine (Agree.of_eq rfl).bind fun _ _ _ => ?_
  refine families.bind fun f f' known => ?_
  obtain ⟨rfl, rfl⟩ := known
  refine copies.bind fun start start' same => ?_
  refine (Agree.of_eq rfl).bind fun steps _ equal => ?_
  subst equal
  exact .ok ⟨rfl, rfl, same, rfl, rfl, rfl⟩

namespace RankOne

/-- An outcome on lenient arrays and the same outcome on strict ones. -/
structure SameOutcome (n : ℕ) (o o' : Outcome α) : Prop where
  point : SameVector n o.point o'.point
  cost : o'.cost = o.cost
  gradientNorm : o'.gradientNorm = o.gradientNorm
  steps : o'.steps = o.steps
  reason : o'.reason = o.reason
  costCalls : o'.costCalls = o.costCalls
  gradientCalls : o'.gradientCalls = o.gradientCalls
  history : List.Forall₂ (SameVector n) o.history.toList o'.history.toList

omit [Scalar α] in
theorem sameOutcome_of_alike {o o' : Outcome α} (h : o.Alike (σ := σ) (.families n) Ledger.Parallel o') :
    SameOutcome n o o' := by
  obtain ⟨l, l', ledgers, cost, gradient, cost', gradient'⟩ := h.counts
  exact {
    point := h.point
    cost := h.cost.symm
    gradientNorm := h.gradientNorm
    steps := h.steps
    reason := h.reason
    costCalls := by rw [cost, cost', ledgers.costCalls]
    gradientCalls := by rw [gradient, gradient', ledgers.gradientCalls]
    history := h.history }

section Run

variable [NumberText α]

/-- Two runs, on lenient and on strict arrays, that agree. They pass through the same checks, so that they
also fail after the same number of steps. -/
structure RunsAgree (n : ℕ) (p p' : Problem α σ) (plan plan' : Plan α)
    (work work' : Workspace (RankOne α) σ) (clock : Clock α) : Prop where
  checks : ∀ k, Option.Rel (Checkpoint.Alike (.families n) Ledger.Parallel (Alike (.families n)))
    (plan.checkpoint solver p work clock k) (plan'.checkpoint solver p' work' clock k)
  outcomes : Agree (SameOutcome n) Eq (plan.execute solver p work clock).1
    (plan'.execute solver p' work' clock).1
  /-- The matrix, the counts of corrections, the counts of evaluations and the stage after the run. -/
  leaves : (plan.execute solver p work clock).2.1.Alike Ledger.Parallel (Alike (.families n))
    (plan'.execute solver p' work' clock).2.1
  clock : (plan'.execute solver p' work' clock).2.2 = (plan.execute solver p work clock).2.2

/-- **Runs agree in both families.** For every problem that is the same in both families, every start vector,
matrix and search, and all tolerances and limits: on lenient and on strict arrays of double precision all sums
are taken in one order, the two runs are refused for the same setting or both begin, and then they pass through
the same checks, return the same values or fail for the same fault, and leave the same matrix and the same
counts. The clock is the same for both; the journals may differ. -/
theorem run_agrees_in_both_families {p p' : Problem α σ} (same : p.Parallel n p') (x₀ : Fin n → α)
    (H₀ : Fin n → Fin n → α) (search : LineSearch α) (tolerances : Tolerances α) (maxSteps : α)
    (maxTime? : Option α) (history : Bool) :
    (∀ family : Family, family.SumsFromLeft α n) ∧
      Agree
        (fun plan plan' => Agree
          (fun r r' => ∀ (l l' : Ledger σ) (lifecycle : Lifecycle) (journal journal' : Journal)
            (clock : Clock α), l.Parallel l' → RunsAgree n p p' plan plan' ⟨l, r, lifecycle, journal⟩
              ⟨l', r', lifecycle, journal'⟩ clock) Eq
          (make (.double .lenient (.matrix H₀)) (some search) tolerances)
          (make (.double .strict (.matrix H₀)) (some search) tolerances)) Eq
        (Plan.ofOptions ⟨.double .lenient (.ofFn x₀), maxSteps, maxTime?, history⟩)
        (Plan.ofOptions ⟨.double .strict (.ofFn x₀), maxSteps, maxTime?, history⟩) := by
  have computed : (Likeness.families n : Likeness α).Computed := Likeness.families_computed
  have plans := plans_alike x₀ maxSteps maxTime? history
  have made (family : Family) : make (.double family (.matrix H₀)) (some search) tolerances =
      .ok { family, inverse := .double family (.matrix H₀), search, tolerances } :=
    make_of_copy (Family.ofTensor_double family _) rfl (Family.copy_double family _) search tolerances
  refine ⟨fun family => ⟨fun u v => Family.dot_double family u v, fun v => Family.norm_double family _,
    fun m v => Family.mulVec_double family v m⟩, plans.mono (fun plan plan' alike => ?_) fun _ _ => id⟩
  rw [made, made]
  refine .ok fun l l' lifecycle journal journal' clock ledgers => ?_
  have solvers : Alike (.families n)
      { family := .lenient, inverse := .double .lenient (.matrix H₀), search, tolerances }
      { family := .strict, inverse := .double .strict (.matrix H₀), search, tolerances } :=
    ⟨rfl, rfl, ⟨H₀, rfl, rfl⟩, rfl, rfl, rfl, rfl⟩
  have works : Workspace.Alike Ledger.Parallel (Alike (.families n))
      ⟨l, { family := .lenient, inverse := .double .lenient (.matrix H₀), search, tolerances },
        lifecycle, journal⟩
      ⟨l', { family := .strict, inverse := .double .strict (.matrix H₀), search, tolerances },
        lifecycle, journal'⟩ :=
    ⟨ledgers, solvers, rfl⟩
  obtain ⟨outcomes, after, clocks⟩ := execute_alike computed same.alike alike works clock
  exact {
    checks := checkpoint_alike computed same.alike alike works clock
    outcomes := outcomes.mono (fun _ _ => sameOutcome_of_alike) fun _ _ => id
    leaves := after
    clock := clocks }

end Run

/-- For instance, the short run on half the square of the length returns on strict arrays as well, with the
same outcome. -/
theorem halfSquare_agrees :
    ∃ plan' o o', Plan.ofOptions ⟨.double .strict (.ofFn ![3, 4]), 2, none, true⟩ = .ok plan' ∧
      ((Plan.short true).execute solver Quadratic.halfSquare.problem shortWork .still).1 = .ok o ∧
      (plan'.execute solver Quadratic.halfSquare.problem (freshWork .strict
        (ofMatrix .strict (1 : Matrix (Fin 2) (Fin 2) ℝ)) (.secant .usual) ()) .still).1 = .ok o' ∧
      SameOutcome 2 o o' := by
  obtain ⟨-, runs⟩ := run_agrees_in_both_families (σ := Unit)
    (Quadratic.problem_parallel Quadratic.halfSquare) ![3, 4]
    (fun i j => (1 : Matrix (Fin 2) (Fin 2) ℝ) i j) { method := .secant .usual } {} 2 none true
  have planned : Plan.ofOptions ⟨.double .lenient (.ofFn ![3, 4]), 2, none, true⟩ =
      .ok (Plan.short true) := Plan.short_planned true
  have made (family : Family) : make (.double family (.matrix fun i j =>
      (1 : Matrix (Fin 2) (Fin 2) ℝ) i j)) (some { method := .secant .usual }) {} =
      .ok (freshWork family (ofMatrix family (1 : Matrix (Fin 2) (Fin 2) ℝ)) (.secant .usual)
        ()).solver := by
    cases family <;> rfl
  rw [planned] at runs
  rcases strict : Plan.ofOptions ⟨.double .strict (.ofFn ![(3 : ℝ), 4]), 2, none, true⟩ with e | plan' <;>
    rw [strict] at runs <;> cases runs
  rename_i solvers
  rw [made, made] at solvers
  cases solvers with
  | ok agree =>
    have ledgers : (Ledger.fresh (some .lenient) ()).Parallel (.fresh (some .strict) ()) :=
      ⟨Ledger.fits_of_eq rfl, Ledger.fits_of_eq rfl, rfl, rfl, rfl⟩
    have outcomes : Agree (SameOutcome 2) Eq
        ((Plan.short true).execute solver Quadratic.halfSquare.problem shortWork .still).1
        (plan'.execute solver Quadratic.halfSquare.problem (freshWork .strict
          (ofMatrix .strict (1 : Matrix (Fin 2) (Fin 2) ℝ)) (.secant .usual) ()) .still).1 :=
      (agree _ _ {} { threshold := .info } { threshold := .info } .still ledgers).outcomes
    obtain ⟨o, w, clock', returned⟩ := short_returns true
    have first : ((Plan.short true).execute solver Quadratic.halfSquare.problem shortWork .still).1 =
        .ok o := congrArg Prod.fst returned
    rw [first] at outcomes
    generalize second : (plan'.execute solver Quadratic.halfSquare.problem (freshWork .strict
      (ofMatrix .strict (1 : Matrix (Fin 2) (Fin 2) ℝ)) (.secant .usual) ()) .still).1 = answer at outcomes
    cases outcomes with
    | ok same => exact ⟨plan', o, _, rfl, first, second, same⟩

end RankOne

end QuasiNewton
