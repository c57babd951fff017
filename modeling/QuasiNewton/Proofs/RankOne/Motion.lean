import Mathlib.LinearAlgebra.UnitaryGroup
import QuasiNewton.Proofs.LineSearch.Descent
import QuasiNewton.Proofs.LineSearch.Rescaling
import QuasiNewton.Proofs.Objective.VectorCode
import QuasiNewton.Proofs.RankOne.Secant
import QuasiNewton.Proofs.RankOne.SideBySide
import QuasiNewton.Proofs.Run.Points

/-!
# Runs and motions

A motion turns vectors by an orthogonal matrix and shifts them; the costs may be lifted by a constant. If a
problem, the start point and the first matrix are carried along a motion, then the whole run is carried
along (`run_moves`): inner products and lengths stay what they are, matrices are conjugated, and costs are
only ever compared with costs. The problem is any code on vectors that may fail and may have a state.
-/

set_option autoImplicit false

namespace QuasiNewton

open Attempt Matrix Tensor
open QuasiNewton.Decimal (NumberText)

variable {σ : Type} {n : ℕ}

/-- A turn or a reflection, then a shift, and a constant by which costs are lifted. -/
structure Motion (n : ℕ) where
  turn : Matrix (Fin n) (Fin n) ℝ
  orthogonal : turn ∈ orthogonalGroup (Fin n) ℝ
  shift : Fin n → ℝ
  lift : ℝ

namespace Motion

variable (m : Motion n)

def point (x : Fin n → ℝ) : Fin n → ℝ := m.turn *ᵥ x + m.shift

/-- Where a point comes from. -/
def back (z : Fin n → ℝ) : Fin n → ℝ := m.turnᵀ *ᵥ (z - m.shift)

/-- Differences of points are turned only. -/
def vector (v : Fin n → ℝ) : Fin n → ℝ := m.turn *ᵥ v

def matrix (H : Matrix (Fin n) (Fin n) ℝ) : Matrix (Fin n) (Fin n) ℝ := m.turn * H * m.turnᵀ

/-! ### What a motion keeps -/

variable (x z u v : Fin n → ℝ) (c : ℝ) (H K : Matrix (Fin n) (Fin n) ℝ)

theorem transpose_mul_turn : m.turnᵀ * m.turn = 1 :=
  (mem_orthogonalGroup_iff' (Fin n) ℝ).mp m.orthogonal

theorem back_point : m.back (m.point x) = x := by
  unfold back point
  rw [add_sub_cancel_right, mulVec_mulVec, transpose_mul_turn, one_mulVec]

theorem point_sub : m.point x - m.point z = m.vector (x - z) := by
  unfold point vector
  rw [mulVec_sub, add_sub_add_right_eq_sub]

theorem point_add : m.point x + m.vector v = m.point (x + v) := by
  unfold point vector
  rw [mulVec_add]
  exact add_right_comm _ _ _

theorem vector_sub : m.vector u - m.vector v = m.vector (u - v) := (mulVec_sub _ _ _).symm

theorem vector_smul : c • m.vector v = m.vector (c • v) := (mulVec_smul _ _ _).symm

theorem vector_dotProduct : m.vector u ⬝ᵥ m.vector v = u ⬝ᵥ v := by
  unfold vector
  rw [dotProduct_mulVec, ← mulVec_transpose, mulVec_mulVec, transpose_mul_turn, one_mulVec]

theorem matrix_mulVec : m.matrix H *ᵥ m.vector v = m.vector (H *ᵥ v) := by
  unfold matrix vector
  rw [mulVec_mulVec, Matrix.mul_assoc, transpose_mul_turn, Matrix.mul_one, mulVec_mulVec]

theorem vecMulVec_vector : vecMulVec (m.vector u) (m.vector v) = m.matrix (vecMulVec u v) := by
  unfold matrix vector
  rw [mul_vecMulVec, vecMulVec_mul, ← mulVec_transpose, transpose_transpose]

theorem matrix_smul : c • m.matrix H = m.matrix (c • H) := by
  unfold matrix
  rw [Matrix.mul_smul, Matrix.smul_mul]

theorem matrix_add : m.matrix H + m.matrix K = m.matrix (H + K) := by
  unfold matrix
  rw [Matrix.mul_add, Matrix.add_mul]

/-- What a motion makes of arrays, costs and faults. -/
def likeness (family : Family) : Likeness ℝ where
  family := family
  family' := family
  point t t' := ∃ x, t = ofVector family x ∧ t' = ofVector family (m.point x)
  vector t t' := ∃ v, t = ofVector family v ∧ t' = ofVector family (m.vector v)
  matrix t t' := ∃ H, t = ofMatrix family H ∧ t' = ofMatrix family (m.matrix H)
  cost c c' := c' = c + m.lift
  fault e e' := e' = e.rescale 1 m.lift

variable {m} {family : Family}

theorem likeness_plain {e : Fault ℝ} (h : ∀ cause, e ≠ .search cause) : (m.likeness family).fault e e := by
  cases e with
  | search cause => exact absurd rfl (h cause)
  | _ => rfl

/-- Everything that a rank-one solver computes is carried along a motion. -/
theorem likeness_computed : (m.likeness family).Computed where
  length := by
    rintro _ _ ⟨x, rfl, rfl⟩
    rfl
  copy := by
    rintro _ _ ⟨x, rfl, rfl⟩
    dsimp only [likeness]
    rw [Family.copy_ofVector, Family.copy_ofVector]
    exact .ok ⟨x, rfl, rfl⟩
  norm := by
    rintro _ _ ⟨v, rfl, rfl⟩
    dsimp only [likeness]
    rw [Family.norm_ofVector, Family.norm_ofVector, vector_dotProduct]
  plain _ h := likeness_plain h
  ofOptimization := by
    rintro e _ rfl
    cases e <;> rfl
  ofTensor := by
    rintro _ _ ⟨x, rfl, rfl⟩
    exact ⟨Family.ofTensor_ofVector family x, Family.ofTensor_ofVector family _⟩
  subPoint := by
    rintro _ _ _ _ ⟨x, rfl, rfl⟩ ⟨z, rfl, rfl⟩
    rw [sub_ofVector, sub_ofVector, point_sub]
    exact .ok ⟨x - z, rfl, rfl⟩
  subVector := by
    rintro _ _ _ _ ⟨u, rfl, rfl⟩ ⟨v, rfl, rfl⟩
    rw [sub_ofVector, sub_ofVector, vector_sub]
    exact .ok ⟨u - v, rfl, rfl⟩
  dot := by
    rintro _ _ _ _ ⟨u, rfl, rfl⟩ ⟨v, rfl, rfl⟩
    dsimp only [likeness]
    rw [Family.dot_ofVector, Family.dot_ofVector, vector_dotProduct]
  scale := by
    rintro _ _ c ⟨v, rfl, rfl⟩
    rw [scale_ofVector, scale_ofVector, vector_smul]
    exact .ok ⟨c • v, rfl, rfl⟩
  scaledAdd := by
    rintro _ _ c _ _ ⟨x, rfl, rfl⟩ ⟨d, rfl, rfl⟩
    dsimp only [likeness]
    rw [Family.scaledAdd_ofVector, Family.scaledAdd_ofVector, vector_smul, point_add]
    exact .ok ⟨x + c • d, rfl, rfl⟩
  mulVec := by
    rintro _ _ _ _ ⟨H, rfl, rfl⟩ ⟨v, rfl, rfl⟩
    dsimp only [likeness]
    rw [Family.mulVec_ofMatrix, Family.mulVec_ofMatrix, matrix_mulVec]
    exact .ok ⟨H *ᵥ v, rfl, rfl⟩
  square := by
    rintro _ _ ⟨v, rfl, rfl⟩
    dsimp only [likeness]
    rw [Family.outer_ofVector, Family.outer_ofVector, vecMulVec_vector]
    exact .ok ⟨vecMulVec v v, rfl, rfl⟩
  scaleMatrix := by
    rintro _ _ c ⟨H, rfl, rfl⟩
    rw [scale_ofMatrix, scale_ofMatrix, matrix_smul]
    exact .ok ⟨c • H, rfl, rfl⟩
  addMatrix := by
    rintro _ _ _ _ ⟨H, rfl, rfl⟩ ⟨K, rfl, rfl⟩
    rw [add_ofMatrix, add_ofMatrix, matrix_add]
    exact .ok ⟨H + K, rfl, rfl⟩
  definite := by
    rintro _ _ ⟨H, rfl, rfl⟩
    exact ⟨isDefinite_ofMatrix family H _, isDefinite_ofMatrix family _ _⟩
  isFinite _ _ _ := rfl
  costChange := by
    rintro a _ b _ rfl rfl
    rw [add_sub_add_right_eq_sub]
  notDescent slope := by
    show _ = _
    rw [Fault.rescale, SearchFault.rescale, one_mul]
  search := by
    rintro τ τ' method R l l' cost _ slope ⟨costs, slopes⟩ rfl
    have rescaled : l.Rescales R (m.likeness family).fault 1 m.lift l' := by
      refine ⟨fun alpha => ?_, fun alpha => ?_⟩
      · refine (costs alpha).mono (fun c c' same => ?_) fun _ _ => id
        rw [one_mul]
        exact same
      · refine (slopes alpha).mono (fun c c' same => ?_) fun _ _ => id
        rw [one_mul, same]
    have searched := method.search_rescales one_pos (fun _ _ => rfl) rescaled cost slope
    rw [one_mul, one_mul] at searched
    refine searched.mono (fun step step' same => ?_) fun _ _ => id
    subst same
    exact ⟨rfl, congrArg (· + m.lift) (one_mul _), rfl⟩

end Motion

/-! ### Problems that are carried along -/

/-- The problem that a motion makes of a problem. -/
def VectorCode.move (code : VectorCode n σ) (m : Motion n) : VectorCode n σ where
  cost z := (· + m.lift) <$> code.cost (m.back z)
  gradient z := m.vector <$> code.gradient (m.back z)

theorem VectorCode.move_maps (code : VectorCode n σ) (m : Motion n) :
    code.Maps (code.move m) m.point (· + m.lift) m.vector where
  cost x := by
    show _ <$> code.cost (m.back (m.point x)) = _
    rw [m.back_point]
  gradient x := by
    show _ <$> code.gradient (m.back (m.point x)) = _
    rw [m.back_point]

/-- A problem and the problem that a motion makes of it answer alike. -/
theorem Problem.Follows.alike {p p' : Problem ℝ σ} {family : Family} {code : VectorCode n σ} {m : Motion n}
    (follows : p.Follows family code) (follows' : p'.Follows family (code.move m)) :
    p.Alike (m.likeness family) (Ledger.Carried family) p' where
  cost := by
    rintro _ _ ⟨x, rfl, rfl⟩
    exact follows.evaluateCost_corresponds follows' (code.move_maps m) (fun _ => Motion.likeness_plain) x
  gradient := by
    rintro _ _ ⟨x, rfl, rfl⟩
    exact follows.evaluateGradient_corresponds follows' (code.move_maps m) (fun _ => Motion.likeness_plain) x

/-! ### Runs that are carried along -/

namespace Motion

variable (m : Motion n)

/-- The plan with its start point carried along. -/
noncomputable def plan (plan : Plan ℝ) : Plan ℝ :=
  { plan with start := ofVector plan.family (m.point (plan.start.toVector n)) }

/-- The workspace with the matrix of its solver carried along. -/
noncomputable def work (family : Family) (work : Workspace (RankOne ℝ) σ) : Workspace (RankOne ℝ) σ :=
  { work with
    solver := { work.solver with
      inverse := ofMatrix family (m.matrix (work.solver.inverse.toMatrix n)) } }

/-- An outcome and the outcome of the run that is carried along. -/
structure Carries (family : Family) (o o' : Outcome ℝ) : Prop where
  point : ∃ x, o.point = ofVector family x ∧ o'.point = ofVector family (m.point x)
  cost : o'.cost = o.cost + m.lift
  gradientNorm : o'.gradientNorm = o.gradientNorm
  steps : o'.steps = o.steps
  reason : o'.reason = o.reason
  costCalls : o'.costCalls = o.costCalls
  gradientCalls : o'.gradientCalls = o.gradientCalls
  history : List.Forall₂ (fun t t' => ∃ x, t = ofVector family x ∧ t' = ofVector family (m.point x))
    o.history.toList o'.history.toList

variable {m}

theorem carries_of_alike {family : Family} {o o' : Outcome ℝ}
    (h : o.Alike (σ := σ) (m.likeness family) (Ledger.Carried family) o') : m.Carries family o o' := by
  obtain ⟨l, l', ⟨rfl, -⟩, cost, gradient, cost', gradient'⟩ := h.counts
  exact {
    point := h.point
    cost := h.cost
    gradientNorm := h.gradientNorm
    steps := h.steps
    reason := h.reason
    costCalls := cost'.trans cost.symm
    gradientCalls := gradient'.trans gradient.symm
    history := h.history }

end Motion

namespace RankOne

section Run

variable [NumberText ℝ]

/-- **Runs are carried along by motions.** Turn, reflect and shift a problem, its start vector and the
first matrix, and lift its costs by a constant: then the run reaches the same checks with everything carried
along, returns or fails in the same way after the same number of steps, and has made the same evaluations
and corrections. This holds for all methods of search and for all tolerances, and for problems that fail or
have a state. -/
theorem run_moves (m : Motion n) {code : VectorCode n σ} {p p' : Problem ℝ σ} {plan : Plan ℝ}
    (follows : p.Follows plan.family code) (follows' : p'.Follows plan.family (code.move m))
    {x₀ : Fin n → ℝ} (start : plan.start = ofVector plan.family x₀) {H₀ : Matrix (Fin n) (Fin n) ℝ}
    {work : Workspace (RankOne ℝ) σ} (stores : work.solver.Stores plan.family H₀)
    (fits : work.ledger.Fits plan.family) (clock : Clock ℝ) :
    (∀ k, Option.Rel (Checkpoint.Alike (m.likeness plan.family) (Ledger.Carried plan.family)
        (Alike (m.likeness plan.family))) (plan.checkpoint solver p work clock k)
          ((m.plan plan).checkpoint solver p' (m.work plan.family work) clock k)) ∧
      Agree (m.Carries plan.family) (fun e e' => e' = e.rescale 1 m.lift)
        (plan.execute solver p work clock).1
        ((m.plan plan).execute solver p' (m.work plan.family work) clock).1 ∧
      (plan.execute solver p work clock).2.1.Alike (Ledger.Carried plan.family)
        (Alike (m.likeness plan.family))
        ((m.plan plan).execute solver p' (m.work plan.family work) clock).2.1 := by
  have computed : (m.likeness plan.family).Computed := Motion.likeness_computed
  have problems : p.Alike (m.likeness plan.family) (Ledger.Carried plan.family) p' :=
    follows.alike follows'
  have plans : plan.Alike (m.likeness plan.family) (m.plan plan) := by
    refine ⟨rfl, rfl, ⟨x₀, start, ?_⟩, rfl, rfl, rfl⟩
    unfold Motion.plan
    rw [start, toVector_ofVector]
  have works : work.Alike (Ledger.Carried plan.family) (Alike (m.likeness plan.family))
      (m.work plan.family work) := by
    refine ⟨⟨rfl, fits⟩, ⟨stores.family_eq, stores.family_eq, ⟨H₀, stores.inverse_eq, ?_⟩, rfl, rfl,
      rfl, rfl⟩, rfl⟩
    unfold Motion.work
    rw [stores.inverse_eq, toMatrix_ofMatrix]
  obtain ⟨outcomes, after, -⟩ := execute_alike computed problems plans works clock
  refine ⟨checkpoint_alike computed problems plans works clock, ?_, after⟩
  exact outcomes.mono (fun _ _ => Motion.carries_of_alike) fun _ _ => id

end Run

/-- A quarter turn about the origin, followed by a shift. -/
noncomputable def quarterTurn : Motion 2 where
  turn := !![0, -1; 1, 0]
  orthogonal := by
    rw [mem_orthogonalGroup_iff' (Fin 2) ℝ]
    ext i j
    fin_cases i <;> fin_cases j <;> simp [Matrix.mul_apply]
  shift := ![1, 1]
  lift := 1

/-- For instance, the run on half the square of the length from `(3, 4)` and the run that starts after a
quarter turn and a shift at `(-3, 4)` end in the same way. -/
theorem halfSquare_turned :
    (quarterTurn.plan (Plan.short true)).start = ofVector .lenient ![-3, 4] ∧
      Agree (quarterTurn.Carries .lenient) (fun e e' => e' = e.rescale 1 1)
        ((Plan.short true).execute solver Quadratic.halfSquare.problem (freshWork .lenient
          (ofMatrix .lenient (1 : Matrix (Fin 2) (Fin 2) ℝ)) (.secant .usual) ()) .still).1
        ((quarterTurn.plan (Plan.short true)).execute solver
          (((Quadratic.code 1 0 0).move quarterTurn).problem .lenient) (quarterTurn.work .lenient
            (freshWork .lenient (ofMatrix .lenient (1 : Matrix (Fin 2) (Fin 2) ℝ)) (.secant .usual)
              ())) .still).1 := by
  have fits : (freshWork .lenient (ofMatrix .lenient (1 : Matrix (Fin 2) (Fin 2) ℝ))
      (.secant .usual) ()).ledger.Fits .lenient := Ledger.fits_of_eq rfl
  have start : (Plan.short true).start = ofVector (Plan.short true).family ![3, 4] := rfl
  have stores : (freshWork .lenient (ofMatrix .lenient (1 : Matrix (Fin 2) (Fin 2) ℝ))
      (.secant .usual) ()).solver.Stores (Plan.short true).family (1 : Matrix (Fin 2) (Fin 2) ℝ) :=
    ⟨rfl, rfl⟩
  obtain ⟨-, outcomes, -⟩ := run_moves quarterTurn (Quadratic.problem_follows 1 0 0 (Plan.short true).family)
    (VectorCode.problem_follows _ (Plan.short true).family) start stores fits .still
  refine ⟨?_, outcomes⟩
  have turned : quarterTurn.point ![3, 4] = ![-3, 4] := by
    ext i
    fin_cases i <;> norm_num [Motion.point, quarterTurn, mulVec, dotProduct, Fin.sum_univ_two]
  exact congrArg (ofVector .lenient) ((congrArg _ (toVector_ofVector .lenient _)).trans turned)

end RankOne

end QuasiNewton
