import QuasiNewton.Proofs.Exact.Vectors
import QuasiNewton.LineSearch.Search
import QuasiNewton.Objective.Quadratic
import QuasiNewton.Proofs.LineSearch.Recording
import QuasiNewton.Proofs.Objective.Steady

/-!
# Problems that compute functions

A problem computes a cost and a gradient as functions of a vector if its code answers their values at
every array of a family that holds a vector; the gradient may be answered as such an array or as a plain
list. Counted evaluations of such a problem never fail, and along a ray they answer the values of the
functions on that ray. Quadratic problems compute the quadratic function of their matrix.
-/

set_option autoImplicit false

namespace QuasiNewton

open Attempt Matrix Tensor

variable {σ : Type} {n : ℕ}

/-- The family of a ledger, if it is known, is the given one. -/
def Ledger.Fits (l : Ledger σ) (family : Family) : Prop := ∀ g ∈ l.family?, g = family

theorem Ledger.fits_of_eq {l : Ledger σ} {family : Family} (h : l.family? = some family) :
    l.Fits family := by
  intro g hg
  exact Option.some.inj (hg.symm.trans h)

namespace Problem

/-- The code of a problem computes the cost `f` and the gradient `g`. -/
structure Computes (p : Problem ℝ σ) (family : Family) (f : (Fin n → ℝ) → ℝ)
    (g : (Fin n → ℝ) → Fin n → ℝ) : Prop where
  cost : ∀ x s, ((p.cost (ofVector family x)).run.run s).1 = .ok (f x)
  gradient : ∃ code, p.gradient? = some code ∧ ∀ x s, ∃ t,
    ((code (ofVector family x)).run.run s).1 = .ok (.tensor t) ∧
      (t = ofVector family (g x) ∨ t = .list (.ofFn (g x)))

end Problem

namespace Evaluation

theorem outcome_family_of_fits {l : Ledger σ} {family : Family} (fits : l.Fits family)
    (x : Fin n → ℝ) :
    (Evaluation.family (ofVector family x) : Evaluation ℝ σ Family).outcome l =
      (.ok family, { l with family? := some family }) := by
  rw [outcome_family, Family.ofTensor_ofVector]
  rcases l with ⟨_ | f, costCalls, gradientCalls, state⟩
  · rfl
  · obtain rfl : f = family := fits f rfl
    rfl

end Evaluation

namespace Problem

open Evaluation

variable {p : Problem ℝ σ} {family : Family} {f : (Fin n → ℝ) → ℝ} {g : (Fin n → ℝ) → Fin n → ℝ}
  {l : Ledger σ}

/-- A counted evaluation of the cost answers the value of the function. -/
theorem Computes.outcome_cost (h : p.Computes family f g) (fits : l.Fits family) (x : Fin n → ℝ) :
    ∃ s, (p.evaluateCost (ofVector family x)).outcome l =
      (.ok (f x), ⟨some family, l.costCalls + 1, l.gradientCalls, s⟩) := by
  simp only [evaluateCost, outcome_bind, outcome_family_of_fits fits, outcome_modify, outcome_consult,
    h.cost, Exact.isFinite_eq, if_true, outcome_pure, Ledger.countCost]
  exact ⟨_, rfl⟩

theorem Computes.cost_ensures (h : p.Computes family f g) (fits : l.Fits family) (x : Fin n → ℝ) :
    (p.evaluateCost (ofVector family x)).Ensures l
      (fun cost t => cost = f x ∧ t.family? = some family) fun _ _ => False := by
  obtain ⟨s, run⟩ := h.outcome_cost fits x
  exact ensures_of_ok run ⟨rfl, rfl⟩

/-- An answer for a gradient is checked and turned into an array of the family. -/
theorem checkGradient_ofVector (x v : Fin n → ℝ) {t : Tensor ℝ}
    (answer : t = ofVector family v ∨ t = .list (.ofFn v)) :
    (checkGradient family (ofVector family x) (.tensor t) : Evaluation ℝ σ (Tensor ℝ)) =
      pure (ofVector family v) := by
  have turned : (if t.family?.isNone then family.adopt t.values (ofVector family x) else t) =
      ofVector family v := by
    rcases answer with rfl | rfl
    · rfl
    · exact Family.adopt_ofFn family x v
  simp only [checkGradient, turned, shape_ofVector, ofOperands_of_ok, pure_bind, ne_eq,
    not_true_eq_false, if_false, Family.allFinite_ofVector, if_true]

/-- A counted evaluation of the gradient answers the value of the gradient. -/
theorem Computes.outcome_gradient (h : p.Computes family f g) (fits : l.Fits family) (x : Fin n → ℝ) :
    ∃ s, (p.evaluateGradient (ofVector family x)).outcome l =
      (.ok (ofVector family (g x)), ⟨some family, l.costCalls, l.gradientCalls + 1, s⟩) := by
  obtain ⟨code, given, answers⟩ := h.gradient
  obtain ⟨t, answered, vector⟩ := answers x l.state
  simp only [evaluateGradient, askGradient, given, outcome_bind, outcome_family_of_fits fits,
    outcome_modify, outcome_consult, Ledger.countGradient, answered, outcome_pure,
    checkGradient_ofVector x (g x) vector]
  exact ⟨_, rfl⟩

theorem Computes.gradient_ensures (h : p.Computes family f g) (fits : l.Fits family)
    (x : Fin n → ℝ) :
    (p.evaluateGradient (ofVector family x)).Ensures l
      (fun gradient t => gradient = ofVector family (g x) ∧ t.family? = some family)
      fun _ _ => False := by
  obtain ⟨s, run⟩ := h.outcome_gradient fits x
  exact ensures_of_ok run ⟨rfl, rfl⟩

theorem Computes.line_cost_ensures (h : p.Computes family f g) (fits : l.Fits family)
    (x d : Fin n → ℝ) (alpha : ℝ) :
    ((p.line family (ofVector family x) (ofVector family d)).cost alpha).Ensures l
      (fun cost t => cost = f (x + alpha • d) ∧ t.Fits family) fun _ _ => False := by
  simp only [line, pointAt, Family.scaledAdd_ofVector, ofOperands_of_ok, pure_bind]
  refine (h.cost_ensures fits _).mono (fun cost t => ?_) fun _ _ => id
  rintro ⟨answer, known⟩
  exact ⟨answer, Ledger.fits_of_eq known⟩

theorem Computes.line_slope_ensures (h : p.Computes family f g) (fits : l.Fits family)
    (x d : Fin n → ℝ) (alpha : ℝ) :
    ((p.line family (ofVector family x) (ofVector family d)).slope alpha).Ensures l
      (fun slope t => slope = g (x + alpha • d) ⬝ᵥ d ∧ t.Fits family) fun _ _ => False := by
  simp only [line, pointAt, Family.scaledAdd_ofVector, ofOperands_of_ok, pure_bind, ensures_bind]
  refine (h.gradient_ensures fits _).mono (fun gradient t => ?_) fun _ _ => id
  rintro ⟨answer, known⟩
  rw [answer, Family.dot_ofVector, ofOperands_of_ok, ensures_pure]
  exact ⟨rfl, Ledger.fits_of_eq known⟩

/-- Along a ray a problem answers the values of its functions on the ray. -/
theorem Computes.line_answers (h : p.Computes family f g) (x d : Fin n → ℝ) :
    (p.line family (ofVector family x) (ofVector family d)).Answers (fun l => l.Fits family)
      (fun alpha cost => cost = f (x + alpha • d)) (fun alpha slope => slope = g (x + alpha • d) ⬝ᵥ d)
      fun _ => False where
  cost alpha _ _ fits := (h.line_cost_ensures fits x d alpha).mono (fun _ _ => id) fun _ _ => False.elim
  slope alpha _ _ fits := (h.line_slope_ensures fits x d alpha).mono (fun _ _ => id) fun _ _ => False.elim

end Problem

namespace Quadratic

variable (A : Matrix (Fin n) (Fin n) ℝ) (b : Fin n → ℝ) (c : ℝ)

/-- The quadratic cost of a matrix. -/
def ofMatrix : Quadratic ℝ n where
  matrix := (Dense.matrix fun i j => A i j).entries
  linear := .ofFn b
  constant := c

/-- The value of a quadratic cost. -/
noncomputable def value (x : Fin n → ℝ) : ℝ := 0.5 * (x ⬝ᵥ A *ᵥ x) - b ⬝ᵥ x + c

theorem value_add (symm : A.IsSymm) (x d : Fin n → ℝ) :
    value A b c (x + d) = value A b c x + (A *ᵥ x - b) ⬝ᵥ d + 0.5 * (d ⬝ᵥ A *ᵥ d) := by
  have crossed : d ⬝ᵥ A *ᵥ x = A *ᵥ x ⬝ᵥ d := dotProduct_comm _ _
  have turned : x ⬝ᵥ A *ᵥ d = A *ᵥ x ⬝ᵥ d := (Exact.mulVec_dotProduct symm x d).symm
  simp only [value, mulVec_add, dotProduct_add, add_dotProduct, sub_dotProduct, crossed, turned]
  ring

/-- Along a ray a quadratic cost is a parabola, and its slope is linear. -/
theorem value_ray (symm : A.IsSymm) (x d : Fin n → ℝ) (alpha : ℝ) :
    value A b c (x + alpha • d) =
      value A b c x + alpha * ((A *ᵥ x - b) ⬝ᵥ d) + alpha ^ 2 / 2 * (d ⬝ᵥ A *ᵥ d) := by
  rw [value_add A b c symm, dotProduct_smul, mulVec_smul, smul_dotProduct, dotProduct_smul]
  simp only [smul_eq_mul]
  ring

theorem slope_ray (x d : Fin n → ℝ) (alpha : ℝ) :
    (A *ᵥ (x + alpha • d) - b) ⬝ᵥ d = (A *ᵥ x - b) ⬝ᵥ d + alpha * (d ⬝ᵥ A *ᵥ d) := by
  rw [mulVec_add, mulVec_smul, add_sub_right_comm, add_dotProduct, smul_dotProduct, smul_eq_mul,
    dotProduct_comm (A *ᵥ d)]

theorem unknowns_ofVector (family : Family) (x : Fin n → ℝ) :
    unknowns n (ofVector family x) = some (Vector.ofFn x) := by
  have enough : n ≤ (ofVector family x).values.shape.size := by
    simp [Dense.ofFn, Dense.vector, Shape.size]
  unfold unknowns
  rw [dif_pos enough]
  refine congrArg some (Vector.ext fun i hi => ?_)
  exact (Vector.getElem_cast hi).trans (Vector.getElem_take _)

theorem products_ofMatrix (x : Fin n → ℝ) :
    (ofMatrix A b c).products (Vector.ofFn x) = Vector.ofFn (A *ᵥ x) := by
  have sums := Dense.mulVec_matrix (.real .double) x fun i j => A i j
  simp only [Exact.sum_eq] at sums
  exact sums

theorem cost_ofVector (family : Family) (x : Fin n → ℝ) :
    ((ofMatrix A b c).problem : Problem ℝ σ).cost (ofVector family x) = pure (value A b c x) := by
  have computed : (ofMatrix A b c).cost (Vector.ofFn x) = value A b c x := by
    have linear : (ofMatrix A b c).linear = Vector.ofFn b := rfl
    simp only [Quadratic.cost, products_ofMatrix, linear, Family.dot_entries]
    rfl
  simp only [problem, ofUnknowns, unknowns_ofVector, computed]

theorem gradient_ofVector (family : Family) (x : Fin n → ℝ) :
    (ofUnknowns (fun v => .tensor (.list (.vector ((ofMatrix A b c).gradient v)))) (ofVector family x) :
      ExceptT Raised (StateM σ) (Reply ℝ)) = pure (.tensor (.list (.ofFn (A *ᵥ x - b)))) := by
  have computed : (ofMatrix A b c).gradient (Vector.ofFn x) = Vector.ofFn (A *ᵥ x - b) := by
    rw [gradient, products_ofMatrix]
    refine Vector.ext fun i hi => ?_
    simp [ofMatrix]
  simp only [ofUnknowns, unknowns_ofVector, computed]
  rfl

/-- A quadratic problem computes its quadratic function. -/
theorem problem_computes (family : Family) :
    ((ofMatrix A b c).problem (σ := σ)).Computes family (value A b c) fun x => A *ᵥ x - b where
  cost x s := by
    rw [cost_ofVector]
    rfl
  gradient := by
    refine ⟨_, rfl, fun x s => ⟨_, ?_, .inr rfl⟩⟩
    rw [gradient_ofVector]
    rfl

/-- Half the square of the length of a point with two entries. -/
def halfSquare : Quadratic ℝ 2 := ofMatrix 1 0 0

theorem halfSquare_computes (family : Family) :
    (halfSquare.problem (σ := σ)).Computes family (value 1 0 0) fun x : Fin 2 → ℝ => 1 *ᵥ x - 0 :=
  problem_computes 1 0 0 family

end Quadratic

end QuasiNewton
