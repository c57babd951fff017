import QuasiNewton.Proofs.Objective.Analytic

/-!
# Central differences

For a cost that is a function `f` of a vector, the gradient by central differences consists of the
quotients `(f (x + eps e) - f (x - eps e)) / (2 eps)` for the unit vectors `e`. On a quadratic cost with a
symmetric matrix these are the entries of the gradient, whatever the distance `eps` is.
-/

set_option autoImplicit false

namespace QuasiNewton

open Matrix Tensor

variable {σ : Type} {n : ℕ}

/-! ### Code with a known answer -/

section Code

variable {ε δ β γ : Type}

/-- From every state the code answers `x`. -/
def AnswersAlways (code : ExceptT ε (StateM σ) β) (x : β) : Prop := ∀ s, (code.run.run s).1 = .ok x

namespace AnswersAlways

theorem pure (x : β) : AnswersAlways (Pure.pure x : ExceptT ε (StateM σ) β) x := fun _ => rfl

theorem bind {code : ExceptT ε (StateM σ) β} {next : β → ExceptT ε (StateM σ) γ} {x : β} {y : γ}
    (first : AnswersAlways code x) (second : AnswersAlways (next x) y) :
    AnswersAlways (code >>= next) y := by
  intro s
  have answered := first s
  simp only [ExceptT.run_bind, StateT.run_bind]
  rcases run : code.run.run s with ⟨answer, t⟩
  obtain rfl : answer = .ok x := by rw [← answered, run]
  exact second t

theorem adapt {code : ExceptT ε (StateM σ) β} {x : β} (h : AnswersAlways code x) (f : ε → δ) :
    AnswersAlways (code.adapt f) x := by
  intro s
  exact congrArg (Except.mapError f) (h s)

theorem ofFnM {n : Nat} {code : Fin n → ExceptT ε (StateM σ) β} {x : Fin n → β}
    (h : ∀ i, AnswersAlways (code i) (x i)) : AnswersAlways (Vector.ofFnM code) (Vector.ofFn x) := by
  induction n with
  | zero =>
    rw [Vector.ofFnM_zero, @Vector.eq_empty _ (Vector.ofFn x)]
    exact pure _
  | succ n ih =>
    rw [Vector.ofFnM_succ, Vector.ofFn_succ]
    exact (ih fun i => h i.castSucc).bind ((h (Fin.last n)).bind (pure _))

end AnswersAlways

end Code

namespace Differences

/-! ### Quotients of a function of a vector -/

theorem offset_vector (x : Fin n → ℝ) (eps : ℝ) (i place : Fin n) :
    offset (.ofFn x) eps i place = (Pi.single i eps : Fin n → ℝ) place := by
  have own : (place : ℕ) / 1 = i ↔ place = i := by rw [Nat.div_one, Fin.val_inj]
  rw [Pi.single_apply]
  exact if_congr own rfl rfl

theorem ahead_ofFn (x : Fin n → ℝ) (eps : ℝ) (i : Fin n) :
    ahead (.ofFn x) eps i = .ofFn (x + Pi.single i eps) := by
  have entry (place : Fin n) : (Vector.ofFn x).get place + offset (.ofFn x) eps i place =
      (x + Pi.single i eps : Fin n → ℝ) place := by
    rw [Dense.get_ofFn, offset_vector, Pi.add_apply]
  exact congrArg Dense.ofFn (funext entry)

theorem behind_ofFn (x : Fin n → ℝ) (eps : ℝ) (i : Fin n) :
    behind (.ofFn x) eps i = .ofFn (x - Pi.single i eps) := by
  have entry (place : Fin n) : (Vector.ofFn x).get place - offset (.ofFn x) eps i place =
      (x - Pi.single i eps : Fin n → ℝ) place := by
    rw [Dense.get_ofFn, offset_vector, Pi.sub_apply]
  exact congrArg Dense.ofFn (funext entry)

/-- The central differences of a function. -/
noncomputable def ofFunction (f : (Fin n → ℝ) → ℝ) (x : Fin n → ℝ) (eps : ℝ) : Fin n → ℝ :=
  fun i => (f (x + Pi.single i eps) - f (x - Pi.single i eps)) / (2 * eps)

variable {code : Dense ℝ → ExceptT Raised (StateM σ) ℝ} {f : (Fin n → ℝ) → ℝ}

theorem quotient_answers (h : ∀ z, AnswersAlways (code (.ofFn z)) (f z)) (x : Fin n → ℝ) (eps : ℝ)
    (i : Fin n) :
    AnswersAlways (quotient code (.ofFn x) eps i) (ofFunction f x eps i) := by
  unfold quotient
  rw [ahead_ofFn, behind_ofFn]
  refine ((h _).adapt _).bind (((h _).adapt _).bind ?_)
  have two : (2.0 : ℝ) = 2 := by norm_num
  rw [two]
  exact .pure _

theorem gradient_answers (h : ∀ z, AnswersAlways (code (.ofFn z)) (f z)) (x : Fin n → ℝ) (eps : ℝ) :
    AnswersAlways (gradient code (.ofFn x) eps)
      (.ofFn (ofFunction f x eps)) := by
  have found := AnswersAlways.ofFnM fun i => quotient_answers h x eps i
  have unfolded : gradient code (.ofFn x) eps =
      Vector.ofFnM (fun i : Fin n => quotient code (.ofFn x) eps i) >>= fun quotients =>
        Pure.pure ⟨[n], quotients⟩ :=
    dif_pos rfl
  rw [unfolded]
  exact found.bind (.pure _)

/-- On a quadratic cost the quotients are the gradient of the symmetric part of its matrix. -/
theorem ofFunction_value (A : Matrix (Fin n) (Fin n) ℝ) (b : Fin n → ℝ) (c : ℝ) (x : Fin n → ℝ)
    {eps : ℝ} (distant : eps ≠ 0) :
    ofFunction (Quadratic.value A b c) x eps = (1 / 2 : ℝ) • ((A + Aᵀ) *ᵥ x) - b := by
  funext i
  have turned (d : Fin n → ℝ) : x ⬝ᵥ A *ᵥ d = (Aᵀ *ᵥ x) ⬝ᵥ d := by
    rw [dotProduct_mulVec, mulVec_transpose]
  have apart (d : Fin n → ℝ) :
      Quadratic.value A b c (x + d) - Quadratic.value A b c (x - d) =
        ((A + Aᵀ) *ᵥ x - (2 : ℝ) • b) ⬝ᵥ d := by
    simp only [Quadratic.value, mulVec_add, mulVec_sub, dotProduct_add, dotProduct_sub, add_dotProduct,
      sub_dotProduct, add_mulVec, smul_dotProduct, turned, dotProduct_comm d (A *ᵥ x), smul_eq_mul]
    ring
  rw [ofFunction, apart, dotProduct_single]
  simp only [Pi.sub_apply, Pi.smul_apply, smul_eq_mul]
  field_simp

/-- On a quadratic cost with a symmetric matrix the quotients are exact. -/
theorem ofFunction_value_symm {A : Matrix (Fin n) (Fin n) ℝ} (symm : A.IsSymm) (b : Fin n → ℝ) (c : ℝ)
    (x : Fin n → ℝ) {eps : ℝ} (distant : eps ≠ 0) :
    ofFunction (Quadratic.value A b c) x eps = A *ᵥ x - b := by
  rw [ofFunction_value A b c x distant, symm.eq, add_mulVec, ← two_smul ℝ, smul_smul]
  norm_num

end Differences

namespace Problem

open Attempt Evaluation

/-- The same cost, to be differentiated by central differences. -/
def withoutGradient {α : Type} (p : Problem α σ) : Problem α σ := { p with gradient? := none }

/-- A gradient by central differences takes two evaluations of the cost for each unknown. -/
theorem outcome_differences {p : Problem ℝ σ} {family : Family} {f : (Fin n → ℝ) → ℝ}
    (h : ∀ z, AnswersAlways (p.cost (ofVector family z)) (f z)) {l : Ledger σ} (fits : l.Fits family)
    (x : Fin n → ℝ) :
    ∃ s, (p.withoutGradient.evaluateGradient (ofVector family x)).outcome l =
      (.ok (ofVector family (Differences.ofFunction f x Differences.standardStep)),
        ⟨some family, l.costCalls + 2 * n, l.gradientCalls, s⟩) := by
  have adopted (z : Fin n → ℝ) :
      AnswersAlways (p.cost (family.adopt (.ofFn z) (ofVector family x))) (f z) := by
    rw [Family.adopt_ofFn]
    exact h z
  have answered : AnswersAlways (Differences.gradient
      (fun z => p.cost (family.adopt z (ofVector family x))) (.ofFn x) Differences.standardStep)
      (.ofFn (Differences.ofFunction f x Differences.standardStep)) :=
    Differences.gradient_answers adopted x _
  have evaluations : Differences.evaluations (Dense.ofFn x) = 2 * n := rfl
  simp only [evaluateGradient, askGradient, differentiate, withoutGradient, outcome_bind,
    outcome_family_of_fits fits, outcome_consult, values_ofVector, answered l.state, outcome_modify,
    outcome_pure, Family.adopt_ofFn, checkGradient_ofVector x _ (.inl rfl), Ledger.countCost,
    evaluations]
  exact ⟨_, rfl⟩

end Problem

end QuasiNewton
