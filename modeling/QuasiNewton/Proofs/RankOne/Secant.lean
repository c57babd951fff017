import QuasiNewton.Proofs.Exact.Vectors
import QuasiNewton.Proofs.RankOne.Step

/-!
# Secant equations

A correction makes the matrix map the change `y` of the gradient to the step `s`. On a quadratic cost,
where `y = A s`, it also keeps every equation `H (A t) = t` that held before: what the step misses,
`v = s - H y`, is orthogonal to `A t`. The module proves this of matrices, and that a correction by the
solver is this correction of its matrix, or none.
-/

set_option autoImplicit false

namespace QuasiNewton.RankOne

open Attempt Matrix Tensor
open QuasiNewton.Decimal (NumberText)

variable {σ : Type} {n : ℕ}

section Matrices

variable (H : Matrix (Fin n) (Fin n) ℝ) (s y : Fin n → ℝ)

/-- What the matrix misses of a step. -/
def residual : Fin n → ℝ := s - H *ᵥ y

/-- The matrix after a correction. -/
noncomputable def corrected : Matrix (Fin n) (Fin n) ℝ :=
  H + (1 / (residual H s y ⬝ᵥ y)) • vecMulVec (residual H s y) (residual H s y)

variable {H s y} {A : Matrix (Fin n) (Fin n) ℝ}

theorem vecMulVec_self_isSymm (u : Fin n → ℝ) : (vecMulVec u u).IsSymm := by
  ext i j
  exact mul_comm _ _

theorem corrected_isSymm (hH : H.IsSymm) : (corrected H s y).IsSymm :=
  hH.add ((vecMulVec_self_isSymm _).smul _)

/-- What a correction adds to a product is a multiple of the residual. -/
theorem corrected_mulVec (u : Fin n → ℝ) :
    corrected H s y *ᵥ u =
      H *ᵥ u + ((residual H s y ⬝ᵥ u) / (residual H s y ⬝ᵥ y)) • residual H s y := by
  rw [corrected, add_mulVec, smul_mulVec, vecMulVec_mulVec, op_smul_eq_smul, smul_smul]
  congr 2
  ring

theorem corrected_mulVec_self (h : residual H s y ⬝ᵥ y ≠ 0) : corrected H s y *ᵥ y = s := by
  rw [corrected_mulVec, div_self h, one_smul, residual, add_sub_cancel]

/-- A correction changes nothing in directions that are orthogonal to the residual. -/
theorem corrected_mulVec_of_orthogonal {u : Fin n → ℝ} (h : residual H s y ⬝ᵥ u = 0) :
    corrected H s y *ᵥ u = H *ᵥ u := by
  rw [corrected_mulVec, h, zero_div, zero_smul, add_zero]

/-- On a quadratic cost the residual is orthogonal to all changes of the gradient for which the secant
equation holds. -/
theorem residual_orthogonal (hA : A.IsSymm) (hH : H.IsSymm) {t : Fin n → ℝ}
    (ht : H *ᵥ (A *ᵥ t) = t) (s : Fin n → ℝ) : residual H s (A *ᵥ s) ⬝ᵥ A *ᵥ t = 0 := by
  calc residual H s (A *ᵥ s) ⬝ᵥ A *ᵥ t
      = s ⬝ᵥ A *ᵥ t - H *ᵥ (A *ᵥ s) ⬝ᵥ A *ᵥ t := sub_dotProduct _ _ _
    _ = s ⬝ᵥ A *ᵥ t - A *ᵥ s ⬝ᵥ H *ᵥ (A *ᵥ t) := by rw [Exact.mulVec_dotProduct hH]
    _ = s ⬝ᵥ A *ᵥ t - A *ᵥ s ⬝ᵥ t := by rw [ht]
    _ = 0 := by rw [Exact.mulVec_dotProduct hA, sub_self]

theorem corrected_mulVec_of_secant (hA : A.IsSymm) (hH : H.IsSymm) {t : Fin n → ℝ}
    (ht : H *ᵥ (A *ᵥ t) = t) (s : Fin n → ℝ) : corrected H s (A *ᵥ s) *ᵥ (A *ᵥ t) = t := by
  rw [corrected_mulVec_of_orthogonal (residual_orthogonal hA hH ht s), ht]

theorem secant_of_mem_span {ι : Type} {t : ι → Fin n → ℝ} (ht : ∀ i, H *ᵥ (A *ᵥ t i) = t i)
    {u : Fin n → ℝ} (hu : u ∈ Submodule.span ℝ (Set.range t)) : H *ᵥ (A *ᵥ u) = u := by
  induction hu using Submodule.span_induction with
  | mem x hx =>
    obtain ⟨i, rfl⟩ := hx
    exact ht i
  | zero => simp
  | add x y _ _ hx hy => rw [mulVec_add, mulVec_add, hx, hy]
  | smul c x _ hx => rw [mulVec_smul, mulVec_smul, hx]

/-- A matrix that satisfies the secant equations of steps that span everything is the inverse. -/
theorem mul_eq_one_of_span_eq_top {ι : Type} {t : ι → Fin n → ℝ}
    (ht : ∀ i, H *ᵥ (A *ᵥ t i) = t i) (spans : Submodule.span ℝ (Set.range t) = ⊤) : H * A = 1 := by
  refine ext_of_mulVec_single fun i => ?_
  rw [← mulVec_mulVec, one_mulVec]
  exact secant_of_mem_span ht (spans ▸ Submodule.mem_top)

end Matrices

/-! ### The matrix of the solver -/

/-- The solver computes in a family and holds a matrix. -/
structure Stores (r : RankOne ℝ) (family : Family) (H : Matrix (Fin n) (Fin n) ℝ) : Prop where
  family_eq : r.family = family
  inverse_eq : r.inverse = ofMatrix family H

variable {r : RankOne ℝ} {family : Family} {H : Matrix (Fin n) (Fin n) ℝ}

theorem Stores.direction_eq (h : r.Stores family H) (g : Fin n → ℝ) :
    r.direction (ofVector family g) = .ok (ofVector family (-(H *ᵥ g))) := by
  simp only [direction, h.family_eq, h.inverse_eq, Family.mulVec_ofMatrix, bind, Except.bind,
    scale_ofVector, neg_smul, one_smul]

/-- What is computed for a correction: it is skipped where `v · y` is zero or below the threshold. -/
theorem Stores.correction_decided (h : r.Stores family H) (s y : Fin n → ℝ) :
    let v := residual H s y
    let threshold := r.tolerances.denominator * (s ⬝ᵥ s) * (v ⬝ᵥ v)
    r.correction (ofVector family s) (ofVector family y) =
      if v ⬝ᵥ y == 0 || decide (|v ⬝ᵥ y| < threshold) then .ok (.skipped |v ⬝ᵥ y| threshold)
      else .ok (.made (ofMatrix family (corrected H s y))) := by
  simp only [correction, h.family_eq, h.inverse_eq, Family.mulVec_ofMatrix, bind, Except.bind,
    sub_ofVector, Family.dot_ofVector, Family.outer_ofVector, scale_ofMatrix, add_ofMatrix]
  rfl

/-- A correction by the solver is skipped, or it is the correction of its matrix. -/
theorem Stores.correction_eq (h : r.Stores family H) (s y : Fin n → ℝ) :
    (∃ size threshold,
      r.correction (ofVector family s) (ofVector family y) = .ok (.skipped size threshold)) ∨
      residual H s y ⬝ᵥ y ≠ 0 ∧ r.correction (ofVector family s) (ofVector family y) =
        .ok (.made (ofMatrix family (corrected H s y))) := by
  rw [h.correction_decided]
  split
  case isTrue => exact .inl ⟨_, _, rfl⟩
  case isFalse kept => exact .inr ⟨by simp_all, rfl⟩

theorem Stores.unique {H' : Matrix (Fin n) (Fin n) ℝ} (h : r.Stores family H) (h' : r.Stores family H') :
    H = H' := by
  have same : ofMatrix family H = ofMatrix family H' := h.inverse_eq.symm.trans h'.inverse_eq
  rw [← toMatrix_ofMatrix family H, same, toMatrix_ofMatrix]

/-- A correction that is skipped leaves the matrix as it is, and one that is made corrects it. -/
theorem Stores.apply_correction (h : r.Stores family H) {s y : Fin n → ℝ} {c : Correction ℝ}
    (computed : r.correction (ofVector family s) (ofVector family y) = .ok c) :
    c.isMade = false ∧ (r.apply c).Stores family H ∨
      c.isMade = true ∧ residual H s y ⬝ᵥ y ≠ 0 ∧ (r.apply c).Stores family (corrected H s y) := by
  rcases h.correction_eq s y with ⟨size, threshold, skipped⟩ | ⟨large, made⟩
  · obtain rfl := Except.ok.inj (skipped.symm.trans computed)
    exact .inl ⟨rfl, h.family_eq, h.inverse_eq⟩
  · obtain rfl := Except.ok.inj (made.symm.trans computed)
    exact .inr ⟨rfl, large, h.family_eq, rfl⟩

variable [NumberText ℝ]

theorem Stores.update_eq {w : Workspace (RankOne ℝ) σ} (h : w.solver.Stores family H)
    (s y : Fin n → ℝ) :
    ∃ answer w', (update (ofVector family s) (ofVector family y)).outcome w = (.ok answer, w') ∧
      (answer = false ∧ w'.solver.Stores family H ∨
        answer = true ∧ residual H s y ⬝ᵥ y ≠ 0 ∧ w'.solver.Stores family (corrected H s y)) := by
  obtain ⟨c, computed, examinable⟩ : ∃ c,
      w.solver.correction (ofVector family s) (ofVector family y) = .ok c ∧ c.Examinable := by
    rcases h.correction_eq s y with ⟨size, threshold, skipped⟩ | ⟨large, made⟩
    · exact ⟨_, skipped, nofun⟩
    · refine ⟨_, made, ?_⟩
      rintro _ ⟨⟩
      exact isDefinite_ofMatrix _ _ _
  obtain ⟨w', run, solver, -, -⟩ := update_succeeds computed examinable
  have after := h.apply_correction computed
  rw [← solver] at after
  exact ⟨_, w', run, after⟩

/-- A call that answers that a correction was made has corrected the matrix. -/
theorem Stores.of_update {w w' : Workspace (RankOne ℝ) σ} (h : w.solver.Stores family H)
    {s y : Fin n → ℝ}
    (made : (update (ofVector family s) (ofVector family y)).outcome w = (.ok true, w')) :
    residual H s y ⬝ᵥ y ≠ 0 ∧ w'.solver.Stores family (corrected H s y) := by
  obtain ⟨c, computed, answer, solver, -, -⟩ := update_ok made
  rw [solver]
  rcases h.apply_correction computed with ⟨skipped, -⟩ | ⟨-, corrected⟩
  · exact absurd (answer.trans skipped) nofun
  · exact corrected

/-- A correction that passes the guard is made. -/
theorem Stores.update_of_passes {w : Workspace (RankOne ℝ) σ} (h : w.solver.Stores family H)
    {s y : Fin n → ℝ} (nonzero : residual H s y ⬝ᵥ y ≠ 0)
    (passes : w.solver.tolerances.denominator * (s ⬝ᵥ s) * (residual H s y ⬝ᵥ residual H s y) ≤
      |residual H s y ⬝ᵥ y|) :
    ∃ w', (update (ofVector family s) (ofVector family y)).outcome w = (.ok true, w') := by
  have computed : w.solver.correction (ofVector family s) (ofVector family y) =
      .ok (.made (ofMatrix family (corrected H s y))) := by
    rw [h.correction_decided, if_neg]
    simpa [nonzero] using passes
  obtain ⟨w', run, -⟩ := update_succeeds computed fun _ same =>
    Correction.made.inj same ▸ isDefinite_ofMatrix family _ _
  exact ⟨w', run⟩

end QuasiNewton.RankOne
