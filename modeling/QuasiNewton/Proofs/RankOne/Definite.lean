import QuasiNewton.Proofs.Exact.Pivots
import QuasiNewton.Proofs.LineSearch.Faults
import QuasiNewton.Proofs.RankOne.Correction
import QuasiNewton.Proofs.RankOne.Order

/-!
# Corrections of definite matrices

A correction adds to the form `x · H x` of the matrix the multiple `(v · x)² / (v · y)` of a square
(`corrected_form`). Where `v · y` is positive, a positive definite matrix stays positive definite. Where it is
negative, the inequality of Cauchy and Schwarz for the form says how much the square can take at most, and at the
vector `H⁻¹ v` it takes just as much: the matrix stays positive definite if and only if `v · H⁻¹ v` is less than
`-(v · y)` (`corrected_posDef_iff`). The guard of a correction permits either sign of `v · y`. As long as the
matrix is positive definite, the cost falls along every direction that the solver takes, and no search is refused
for its direction, whatever else may fail (`step_not_refused`).
-/

set_option autoImplicit false

namespace QuasiNewton.RankOne

open Attempt Exact Matrix Tensor
open QuasiNewton.Decimal (NumberText)

variable {σ : Type} {n : ℕ}

/-! ### Forms -/

section Forms

variable {H : Matrix (Fin n) (Fin n) ℝ} {s y : Fin n → ℝ}

/-- A correction adds a multiple of a square to the form. -/
theorem corrected_form (x : Fin n → ℝ) :
    x ⬝ᵥ corrected H s y *ᵥ x = x ⬝ᵥ H *ᵥ x + (residual H s y ⬝ᵥ x) ^ 2 / (residual H s y ⬝ᵥ y) := by
  rw [corrected_mulVec, dotProduct_add, dotProduct_smul, smul_eq_mul, dotProduct_comm x (residual H s y),
    div_mul_eq_mul_div, ← sq]

theorem mulVec_inv_mulVec (hH : H.PosDef) (v : Fin n → ℝ) : H *ᵥ (H⁻¹ *ᵥ v) = v := by
  rw [mulVec_mulVec, mul_nonsing_inv H ((isUnit_iff_isUnit_det H).mp hH.isUnit), one_mulVec]

/-- The inequality of Cauchy and Schwarz for a product of which one factor is measured by the inverse. -/
theorem dotProduct_sq_le (hH : H.PosDef) (v x : Fin n → ℝ) :
    (v ⬝ᵥ x) ^ 2 ≤ (x ⬝ᵥ H *ᵥ x) * (v ⬝ᵥ H⁻¹ *ᵥ v) := by
  have bound := dotProduct_mulVec_sq_le hH.posSemidef x (H⁻¹ *ᵥ v)
  rwa [mulVec_inv_mulVec hH, dotProduct_comm x, dotProduct_comm (H⁻¹ *ᵥ v)] at bound

theorem corrected_posDef_of_pos (hH : H.PosDef) (adds : 0 < residual H s y ⬝ᵥ y) :
    (corrected H s y).PosDef := by
  obtain ⟨symm, positive⟩ := posDef_iff_real.mp hH
  refine posDef_iff_real.mpr ⟨corrected_isSymm symm, fun x moves => ?_⟩
  rw [corrected_form]
  exact add_pos_of_pos_of_nonneg (positive x moves) (div_nonneg (sq_nonneg _) adds.le)

/-- What a correction with a negative product takes from the form at a vector is less than the form there. -/
theorem corrected_form_pos_iff (takes : residual H s y ⬝ᵥ y < 0) (x : Fin n → ℝ) :
    0 < x ⬝ᵥ corrected H s y *ᵥ x ↔
      (residual H s y ⬝ᵥ x) ^ 2 < x ⬝ᵥ H *ᵥ x * -(residual H s y ⬝ᵥ y) := by
  have size : 0 < -(residual H s y ⬝ᵥ y) := neg_pos.mpr takes
  rw [corrected_form, ← div_lt_iff₀ size, div_neg, neg_lt_iff_pos_add]

theorem corrected_posDef_iff_of_neg (hH : H.PosDef) (takes : residual H s y ⬝ᵥ y < 0) :
    (corrected H s y).PosDef ↔
      residual H s y ⬝ᵥ H⁻¹ *ᵥ residual H s y < -(residual H s y ⬝ᵥ y) := by
  obtain ⟨symm, positive⟩ := posDef_iff_real.mp hH
  rw [posDef_iff_real, and_iff_right (corrected_isSymm symm)]
  simp only [corrected_form_pos_iff takes]
  generalize residual H s y = v at takes ⊢
  constructor
  · intro definite
    -- at this vector the inequality of Cauchy and Schwarz is an equality
    have moves : H⁻¹ *ᵥ v ≠ 0 := by
      intro stays
      have none : v = 0 := by rw [← mulVec_inv_mulVec hH v, stays, mulVec_zero]
      rw [none, zero_dotProduct] at takes
      exact lt_irrefl 0 takes
    have less := definite _ moves
    have form := positive _ moves
    rw [mulVec_inv_mulVec hH, dotProduct_comm _ v] at less form
    rw [sq] at less
    exact lt_of_mul_lt_mul_left less form.le
  · intro less x moves
    exact (dotProduct_sq_le hH v x).trans_lt (mul_lt_mul_of_pos_left less (positive x moves))

/-- A correction keeps a matrix positive definite if it adds to the form, or takes less than the form. -/
theorem corrected_posDef_iff (hH : H.PosDef) (nonzero : residual H s y ⬝ᵥ y ≠ 0) :
    (corrected H s y).PosDef ↔ 0 < residual H s y ⬝ᵥ y ∨
      residual H s y ⬝ᵥ H⁻¹ *ᵥ residual H s y < -(residual H s y ⬝ᵥ y) := by
  rcases nonzero.lt_or_gt with takes | adds
  · rw [corrected_posDef_iff_of_neg hH takes, or_iff_right takes.not_gt]
  · exact iff_of_true (corrected_posDef_of_pos hH adds) (.inl adds)

/-- Along the direction of a positive definite matrix the cost falls. -/
theorem slope_neg_of_posDef (hH : H.PosDef) {g : Fin n → ℝ} (steep : g ≠ 0) : g ⬝ᵥ -(H *ᵥ g) < 0 := by
  rw [dotProduct_neg]
  exact neg_lt_zero.mpr ((posDef_iff_real.mp hH).2 g steep)

end Forms

/-! ### Searches that are not refused -/

section Faults

variable {α : Type} [Scalar α] {E : Fault α → Prop}

theorem ofEvaluation_failsOnly {β : Type} {e : Evaluation α σ β} (h : e.FailsOnly E) :
    (SolverM.ofEvaluation e : SolverM α (RankOne α) σ β).FailsOnly E := h.onPart

variable [NumberText α] (mismatch : ∀ cause, E (.mismatch cause))

include mismatch

/-- A correction fails for its operands only. -/
theorem update_failsOnly (s y : Tensor α) : (update s y : SolverM α (RankOne α) σ Bool).FailsOnly E := by
  refine FailsOnly.states.bind fun w => (FailsOnly.ofOperands _ mismatch).bind fun outcome =>
    (FailsOnly.change _).bind fun _ => ?_
  cases outcome with
  | skipped size threshold => exact (FailsOnly.change _).bind fun _ => .pure _
  | made inverse =>
    refine FailsOnly.states.bind fun w => ?_
    dsimp only
    split
    · refine (FailsOnly.ofOperands _ mismatch).bind fun definite => ?_
      cases definite with
      | true => exact .pure _
      | false => exact (FailsOnly.change _).bind fun _ => .pure _
    · exact .pure _

variable {p : Problem α σ} {state : IterState α} {g : Tensor α} {w : Workspace (RankOne α) σ}
  (asked : ∀ z, (p.evaluateGradient z).FailsOnly E) (searched : (w.solver.searchOf p state g).FailsOnly E)

include asked searched

/-- A step fails as its search does, as gradients do, or for its operands. -/
theorem stepFrom_ensures : (stepFrom p state g).Ensures w (fun _ _ => True) fun e _ => E e := by
  rw [stepFrom_eq, ensures_bind, ensures_get]
  refine ((ofEvaluation_failsOnly searched).bind fun found => ?_) w
  refine (ofEvaluation_failsOnly (asked found.point)).bind fun gradient => ?_
  refine (FailsOnly.ofOperands _ mismatch).bind fun y => (FailsOnly.ofOperands _ mismatch).bind fun s => ?_
  exact (update_failsOnly mismatch s y).bind fun _ => .pure _

theorem step_ensures (stage : ∀ status, E (.stage name status)) (known : state.gradient? = some g) :
    (step p state).Ensures w (fun _ _ => True) fun e _ => E e := by
  have staged : (SolverM.requireStage name [.iterating] : SolverM α (RankOne α) σ Unit).Ensures w
      (fun _ t => t = w) fun e _ => E e := by
    simp only [SolverM.requireStage, ensures_bind, ensures_get]
    split
    · exact rfl
    · exact stage _
  simp only [step, known]
  rw [ensures_bind]
  refine staged.mono (fun _ t same => ?_) fun _ _ => id
  rw [same]
  exact stepFrom_ensures mismatch asked searched

end Faults

section Steps

/-- The search of a step is not refused if the cost falls along the direction of its matrix. -/
theorem Stores.searchOf_not_refused {r : RankOne ℝ} {family : Family} {H : Matrix (Fin n) (Fin n) ℝ}
    (stores : r.Stores family H) (p : Problem ℝ σ) {x g : Fin n → ℝ} (descent : g ⬝ᵥ -(H *ᵥ g) < 0)
    {state : IterState ℝ} (point : state.point = ofVector family x) :
    (r.searchOf p state (ofVector family g)).FailsOnly Fault.NotOfDirection := by
  simp only [searchOf, stores.direction_eq, ofOperands_of_ok, pure_bind, point]
  exact LineSearch.run_not_refused p rfl rfl rfl (Family.ofTensor_ofVector family x)
    (Family.dot_ofVector family g _) descent

variable [NumberText ℝ]

/-- **A step is not refused for its direction if the cost falls along it**, whatever the problem answers. -/
theorem step_not_refused (p : Problem ℝ σ) {family : Family} {H : Matrix (Fin n) (Fin n) ℝ}
    {w : Workspace (RankOne ℝ) σ} (stores : w.solver.Stores family H) {x g : Fin n → ℝ}
    (descent : g ⬝ᵥ -(H *ᵥ g) < 0) {state : IterState ℝ} (point : state.point = ofVector family x)
    (gradient : state.gradient? = some (ofVector family g)) :
    (step p state).Ensures w (fun _ _ => True) fun e _ => e.NotOfDirection :=
  step_ensures (fun _ => Fault.notOfDirection_of_ofSearch rfl) p.evaluateGradient_notOfDirection
    (stores.searchOf_not_refused p descent point) (fun _ => Fault.notOfDirection_of_ofSearch rfl) gradient

/-- **When a correction keeps the matrix positive definite.** Where a call answers that a correction was made, a
positive definite matrix has stayed so if and only if `v · y` is positive, or negative and larger in size than
`v · H⁻¹ v`. Where it is positive, the cost falls along the next direction, whatever the gradient is unless it is
zero, and the search of the next step is not refused. -/
theorem made_correction_posDef_iff {family : Family} {H : Matrix (Fin n) (Fin n) ℝ} (definite : H.PosDef)
    {s y : Fin n → ℝ} {work after : Workspace (RankOne ℝ) σ} (stores : work.solver.Stores family H)
    (made : (update (ofVector family s) (ofVector family y)).outcome work = (.ok true, after)) :
    let v := s - H *ᵥ y
    ∃ H', after.solver.Stores family H' ∧
      (H'.PosDef ↔ 0 < v ⬝ᵥ y ∨ v ⬝ᵥ H⁻¹ *ᵥ v < -(v ⬝ᵥ y)) ∧
      (0 < v ⬝ᵥ y → ∀ g : Fin n → ℝ, g ≠ 0 →
        after.solver.direction (ofVector family g) = .ok (ofVector family (-(H' *ᵥ g))) ∧
        g ⬝ᵥ -(H' *ᵥ g) < 0 ∧
        ∀ (p : Problem ℝ σ) (x : Fin n → ℝ) (state : IterState ℝ) (next : Workspace (RankOne ℝ) σ),
          state.point = ofVector family x → state.gradient? = some (ofVector family g) →
          next.solver = after.solver →
          ∀ slope last, (step p state).outcome next ≠ (.error (.search (.notDescent slope)), last)) := by
  intro v
  obtain ⟨nonzero, stores'⟩ := stores.of_update made
  refine ⟨corrected H s y, stores', corrected_posDef_iff definite nonzero, fun adds g steep => ?_⟩
  have descent := slope_neg_of_posDef (corrected_posDef_of_pos definite adds) steep
  refine ⟨stores'.direction_eq g, descent, fun p x state next point gradient same slope last refused => ?_⟩
  exact (step_not_refused p (same ▸ stores') descent point gradient).of_error refused slope rfl

end Steps

/-- For instance, the identity is corrected for the step `(2, 1)` and the change `(1, 1)` to a positive definite
matrix, along whose directions the cost falls. -/
theorem unitWork_stays_posDef : ∃ after, ∃ H' : Matrix (Fin 2) (Fin 2) ℝ,
    (update (ofVector .lenient ![2, 1]) (ofVector .lenient ![1, 1])).outcome unitWork = (.ok true, after) ∧
      after.solver.Stores .lenient H' ∧ H'.PosDef ∧ ∀ g, g ≠ 0 → g ⬝ᵥ -(H' *ᵥ g) < 0 := by
  obtain ⟨after, made⟩ := unitWork_corrected
  obtain ⟨H', stores, definite, falls⟩ := made_correction_posDef_iff PosDef.one unitWork_stores made
  have adds : 0 < residual (1 : Matrix (Fin 2) (Fin 2) ℝ) ![2, 1] ![1, 1] ⬝ᵥ ![1, 1] := by
    rw [residual_unit]
    norm_num [dotProduct, Fin.sum_univ_two]
  exact ⟨after, H', made, stores, definite.mpr (.inl adds), fun g steep => (falls adds g steep).2.1⟩

end QuasiNewton.RankOne
