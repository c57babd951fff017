import Mathlib.Algebra.Order.Star.Real
import Mathlib.Analysis.Matrix.Normed
import Mathlib.LinearAlgebra.Matrix.DotProduct
import QuasiNewton.Proofs.RankOne.Correction

/-!
# How far corrections lead

A correction adds the square of the residual `v = s - H y`, divided by `v · y`. In the Frobenius norm, which is
the norm of this module, the square of a vector is as large as its squared length, so that a correction moves the
matrix by `(v · v) / |v · y|` (`norm_corrected_sub`). The guard lets a correction pass only where `|v · y|` is at
least the tolerance times `(s · s) (v · v)`, and this is what bounds the move: by one divided by the tolerance and
by `s · s` (`norm_corrected_sub_le`). The bounds of calls in a row add up, whichever of them are skipped.
-/

set_option autoImplicit false

namespace QuasiNewton.RankOne

open Attempt Matrix Tensor
open QuasiNewton.Decimal (NumberText)
open scoped Matrix.Norms.Frobenius

variable {σ : Type} {n : ℕ} {H : Matrix (Fin n) (Fin n) ℝ} {s y : Fin n → ℝ}

/-! ### The size of a correction -/

theorem norm_vecMulVec_self (v : Fin n → ℝ) : ‖vecMulVec v v‖ = v ⬝ᵥ v := by
  have squares : ∑ i, ∑ j, ‖vecMulVec v v i j‖ ^ (2 : ℝ) = (v ⬝ᵥ v) ^ 2 := by
    rw [sq, dotProduct, Finset.sum_mul_sum]
    refine Finset.sum_congr rfl fun i _ => Finset.sum_congr rfl fun j _ => ?_
    rw [vecMulVec_apply, Real.rpow_two, Real.norm_eq_abs, sq_abs]
    ring
  rw [frobenius_norm_def, squares, ← Real.sqrt_eq_rpow]
  exact Real.sqrt_sq (dotProduct_star_self_nonneg v)

theorem norm_corrected_sub (H : Matrix (Fin n) (Fin n) ℝ) (s y : Fin n → ℝ) :
    ‖corrected H s y - H‖ = (residual H s y ⬝ᵥ residual H s y) / |residual H s y ⬝ᵥ y| := by
  rw [corrected, add_sub_cancel_left, norm_smul, norm_vecMulVec_self, norm_div, norm_one, Real.norm_eq_abs,
    one_div_mul_eq_div]

/-- The guard for a step and the change of the gradient along it. -/
def PassesGuard (tolerance : ℝ) (H : Matrix (Fin n) (Fin n) ℝ) (s y : Fin n → ℝ) : Prop :=
  residual H s y ⬝ᵥ y ≠ 0 ∧
    tolerance * (s ⬝ᵥ s) * (residual H s y ⬝ᵥ residual H s y) ≤ |residual H s y ⬝ᵥ y|

/-- A correction that passes the guard does not move the matrix far, unless the step is short. -/
theorem norm_corrected_sub_le {tolerance size : ℝ} (positive : 0 < tolerance) (some : 0 < size)
    (long : size ≤ s ⬝ᵥ s) (passes : PassesGuard tolerance H s y) :
    ‖corrected H s y - H‖ ≤ 1 / (tolerance * size) := by
  obtain ⟨nonzero, guarded⟩ := passes
  have missed : 0 ≤ residual H s y ⬝ᵥ residual H s y := dotProduct_star_self_nonneg _
  rw [norm_corrected_sub, div_le_div_iff₀ (abs_pos.mpr nonzero) (mul_pos positive some), one_mul]
  calc residual H s y ⬝ᵥ residual H s y * (tolerance * size)
      = tolerance * size * (residual H s y ⬝ᵥ residual H s y) := mul_comm _ _
    _ ≤ tolerance * (s ⬝ᵥ s) * (residual H s y ⬝ᵥ residual H s y) := by gcongr
    _ ≤ |residual H s y ⬝ᵥ y| := guarded

/-! ### Calls in a row -/

section Calls

variable {family : Family} {r : RankOne ℝ} {work : Workspace (RankOne ℝ) σ}

/-- A correction that is made has passed the guard. -/
theorem Stores.passes_of_made (stores : r.Stores family H) {c : Correction ℝ}
    (computed : r.correction (ofVector family s) (ofVector family y) = .ok c) (made : c.isMade = true) :
    PassesGuard r.tolerances.denominator H s y := by
  rw [stores.correction_decided] at computed
  split at computed
  case isTrue =>
    cases computed
    cases made
  case isFalse kept =>
    simpa [PassesGuard] using kept

variable [NumberText ℝ]

/-- A call never fails. It leaves the matrix as it is, or it corrects it and the correction passes the guard; the
tolerances stay. -/
theorem Stores.update_guarded (stores : work.solver.Stores family H) (s y : Fin n → ℝ) :
    ∃ answer after H', (update (ofVector family s) (ofVector family y)).outcome work = (.ok answer, after) ∧
      after.solver.tolerances = work.solver.tolerances ∧ after.solver.Stores family H' ∧
      (answer = false ∧ H' = H ∨
        answer = true ∧ H' = corrected H s y ∧ PassesGuard work.solver.tolerances.denominator H s y) := by
  obtain ⟨answer, after, run, decided⟩ := stores.update_eq s y
  obtain ⟨c, computed, made, solver, -, -⟩ := update_ok run
  have kept : after.solver.tolerances = work.solver.tolerances := solver ▸ (apply_search _ c).2
  obtain ⟨skipped, same⟩ | ⟨answered, -, changed⟩ := decided
  · exact ⟨answer, after, H, run, kept, same, .inl ⟨skipped, rfl⟩⟩
  · have passes := stores.passes_of_made computed (made.symm.trans answered)
    exact ⟨answer, after, corrected H s y, run, kept, changed, .inr ⟨answered, rfl, passes⟩⟩

/-- A row of calls, each with a step and a change of the gradient. -/
noncomputable def callsWith (family : Family) (pairs : List ((Fin n → ℝ) × (Fin n → ℝ))) :
    SolverM ℝ (RankOne ℝ) σ (List Bool) :=
  pairs.mapM fun pair => update (ofVector family pair.1) (ofVector family pair.2)

theorem callsWith_cons {pairs : List ((Fin n → ℝ) × (Fin n → ℝ))} {answer : Bool} {answers : List Bool}
    {between after : Workspace (RankOne ℝ) σ}
    (first : (update (ofVector family s) (ofVector family y)).outcome work = (.ok answer, between))
    (rest : (callsWith family pairs).outcome between = (.ok answers, after)) :
    (callsWith family ((s, y) :: pairs)).outcome work = (.ok (answer :: answers), after) := by
  rw [callsWith] at rest ⊢
  rw [List.mapM_cons, outcome_bind, first]
  simp only [outcome_bind, rest, outcome_pure]

/-- One call with a step that is long enough moves the matrix by no more than its bound. -/
theorem Stores.update_moves_le (stores : work.solver.Stores family H)
    (positive : 0 < work.solver.tolerances.denominator) {size : ℝ} (some : 0 < size)
    (long : size ≤ s ⬝ᵥ s) (y : Fin n → ℝ) :
    ∃ answer after H', (update (ofVector family s) (ofVector family y)).outcome work = (.ok answer, after) ∧
      after.solver.tolerances = work.solver.tolerances ∧ after.solver.Stores family H' ∧
      ‖H' - H‖ ≤ 1 / (work.solver.tolerances.denominator * size) := by
  obtain ⟨answer, after, H', run, kept, holds, ⟨-, rfl⟩ | ⟨-, rfl, passes⟩⟩ := stores.update_guarded s y
  · refine ⟨answer, after, _, run, kept, holds, ?_⟩
    rw [sub_self, norm_zero]
    positivity
  · exact ⟨answer, after, _, run, kept, holds, norm_corrected_sub_le positive some long passes⟩

/-- The moves of a row of calls add up to the bound of one call times their number. The induction is on the calls,
from whatever matrix the calls before have left. -/
theorem Stores.callsWith_move_le (stores : work.solver.Stores family H)
    (positive : 0 < work.solver.tolerances.denominator) {size : ℝ} (some : 0 < size)
    (pairs : List ((Fin n → ℝ) × (Fin n → ℝ))) (long : ∀ pair ∈ pairs, size ≤ pair.1 ⬝ᵥ pair.1) :
    ∃ answers after H', (callsWith family pairs).outcome work = (.ok answers, after) ∧
      answers.length = pairs.length ∧ after.solver.Stores family H' ∧
      ‖H' - H‖ ≤ pairs.length * (1 / (work.solver.tolerances.denominator * size)) := by
  induction pairs generalizing work H with
  | nil => exact ⟨[], work, H, rfl, rfl, stores, by simp⟩
  | cons pair pairs ih =>
    obtain ⟨answer, between, H₁, first, kept, stores₁, moved⟩ :=
      stores.update_moves_le positive some (long pair List.mem_cons_self) pair.2
    obtain ⟨answers, after, H₂, rest, length, stores₂, others⟩ :=
      ih stores₁ (kept ▸ positive) fun later listed => long later (List.mem_cons_of_mem _ listed)
    rw [kept] at others
    refine ⟨answer :: answers, after, H₂, callsWith_cons first rest, congrArg Nat.succ length, stores₂, ?_⟩
    calc ‖H₂ - H‖
        ≤ ‖H₂ - H₁‖ + ‖H₁ - H‖ := norm_sub_le_norm_sub_add_norm_sub _ _ _
      _ ≤ pairs.length * (1 / (work.solver.tolerances.denominator * size)) +
            1 / (work.solver.tolerances.denominator * size) := add_le_add others moved
      _ = (pair :: pairs).length * (1 / (work.solver.tolerances.denominator * size)) := by
        rw [List.length_cons]
        push_cast
        ring

/-- **The guard bounds the corrections.** Where a call with a step other than zero answers that a correction was
made, the matrix has moved by `(v · v) / |v · y|` in the Frobenius norm, which is at most one divided by the
tolerance and by `s · s`. A row of calls never fails, and however many of them are skipped, the matrix ends no
farther from where it began than as many of these bounds as there were calls, with a least squared length of
their steps in the place of `s · s`. -/
theorem guard_bounds_corrections (stores : work.solver.Stores family H)
    (positive : 0 < work.solver.tolerances.denominator) :
    (∀ (s y : Fin n → ℝ) (after : Workspace (RankOne ℝ) σ), s ≠ 0 →
      (update (ofVector family s) (ofVector family y)).outcome work = (.ok true, after) →
      let v := s - H *ᵥ y
      ∃ H', after.solver.Stores family H' ∧ ‖H' - H‖ = (v ⬝ᵥ v) / |v ⬝ᵥ y| ∧
        ‖H' - H‖ ≤ 1 / (work.solver.tolerances.denominator * (s ⬝ᵥ s))) ∧
    (∀ (size : ℝ) (pairs : List ((Fin n → ℝ) × (Fin n → ℝ))), 0 < size →
      (∀ pair ∈ pairs, size ≤ pair.1 ⬝ᵥ pair.1) →
      ∃ answers after H', (callsWith family pairs).outcome work = (.ok answers, after) ∧
        answers.length = pairs.length ∧ after.solver.Stores family H' ∧
        ‖H' - H‖ ≤ pairs.length / (work.solver.tolerances.denominator * size)) := by
  constructor
  · intro s y after nonzero made
    have length : 0 < s ⬝ᵥ s := dotProduct_star_self_pos_iff.mpr nonzero
    obtain ⟨answer, after', H', run, -, holds, decided⟩ := stores.update_guarded s y
    obtain ⟨answered, rfl⟩ := Prod.mk.inj (made.symm.trans run)
    obtain rfl := Except.ok.inj answered
    obtain ⟨skipped, -⟩ | ⟨-, rfl, passes⟩ := decided
    · exact absurd skipped nofun
    · exact ⟨_, holds, norm_corrected_sub H s y, norm_corrected_sub_le positive length le_rfl passes⟩
  · intro size pairs some long
    obtain ⟨answers, after, H', run, length, holds, moved⟩ :=
      stores.callsWith_move_le positive some pairs long
    exact ⟨answers, after, H', run, length, holds, by rwa [mul_one_div] at moved⟩

end Calls

/-- For instance, the correction of the identity for the step `(2, 1)` and the change `(1, 1)` moves it by one,
and two calls with this step move it by no more than two divided by five times the tolerance. -/
theorem unitWork_moves :
    (∃ after, ∃ H' : Matrix (Fin 2) (Fin 2) ℝ,
      (update (ofVector .lenient ![2, 1]) (ofVector .lenient ![1, 1])).outcome unitWork = (.ok true, after) ∧
        after.solver.Stores .lenient H' ∧ ‖H' - 1‖ = 1) ∧
    ∃ answers after, ∃ H' : Matrix (Fin 2) (Fin 2) ℝ,
      (callsWith .lenient [(![2, 1], ![1, 1]), (![2, 1], ![0, 3])]).outcome unitWork = (.ok answers, after) ∧
        after.solver.Stores .lenient H' ∧ ‖H' - 1‖ ≤ 2 / (1e-8 * 5) := by
  have tolerance : unitWork.solver.tolerances.denominator = 1e-8 := rfl
  have positive : 0 < unitWork.solver.tolerances.denominator := by
    rw [tolerance]
    norm_num
  obtain ⟨single, row⟩ := guard_bounds_corrections unitWork_stores positive
  constructor
  · obtain ⟨after, made⟩ := unitWork_corrected
    have nonzero : (![2, 1] : Fin 2 → ℝ) ≠ 0 := by simp
    obtain ⟨H', holds, moved, -⟩ := single _ _ after nonzero made
    have missed : ![2, 1] - (1 : Matrix (Fin 2) (Fin 2) ℝ) *ᵥ ![1, 1] = ![1, 0] := residual_unit
    refine ⟨after, H', made, holds, moved.trans ?_⟩
    rw [missed]
    norm_num [dotProduct, Fin.sum_univ_two]
  · obtain ⟨answers, after, H', run, -, holds, moved⟩ :=
      row 5 [(![2, 1], ![1, 1]), (![2, 1], ![0, 3])] (by norm_num)
        (by norm_num [dotProduct, Fin.sum_univ_two])
    refine ⟨answers, after, H', run, holds, ?_⟩
    rw [tolerance] at moved
    simpa using moved

end QuasiNewton.RankOne
