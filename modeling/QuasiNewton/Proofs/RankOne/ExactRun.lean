import QuasiNewton.Proofs.RankOne.Conjugate
import QuasiNewton.Proofs.RankOne.VectorRun

/-!
# Runs that make exact steps

A run on a quadratic cost makes exact steps if every search ends where the slope is zero (`EndsFlat`) and
corrections are skipped only where nothing is to be corrected (`SkipsIdle`). Both are said of the arrays
that the run itself computes with; on vectors they are equations of linear algebra.
-/

set_option autoImplicit false

namespace QuasiNewton.RankOne

open Attempt Matrix Tensor
open QuasiNewton.Decimal (NumberText)

variable {σ : Type} {n : ℕ}

/-- The search between two checks has ended where the slope along its direction is zero. -/
def EndsFlat (c c' : Checkpoint ℝ (RankOne ℝ) σ) : Prop :=
  ∃ g g' d, c.run.state.gradient? = some g ∧ c'.run.state.gradient? = some g' ∧
    c.run.work.solver.direction g = .ok d ∧ c.run.work.solver.family.dot g' d = .ok 0

/-- If the correction between two checks was skipped, nothing was to be corrected: the step `s` and the
change `y` of the gradient leave `s - H y` with norm zero. -/
def SkipsIdle (c c' : Checkpoint ℝ (RankOne ℝ) σ) : Prop :=
  c'.run.work.solver.skips ≠ c.run.work.solver.skips →
    ∃ g g' s y z v, c.run.state.gradient? = some g ∧ c'.run.state.gradient? = some g' ∧
      c'.run.state.point.sub c.run.state.point = .ok s ∧ g'.sub g = .ok y ∧
      c.run.work.solver.family.mulVec c.run.work.solver.inverse y = .ok z ∧ s.sub z = .ok v ∧
      c.run.work.solver.family.norm v = .ok 0

namespace Stands

variable {v : Setting n} {k : ℕ} {c c' : Checkpoint ℝ (RankOne ℝ) σ} {x x' : Fin n → ℝ}
  {H H' : Matrix (Fin n) (Fin n) ℝ}

theorem unique (h : Stands v k c x H) :
    c.run.state.point.toVector n = x ∧ c.run.work.solver.inverse.toMatrix n = H := by
  rw [h.point, h.stores.inverse_eq]
  exact ⟨toVector_ofVector _ _, toMatrix_ofMatrix _ _⟩

theorem eq_of_point (h : Stands v k c x H) (point : c.run.state.point = ofVector v.family x') : x' = x := by
  have same := h.unique.1
  rwa [point, toVector_ofVector] at same

theorem eq_of_rests (h : Stands v k c x H) (h' : Rests v c x' H') : x' = x ∧ H' = H :=
  ⟨h.eq_of_point h'.point, h'.stores.unique h.stores⟩

theorem endsFlat_iff (h : Stands v k c x H) (h' : Stands v (k + 1) c' x' H') :
    EndsFlat c c' ↔ v.gradient x' ⬝ᵥ H *ᵥ v.gradient x = 0 := by
  constructor
  · rintro ⟨g, g', d, hg, hg', hd, slope⟩
    obtain rfl := Option.some.inj (h.gradient.symm.trans hg)
    obtain rfl := Option.some.inj (h'.gradient.symm.trans hg')
    obtain rfl := Except.ok.inj ((h.stores.direction_eq _).symm.trans hd)
    rw [h.stores.family_eq, Family.dot_ofVector, dotProduct_neg] at slope
    exact neg_eq_zero.mp (Except.ok.inj slope)
  · intro flat
    refine ⟨_, _, _, h.gradient, h'.gradient, h.stores.direction_eq _, ?_⟩
    rw [h.stores.family_eq, Family.dot_ofVector, dotProduct_neg, flat, neg_zero]

theorem residual_eq_zero (h : Stands v k c x H) (h' : Stands v (k + 1) c' x' H')
    (idle : SkipsIdle c c') (skipped : c'.run.work.solver.skips = c.run.work.solver.skips + 1) :
    residual H (x' - x) (v.gradient x' - v.gradient x) = 0 := by
  obtain ⟨g, g', s, y, z, u, hg, hg', hs, hy, hz, hu, norm⟩ := idle (by omega)
  obtain rfl := Option.some.inj (h.gradient.symm.trans hg)
  obtain rfl := Option.some.inj (h'.gradient.symm.trans hg')
  rw [h.point, h'.point, sub_ofVector] at hs
  obtain rfl := Except.ok.inj hs
  rw [sub_ofVector] at hy
  obtain rfl := Except.ok.inj hy
  rw [h.stores.family_eq, h.stores.inverse_eq, Family.mulVec_ofMatrix] at hz
  obtain rfl := Except.ok.inj hz
  rw [sub_ofVector] at hu
  obtain rfl := Except.ok.inj hu
  rw [h.stores.family_eq, Family.norm_ofVector] at norm
  exact dotProduct_self_eq_zero.mp
    ((Real.sqrt_eq_zero (Finset.sum_nonneg fun i _ => mul_self_nonneg _)).mp (Except.ok.inj norm))

end Stands

/-! ### The run -/

section Run

variable [NumberText ℝ] (n) (plan : Plan ℝ) (p : Problem ℝ σ) (work : Workspace (RankOne ℝ) σ)
  (clock : Clock ℝ)

/-- The vector at which a run stands after `k` steps, if it gets there. -/
noncomputable def vectorAt (k : ℕ) : Fin n → ℝ :=
  ((plan.checkpoint solver p work clock k).map fun c => c.run.state.point.toVector n).getD 0

/-- The matrix with which a run stands there. -/
noncomputable def matrixAt (k : ℕ) : Matrix (Fin n) (Fin n) ℝ :=
  ((plan.checkpoint solver p work clock k).map fun c => c.run.work.solver.inverse.toMatrix n).getD 0

variable {n plan p work clock} {v : Setting n}

theorem Stands.at_eq {k : ℕ} {c : Checkpoint ℝ (RankOne ℝ) σ} {x : Fin n → ℝ}
    {H : Matrix (Fin n) (Fin n) ℝ} (h : Stands v k c x H)
    (reached : plan.checkpoint solver p work clock k = some c) :
    vectorAt n plan p work clock k = x ∧ matrixAt n plan p work clock k = H := by
  simpa [vectorAt, matrixAt, reached] using h.unique

/-- **A run makes exact steps** on a quadratic cost if its searches end flat and its corrections are
skipped idly only. -/
theorem exactSteps_of_checkpoint {A : Matrix (Fin n) (Fin n) ℝ} {b x₀ : Fin n → ℝ}
    (quadratic : v.gradient = fun x => A *ᵥ x - b)
    (computes : p.Computes v.family v.cost v.gradient) (admissible : v.search.method.Admissible)
    {H₀ : Matrix (Fin n) (Fin n) ℝ} (hH : H₀.IsSymm) (begins : Begins plan work v x₀ H₀)
    (flat : ∀ k c c', plan.checkpoint solver p work clock k = some c →
      plan.checkpoint solver p work clock (k + 1) = some c' → EndsFlat c c')
    (idle : ∀ k c c', plan.checkpoint solver p work clock k = some c →
      plan.checkpoint solver p work clock (k + 1) = some c' → SkipsIdle c c')
    {N : ℕ} {c : Checkpoint ℝ (RankOne ℝ) σ}
    (reached : plan.checkpoint solver p work clock N = some c) :
    ExactSteps A b N (vectorAt n plan p work clock) (matrixAt n plan p work clock) := by
  -- on a quadratic cost the change of the gradient is the matrix times the step
  have change (x x' : Fin n → ℝ) : v.gradient x' - v.gradient x = A *ᵥ (x' - x) := by
    rw [quadratic, mulVec_sub]
    exact sub_sub_sub_cancel_right _ _ _
  have step (k : ℕ) (hk : k < N) : ∃ (alpha : ℝ) (x x' : Fin n → ℝ) (H H' : Matrix (Fin n) (Fin n) ℝ),
      vectorAt n plan p work clock k = x ∧ vectorAt n plan p work clock (k + 1) = x' ∧
      matrixAt n plan p work clock k = H ∧ matrixAt n plan p work clock (k + 1) = H' ∧ 0 < alpha ∧
      0 < v.gradient x ⬝ᵥ H *ᵥ v.gradient x ∧ x' = x - alpha • H *ᵥ v.gradient x ∧
      v.gradient x' ⬝ᵥ H *ᵥ v.gradient x = 0 ∧
      (H' = H ∧ residual H (x' - x) (A *ᵥ (x' - x)) = 0 ∨
        residual H (x' - x) (A *ᵥ (x' - x)) ⬝ᵥ A *ᵥ (x' - x) ≠ 0 ∧
          H' = corrected H (x' - x) (A *ᵥ (x' - x))) := by
    obtain ⟨c', after⟩ := Plan.exists_checkpoint_of_le hk reached
    obtain ⟨c₁, r, before, checked, advanced⟩ := Plan.checkpoint_succ after
    obtain ⟨x, H, stands⟩ := begins.exists_stands computes admissible before
    obtain ⟨x', H', alpha, moves, stands'⟩ := stands.advance computes admissible checked advanced
    refine ⟨alpha, x, x', H, H', (stands.at_eq before).1, (stands'.at_eq after).1,
      (stands.at_eq before).2, (stands'.at_eq after).2, moves.positive, moves.descent, moves.moved,
      (stands.endsFlat_iff stands').mp (flat k c₁ c' before after), ?_⟩
    have corrects := moves.corrects
    rw [change] at corrects
    cases corrects with
    | skipped counted =>
      rw [← change]
      exact .inl ⟨rfl, stands.residual_eq_zero stands' (idle k c₁ c' before after) counted⟩
    | made large => exact .inr ⟨large, rfl⟩
  rw [quadratic] at step
  obtain ⟨first, start⟩ := Plan.exists_checkpoint_of_le (Nat.zero_le N) reached
  have stands := begins.stands computes (Plan.checkpoint_zero start)
  refine ⟨(stands.at_eq start).2 ▸ hH, fun k hk => ?_, fun k hk => ?_, fun k hk => ?_, fun k hk => ?_⟩ <;>
    obtain ⟨alpha, x, x', H, H', rfl, rfl, rfl, rfl, positive, rises, moved, ends, corrects⟩ := step k hk
  · exact ⟨alpha, positive, moved⟩
  · exact rises
  · exact ends
  · exact corrects

end Run

end QuasiNewton.RankOne
