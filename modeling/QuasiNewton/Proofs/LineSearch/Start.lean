import QuasiNewton.Proofs.Exact.Vectors
import QuasiNewton.Proofs.LineSearch.Recording

/-!
# A search from a known start

A search that succeeds is taken back to its parts by `LineSearch.run_parts`. A solver hands a search its
start point with the gradient and the cost there. From such a start nothing is evaluated before the first
trial: the run is the search of its method along the line, and the point it accepts is the point at the
step length found.
-/

set_option autoImplicit false

namespace QuasiNewton

open Attempt Matrix Tensor

variable {σ : Type} {p : Problem ℝ σ} {family : Family} {x g d : Tensor ℝ}

namespace LineSearch

/-- A search that succeeds went along a direction of descent from the gradient and the cost at its start. -/
theorem run_parts {α : Type} [Scalar α] {s : LineSearch α} {p : Problem α σ} {x d : Tensor α}
    {l l' : Ledger σ} (point : s.start.point? = some x) (direction : s.start.direction? = some d)
    {a : Accepted α} (h : (s.run p).outcome l = (.ok a, l')) :
    ∃ family gradient t cost u slope, Family.ofTensor x = .ok family ∧
      (s.startGradient p x).outcome l = (.ok gradient, t) ∧ (s.startCost p x).outcome t = (.ok cost, u) ∧
      family.dot gradient d = .ok slope ∧ slope < 0 ∧
      (s.method.search (p.line family x d) cost slope).outcome u = (.ok ⟨a.alpha, a.cost, a.trials⟩, l') ∧
      family.scaledAdd x (.real a.alpha) d = .ok a.point := by
  simp only [run, point, direction, bind_ok, ofExcept_ok, ofOperands_ok] at h
  obtain ⟨family, _, ⟨found, rfl⟩, gradient, t, first, cost, u, second, slope, _, ⟨product, rfl⟩, h⟩ := h
  split at h
  case isFalse => exact absurd h throw_ok
  case isTrue descent =>
    simp only [bind_ok, pure_ok, Problem.pointAt, ofOperands_ok] at h
    obtain ⟨step, _, searched, reached, _, ⟨moved, rfl⟩, rfl, rfl⟩ := h
    exact ⟨family, gradient, t, cost, u, slope, found, first, second, product, descent, searched, moved⟩

theorem run_of_descent (method : Method ℝ) {cost slope : ℝ} (hfamily : Family.ofTensor x = .ok family)
    (hslope : family.dot g d = .ok slope) (descent : slope < 0) :
    (LineSearch.mk method ⟨some x, some g, some cost, some d⟩).run p = (do
      let step ← method.search (p.line family x d) cost slope
      return ⟨← Problem.pointAt family x d step.alpha, step.cost, step.alpha, step.trials⟩) := by
  simp only [run, startGradient, startCost, hfamily, ofExcept_of_ok, Exact.isFinite_eq, if_true,
    pure_bind, hslope, ofOperands_of_ok, descent]

/-- A search from a known start ensures what its method ensures along the ray of two vectors. -/
theorem run_ensures_of_descent (method : Method ℝ) {n : ℕ} {x g d : Fin n → ℝ} {cost : ℝ}
    (descent : g ⬝ᵥ d < 0) {ledger : Ledger σ} {P : Accepted ℝ → Ledger σ → Prop} {E : Fault ℝ → Ledger σ → Prop}
    (searched : (method.search (p.line family (ofVector family x) (ofVector family d)) cost (g ⬝ᵥ d)).Ensures
      ledger (fun step t => P ⟨ofVector family (x + step.alpha • d), step.cost, step.alpha, step.trials⟩ t) E) :
    ((LineSearch.mk method ⟨some (ofVector family x), some (ofVector family g), some cost,
      some (ofVector family d)⟩).run p).Ensures ledger P E := by
  rw [run_of_descent method (Family.ofTensor_ofVector _ _) (Family.dot_ofVector _ _ _) descent, ensures_bind]
  refine searched.mono (fun step t good => ?_) fun _ _ => id
  simp only [Problem.pointAt, Family.scaledAdd_ofVector, ofOperands_of_ok, pure_bind, ensures_pure]
  exact good

/-- A search from a known start that succeeds went along a direction of descent. -/
theorem run_ok {method : Method ℝ} {cost : ℝ} {ledger after : Ledger σ} {found : Accepted ℝ}
    (h : ((LineSearch.mk method ⟨some x, some g, some cost, some d⟩).run p).outcome ledger =
      (.ok found, after)) :
    ∃ family slope, Family.ofTensor x = .ok family ∧ family.dot g d = .ok slope ∧ slope < 0 ∧
      (method.search (p.line family x d) cost slope).outcome ledger =
        (.ok ⟨found.alpha, found.cost, found.trials⟩, after) ∧
      family.scaledAdd x (.real found.alpha) d = .ok found.point := by
  obtain ⟨family, _, _, _, _, slope, hfamily, first, second, hslope, descent, found', hpoint⟩ :=
    run_parts rfl rfl h
  simp only [startGradient, startCost, Exact.isFinite_eq, if_true, pure_ok] at first second
  obtain ⟨rfl, rfl⟩ := first
  obtain ⟨rfl, rfl⟩ := second
  exact ⟨family, slope, hfamily, hslope, descent, found', hpoint⟩

end LineSearch

end QuasiNewton
