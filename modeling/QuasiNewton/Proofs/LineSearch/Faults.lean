import QuasiNewton.Proofs.LineSearch.Rescaling
import QuasiNewton.Proofs.Objective.Checked

/-!
# How searches fail

A search can fail as its line does, or by itself: for one of the causes that its method reports, which do not
include a direction of ascent (`Method.search_faults`). Evaluations do not fail as searches do. So a search along
a direction of descent is not refused for its direction, whatever the problem answers
(`LineSearch.run_not_refused`).
-/

set_option autoImplicit false

namespace QuasiNewton

open Attempt

variable {σ : Type} {line : Line ℝ σ} {I : σ → Prop} {E : Fault ℝ → Prop} {st : σ}

/-- A line that corresponds to itself on the scale it has leads a method to faults of the line and to its own
ones only. -/
theorem Method.search_faults (method : Method ℝ)
    (own : ∀ cause : SearchFault ℝ, cause.ofMethod = true → E (.search cause))
    (cost : ∀ alpha s, I s → (line.cost alpha).Ensures s (fun _ t => I t) fun e t => E e ∧ I t)
    (slope : ∀ alpha s, I s → (line.slope alpha).Ensures s (fun _ t => I t) fun e t => E e ∧ I t)
    (startCost startSlope : ℝ) (hI : I st) :
    (method.search line startCost startSlope).Ensures st (fun _ t => I t) fun e t => E e ∧ I t := by
  have same : line.Rescales (fun s t => t = s ∧ I s) (fun e _ => E e) 1 0 line := by
    refine ⟨fun alpha => ?_, fun alpha => ?_⟩
    · refine (corresponds_self (cost alpha)).mono (fun c c' same => ?_) fun _ _ => id
      rw [same, one_mul, add_zero]
    · refine (corresponds_self (slope alpha)).mono (fun c c' same => ?_) fun _ _ => id
      rw [same, one_mul]
  have searched := method.search_rescales one_pos own same startCost startSlope
  rw [one_mul, one_mul, add_zero] at searched
  exact searched.ensures_self hI

theorem Method.search_failsOnly (method : Method ℝ)
    (own : ∀ cause : SearchFault ℝ, cause.ofMethod = true → E (.search cause))
    (cost : ∀ alpha, (line.cost alpha).FailsOnly E) (slope : ∀ alpha, (line.slope alpha).FailsOnly E)
    (startCost startSlope : ℝ) : (method.search line startCost startSlope).FailsOnly E := by
  have always {β : Type} {a : Attempt ℝ σ β} (h : a.FailsOnly E) (s : σ) :
      a.Ensures s (fun _ _ => True) fun e _ => E e ∧ True :=
    (h s).mono (fun _ _ => id) fun _ _ holds => ⟨holds, trivial⟩
  intro s
  exact (method.search_faults (I := fun _ => True) own (fun alpha s _ => always (cost alpha) s)
    (fun alpha s _ => always (slope alpha) s) startCost startSlope trivial).mono (fun _ _ => id)
    fun _ _ => And.left

/-! ### Refused directions -/

/-- A fault other than that of a direction along which the cost does not fall. -/
def Fault.NotOfDirection (e : Fault ℝ) : Prop := ∀ slope, e ≠ .search (.notDescent slope)

theorem Fault.notOfDirection_of_ofSearch {e : Fault ℝ} (h : e.ofSearch = false) : e.NotOfDirection := by
  rintro slope rfl
  cases h

theorem SearchFault.notOfDirection {cause : SearchFault ℝ} (own : cause.ofMethod = true) :
    (Fault.search cause).NotOfDirection := by
  rintro slope same
  obtain rfl := Fault.search.inj same
  cases own

namespace Problem

variable (p : Problem ℝ σ)

theorem evaluateCost_notOfDirection (x : Tensor ℝ) :
    (p.evaluateCost x).FailsOnly Fault.NotOfDirection :=
  (p.evaluateCost_failsOnly x).mono fun _ => Fault.notOfDirection_of_ofSearch

theorem evaluateGradient_notOfDirection (x : Tensor ℝ) :
    (p.evaluateGradient x).FailsOnly Fault.NotOfDirection :=
  (p.evaluateGradient_failsOnly x).mono fun _ => Fault.notOfDirection_of_ofSearch

theorem pointAt_notOfDirection (family : Family) (x d : Tensor ℝ) (alpha : ℝ) :
    (pointAt family x d alpha : Evaluation ℝ σ _).FailsOnly Fault.NotOfDirection :=
  .ofOperands _ fun _ => Fault.notOfDirection_of_ofSearch rfl

theorem line_cost_notOfDirection (family : Family) (x d : Tensor ℝ) (alpha : ℝ) :
    ((p.line family x d).cost alpha).FailsOnly Fault.NotOfDirection :=
  (pointAt_notOfDirection family x d alpha).bind p.evaluateCost_notOfDirection

theorem line_slope_notOfDirection (family : Family) (x d : Tensor ℝ) (alpha : ℝ) :
    ((p.line family x d).slope alpha).FailsOnly Fault.NotOfDirection :=
  (pointAt_notOfDirection family x d alpha).bind fun point =>
    (p.evaluateGradient_notOfDirection point).bind fun _ =>
      .ofOperands _ fun _ => Fault.notOfDirection_of_ofSearch rfl

end Problem

/-- **A search from a known gradient is not refused for its direction if the cost falls along it.** -/
theorem LineSearch.run_not_refused (p : Problem ℝ σ) {s : LineSearch ℝ} {x g d : Tensor ℝ} {family : Family}
    {slope : ℝ} (point : s.start.point? = some x) (gradient : s.start.gradient? = some g)
    (direction : s.start.direction? = some d) (found : Family.ofTensor x = .ok family)
    (product : family.dot g d = .ok slope) (descent : slope < 0) :
    (s.run p).FailsOnly Fault.NotOfDirection := by
  have cost : (s.startCost p x).FailsOnly Fault.NotOfDirection := by
    unfold startCost
    split
    · split
      · exact .pure _
      · exact p.evaluateCost_notOfDirection x
    · exact p.evaluateCost_notOfDirection x
  simp only [run, point, direction, found, startGradient, gradient, ofExcept_of_ok, pure_bind, product,
    ofOperands_of_ok, if_pos descent]
  exact cost.bind fun startCost =>
    (s.method.search_failsOnly (fun _ => SearchFault.notOfDirection) (p.line_cost_notOfDirection family x d)
      (p.line_slope_notOfDirection family x d) startCost slope).bind fun step =>
    (Problem.pointAt_notOfDirection family x d step.alpha).bind fun _ => .pure _

end QuasiNewton
