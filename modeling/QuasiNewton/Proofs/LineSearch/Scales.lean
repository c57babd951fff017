import QuasiNewton.Proofs.LineSearch.Descent
import QuasiNewton.Proofs.LineSearch.Rescaling
import QuasiNewton.Proofs.LineSearch.Stretching
import QuasiNewton.Proofs.LineSearch.WolfeSearch
import QuasiNewton.Proofs.Objective.Asked

/-!
# Runs on other scales

A line search from a start on vectors, on a problem that may fail and may have a state. If the costs are multiplied
by a positive number and lifted by a constant, and the gradients are multiplied by the same number, then each of the
three methods makes the same evaluations and finds the same point (`LineSearch.run_rescales`). If the direction is
made longer and the first step length shorter by the same factor, then backtracking and the secant method make the
same evaluations and find the same point (`LineSearch.run_stretches`), as the points on the ray are the same.
-/

set_option autoImplicit false

namespace QuasiNewton

open Attempt Matrix Tensor

variable {σ : Type} {n : ℕ}

/-! ### Records on other scales -/

def Accepted.rescale (scale lift : ℝ) (a : Accepted ℝ) : Accepted ℝ := { a with cost := scale * a.cost + lift }

noncomputable def Accepted.stretch (stretch : ℝ) (a : Accepted ℝ) : Accepted ℝ :=
  { a with alpha := a.alpha / stretch }

/-- Where a search on vectors starts. The gradient and the cost there may be missing. -/
structure Departure (n : ℕ) where
  point : Fin n → ℝ
  gradient? : Option (Fin n → ℝ) := none
  cost? : Option ℝ := none
  direction : Fin n → ℝ

namespace Departure

/-- The start in a family. -/
noncomputable def start (o : Departure n) (family : Family) : Start ℝ :=
  ⟨some (ofVector family o.point), o.gradient?.map (ofVector family), o.cost?, some (ofVector family o.direction)⟩

def rescale (scale lift : ℝ) (o : Departure n) : Departure n :=
  { o with gradient? := o.gradient?.map (scale • ·), cost? := o.cost?.map (scale * · + lift) }

def stretch (stretch : ℝ) (o : Departure n) : Departure n := { o with direction := stretch • o.direction }

end Departure

namespace VectorCode

variable (code : VectorCode n σ) (scale lift : ℝ)

/-- The code with its costs and gradients on another scale. -/
def rescale : VectorCode n σ where
  cost x := (scale * · + lift) <$> code.cost x
  gradient x := (scale • ·) <$> code.gradient x

theorem rescale_maps : code.Maps (code.rescale scale lift) id (scale * · + lift) (scale • ·) where
  cost _ := rfl
  gradient _ := rfl

theorem maps_self : code.Maps code id id id where
  cost _ := (id_map _).symm
  gradient _ := (id_map _).symm

theorem rescale_noted (family : Family) :
    (code.rescale scale lift).noted family = (code.noted family).rescale scale lift :=
  congrArg₂ VectorCode.mk (funext fun _ => noted_map _ _ _) (funext fun _ => noted_map _ _ _)

end VectorCode

/-! ### Runs side by side -/

/-- The step of a point that was accepted. -/
def Accepted.step (a : Accepted ℝ) : Step ℝ := ⟨a.alpha, a.cost, a.trials⟩

theorem Accepted.eq_of_step {a b : Accepted ℝ} (point : a.point = b.point) (step : a.step = b.step) : a = b := by
  obtain ⟨x, cost, alpha, trials⟩ := a
  obtain ⟨z, cost', alpha', trials'⟩ := b
  obtain rfl : x = z := point
  obtain ⟨rfl, rfl, rfl⟩ := Step.mk.inj step
  rfl

section SideBySide

variable {p p' : Problem ℝ σ} {family : Family} {code code' : VectorCode n σ} {price : ℝ → ℝ}
  {vector : (Fin n → ℝ) → Fin n → ℝ} {F : Fault ℝ → Fault ℝ → Prop} (follows : p.Follows family code)
  (follows' : p'.Follows family code') (maps : code.Maps code' id price vector)
  (plain : ∀ e : Fault ℝ, (∀ cause, e ≠ .search cause) → F e e)

include follows follows' maps plain

/-- The gradient at the start, given or evaluated. -/
theorem LineSearch.startGradient_corresponds {s s' : LineSearch ℝ} (x : Fin n → ℝ)
    {gradient? : Option (Fin n → ℝ)} (given : s.start.gradient? = gradient?.map (ofVector family))
    (given' : s'.start.gradient? = (gradient?.map vector).map (ofVector family)) :
    (s.startGradient p (ofVector family x)).Corresponds (Ledger.Carried family)
      (fun g g' => ∃ v, g = ofVector family v ∧ g' = ofVector family (vector v)) F
      (s'.startGradient p' (ofVector family x)) := by
  unfold startGradient
  rw [given, given']
  rcases gradient? with _ | g
  · exact follows.evaluateGradient_corresponds follows' maps plain x
  · exact .pure ⟨g, rfl, rfl⟩

/-- The cost at the start, given or evaluated. -/
theorem LineSearch.startCost_corresponds {s s' : LineSearch ℝ} (x : Fin n → ℝ)
    (given : s'.start.cost? = s.start.cost?.map price) :
    (s.startCost p (ofVector family x)).Corresponds (Ledger.Carried family) (fun c c' => c' = price c) F
      (s'.startCost p' (ofVector family x)) := by
  unfold startCost
  rw [given]
  rcases s.start.cost? with _ | c
  · exact follows.evaluateCost_corresponds follows' maps plain x
  · simp only [Option.map_some, Exact.isFinite_eq, if_true]
    exact .pure rfl

variable {d d' : Fin n → ℝ} {alpha alpha' : ℝ}

theorem Problem.line_cost_corresponds (x : Fin n → ℝ) (reached : alpha' • d' = alpha • d) :
    ((p.line family (ofVector family x) (ofVector family d)).cost alpha).Corresponds (Ledger.Carried family)
      (fun c c' => c' = price c) F
      ((p'.line family (ofVector family x) (ofVector family d')).cost alpha') := by
  simp only [line, pointAt, Family.scaledAdd_ofVector, ofOperands_of_ok, pure_bind, reached]
  exact follows.evaluateCost_corresponds follows' maps plain _

variable {factor : ℝ} (slopes : ∀ v, vector v ⬝ᵥ d' = factor * (v ⬝ᵥ d))

include slopes

theorem Problem.line_slope_corresponds (x : Fin n → ℝ) (reached : alpha' • d' = alpha • d) :
    ((p.line family (ofVector family x) (ofVector family d)).slope alpha).Corresponds (Ledger.Carried family)
      (fun slope slope' => slope' = factor * slope) F
      ((p'.line family (ofVector family x) (ofVector family d')).slope alpha') := by
  simp only [line, pointAt, Family.scaledAdd_ofVector, ofOperands_of_ok, pure_bind, reached]
  refine (follows.evaluateGradient_corresponds follows' maps plain _).bind fun g g' same => ?_
  obtain ⟨v, rfl, rfl⟩ := same
  rw [Family.dot_ofVector, Family.dot_ofVector, slopes]
  exact .pure rfl

/-- Two runs correspond if their methods do so along the two rays and find the same point. -/
theorem LineSearch.run_corresponds {method method' : Method ℝ} (o o' : Departure n) (turn : Step ℝ → Step ℝ)
    (point : o'.point = o.point)
    (gradient : o'.gradient? = o.gradient?.map vector) (cost : o'.cost? = o.cost?.map price)
    (direction : o.direction = d) (direction' : o'.direction = d') (positive : 0 < factor)
    (refused : ∀ slope, F (.search (.notDescent slope)) (.search (.notDescent (factor * slope))))
    (reached : ∀ step, (turn step).alpha • d' = step.alpha • d)
    (searched : ∀ startCost startSlope,
      (method.search (p.line family (ofVector family o.point) (ofVector family d)) startCost
        startSlope).Corresponds (Ledger.Carried family) (fun step step' => step' = turn step) F
        (method'.search (p'.line family (ofVector family o.point) (ofVector family d')) (price startCost)
          (factor * startSlope))) :
    ((LineSearch.mk method (o.start family)).run p).Corresponds (Ledger.Carried family)
      (fun a a' => a'.point = a.point ∧ a'.step = turn a.step) F
      ((LineSearch.mk method' (o'.start family)).run p') := by
  subst direction direction'
  simp only [run, Departure.start, point, Family.ofTensor_ofVector, ofExcept_of_ok, pure_bind]
  refine (startGradient_corresponds follows follows' maps plain o.point rfl
    (congrArg (Option.map (ofVector family)) gradient)).bind fun g g' same => ?_
  obtain ⟨v, rfl, rfl⟩ := same
  refine (startCost_corresponds follows follows' maps plain o.point cost).bind fun c c' same => ?_
  subst same
  have falls : (factor * (v ⬝ᵥ o.direction) < 0) = (v ⬝ᵥ o.direction < 0) :=
    propext ⟨fun h => neg_of_mul_neg_right h positive.le, mul_neg_of_pos_of_neg positive⟩
  rw [Family.dot_ofVector, Family.dot_ofVector, slopes]
  simp only [ofOperands_of_ok, pure_bind, falls]
  split
  · refine (searched c _).bind fun step step' same => ?_
    subst same
    simp only [Problem.pointAt, Family.scaledAdd_ofVector, ofOperands_of_ok, pure_bind, reached]
    exact .pure ⟨rfl, rfl⟩
  · exact .throw (refused _)

end SideBySide

/-! ### Runs on other scales -/

namespace LineSearch

variable {p p' : Problem ℝ σ} {family : Family} {code : VectorCode n σ} {scale lift stretch : ℝ}

/-- On another scale of the costs a run takes the same course, with each of the three methods. -/
theorem run_rescales (follows : p.Follows family code) (follows' : p'.Follows family (code.rescale scale lift))
    (positive : 0 < scale) (o : Departure n) (method : Method ℝ) :
    ((LineSearch.mk method (o.start family)).run p).Corresponds (Ledger.Carried family)
      (fun a a' => a' = a.rescale scale lift) (fun e e' => e' = e.rescale scale lift)
      ((LineSearch.mk method ((o.rescale scale lift).start family)).run p') := by
  have plain (e : Fault ℝ) (h : ∀ cause, e ≠ .search cause) : e = e.rescale scale lift := by
    cases e with
    | search cause => exact absurd rfl (h cause)
    | _ => rfl
  have maps := code.rescale_maps scale lift
  have slopes (v : Fin n → ℝ) : scale • v ⬝ᵥ o.direction = scale * (v ⬝ᵥ o.direction) := smul_dotProduct _ _ _
  have lines : (p.line family (ofVector family o.point) (ofVector family o.direction)).Rescales
      (Ledger.Carried family) (fun e e' => e' = e.rescale scale lift) scale lift
      (p'.line family (ofVector family o.point) (ofVector family o.direction)) :=
    ⟨fun _ => Problem.line_cost_corresponds follows follows' maps plain o.point rfl,
      fun _ => Problem.line_slope_corresponds follows follows' maps plain slopes o.point rfl⟩
  refine (run_corresponds follows follows' maps plain slopes o (o.rescale scale lift) (Step.rescale scale lift) rfl
    rfl rfl rfl rfl positive (fun _ => rfl) (fun _ => rfl)
    (method.search_rescales positive (fun _ _ => rfl) lines)).mono (fun a a' same => ?_) fun _ _ => id
  exact Accepted.eq_of_step same.1 same.2

/-- In another unit of length a run takes the same course, with backtracking and with the secant method. -/
theorem run_stretches (follows : p.Follows family code) (positive : 0 < stretch) (o : Departure n)
    {method : Method ℝ} (other : ∀ s, method ≠ .wolfe s) :
    ((LineSearch.mk method (o.start family)).run p).Corresponds (Ledger.Carried family)
      (fun a a' => a' = a.stretch stretch) (fun e e' => e' = e.stretch stretch)
      ((LineSearch.mk (method.stretch stretch) ((o.stretch stretch).start family)).run p) := by
  have plain (e : Fault ℝ) (h : ∀ cause, e ≠ .search cause) : e = e.stretch stretch := by
    cases e with
    | search cause => exact absurd rfl (h cause)
    | _ => rfl
  have maps := code.maps_self
  have slopes (v : Fin n → ℝ) : id v ⬝ᵥ stretch • o.direction = stretch * (v ⬝ᵥ o.direction) :=
    dotProduct_smul _ _ _
  have reached (alpha : ℝ) : (alpha / stretch) • stretch • o.direction = alpha • o.direction := by
    rw [smul_smul, div_mul_cancel₀ _ positive.ne']
  have lines : (p.line family (ofVector family o.point) (ofVector family o.direction)).Stretches
      (Ledger.Carried family) (fun e e' => e' = e.stretch stretch) stretch
      (p.line family (ofVector family o.point) (ofVector family (stretch • o.direction))) :=
    ⟨fun alpha => Problem.line_cost_corresponds follows follows maps plain o.point (reached alpha),
      fun alpha => Problem.line_slope_corresponds follows follows maps plain slopes o.point (reached alpha)⟩
  have gradient : o.gradient? = o.gradient?.map id := Option.map_id_apply.symm
  have cost : o.cost? = o.cost?.map id := Option.map_id_apply.symm
  refine (run_corresponds follows follows maps plain slopes o (o.stretch stretch) (Step.stretch stretch) rfl gradient
    cost rfl rfl positive (fun _ => rfl) (fun step => reached step.alpha)
    (method.search_stretches positive (fun _ _ => rfl) lines other)).mono (fun a a' same => ?_) fun _ _ => id
  exact Accepted.eq_of_step same.1 same.2

/-- Two runs from one ledger that take the same course: they ask for the same costs and gradients in the same order
and leave the same ledger, and what the second one returns, or how it fails, is obtained from the first one. -/
structure Parallel (s s' : LineSearch ℝ) (p p' : Problem ℝ σ) (l : Ledger σ) (found : Accepted ℝ → Accepted ℝ)
    (failed : Fault ℝ → Fault ℝ) : Prop where
  queries : s'.queries p' l = s.queries p l
  ledger : ((s'.run p').outcome l).2 = ((s.run p).outcome l).2
  answer : Agree (fun a a' => a' = found a) (fun e e' => e' = failed e) ((s.run p).outcome l).1
    ((s'.run p').outcome l).1

namespace Parallel

variable {s s' s'' : LineSearch ℝ} {p'' : Problem ℝ σ} {l : Ledger σ} {found found' : Accepted ℝ → Accepted ℝ}
  {failed failed' : Fault ℝ → Fault ℝ}

/-- Runs are parallel if they correspond on the problems and on the noted problems. -/
theorem of_corresponds (fits : l.Fits family)
    (plain : (s.run p).Corresponds (Ledger.Carried family) (fun a a' => a' = found a)
      (fun e e' => e' = failed e) (s'.run p'))
    (noted : (s.run p.noted).Corresponds (Ledger.Carried family) (fun a a' => a' = found a)
      (fun e e' => e' = failed e) (s'.run p'.noted)) : Parallel s s' p p' l found failed where
  queries := congrArg (·.state.2) (noted (l.noting ℝ) (l.noting ℝ) ⟨rfl, fits⟩).1.1
  ledger := (plain l l ⟨rfl, fits⟩).1.1
  answer := (plain l l ⟨rfl, fits⟩).2

theorem trans (h : Parallel s s' p p' l found failed) (k : Parallel s' s'' p' p'' l found' failed') :
    Parallel s s'' p p'' l (found' ∘ found) (failed' ∘ failed) where
  queries := k.queries.trans h.queries
  ledger := k.ledger.trans h.ledger
  answer := by
    refine (h.answer.trans k.answer).mono (fun a c same => ?_) fun e g same => ?_
    · obtain ⟨_, rfl, rfl⟩ := same
      rfl
    · obtain ⟨_, rfl, rfl⟩ := same
      rfl

end Parallel

/-- **Line searches do not depend on scales.** Multiply the costs of a problem by a positive number and lift them by
a constant, and multiply its gradients by the same number: then each of the three methods asks for the same costs
and gradients and returns the same point, step length and number of trials with the cost on the other scale, or it
fails for the same cause. With backtracking and with the secant method the direction may be made longer and the
first step length shorter by the same factor in addition: the step length is shorter by this factor then, and all
else stays. -/
theorem run_keeps_scale (follows : p.Follows family code)
    (follows' : p'.Follows family (code.rescale scale lift)) (positive : 0 < scale) (o : Departure n)
    {l : Ledger σ} (fits : l.Fits family) :
    (∀ method, Parallel ⟨method, o.start family⟩ ⟨method, (o.rescale scale lift).start family⟩ p p' l
      (Accepted.rescale scale lift) (Fault.rescale scale lift)) ∧
    ∀ (method : Method ℝ) (stretch : ℝ), (∀ s, method ≠ .wolfe s) → 0 < stretch →
      Parallel ⟨method, o.start family⟩
        ⟨method.stretch stretch, ((o.rescale scale lift).stretch stretch).start family⟩ p p' l
        (Accepted.stretch stretch ∘ Accepted.rescale scale lift)
        (Fault.stretch stretch ∘ Fault.rescale scale lift) := by
  have noted' : p'.noted.Follows family ((code.noted family).rescale scale lift) :=
    code.rescale_noted scale lift family ▸ follows'.noted
  have rescaled (method : Method ℝ) : Parallel ⟨method, o.start family⟩
      ⟨method, (o.rescale scale lift).start family⟩ p p' l (Accepted.rescale scale lift)
      (Fault.rescale scale lift) :=
    .of_corresponds fits (run_rescales follows follows' positive o method)
      (run_rescales follows.noted noted' positive o method)
  refine ⟨rescaled, fun method stretch other some => (rescaled method).trans ?_⟩
  exact .of_corresponds fits (run_stretches follows' some (o.rescale scale lift) other)
    (run_stretches noted' some (o.rescale scale lift) other)

end LineSearch

/-- For instance, on half the square of the length from `(3, 4)` downwards, with costs that are doubled and lifted by
one, the search for the strong Wolfe conditions takes the same course, and so does the secant method in a direction
that is twice as long. -/
theorem halfSquare_rescaled :
    let o : Departure 2 := { point := ![3, 4], direction := ![-3, -4] }
    let p' : Problem ℝ Unit :=
      ((Quadratic.code (1 : Matrix (Fin 2) (Fin 2) ℝ) 0 0).rescale 2 1).problem .lenient
    LineSearch.Parallel ⟨.wolfe .usual, o.start .lenient⟩ ⟨.wolfe .usual, (o.rescale 2 1).start .lenient⟩
        Quadratic.halfSquare.problem p' (.fresh none ()) (Accepted.rescale 2 1) (Fault.rescale 2 1) ∧
      LineSearch.Parallel ⟨.secant .usual, o.start .lenient⟩
        ⟨(Method.secant .usual).stretch 2, ((o.rescale 2 1).stretch 2).start .lenient⟩
        Quadratic.halfSquare.problem p' (.fresh none ()) (Accepted.stretch 2 ∘ Accepted.rescale 2 1)
        (Fault.stretch 2 ∘ Fault.rescale 2 1) := by
  intro o p'
  have fits : (Ledger.fresh none ()).Fits .lenient := nofun
  obtain ⟨rescaled, stretched⟩ := LineSearch.run_keeps_scale (Quadratic.problem_follows 1 0 0 .lenient)
    (VectorCode.problem_follows ((Quadratic.code 1 0 0).rescale 2 1) .lenient) two_pos o fits
  exact ⟨rescaled _, stretched _ 2 nofun two_pos⟩

end QuasiNewton
