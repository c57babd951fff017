import QuasiNewton.Proofs.Objective.Asked
import QuasiNewton.Proofs.Objective.CentralDifferences
import Mathlib.Analysis.Calculus.Deriv.Polynomial

/-!
# Central differences of polynomials

Central differences ask for the cost on both sides of the point in each coordinate direction, ahead of the point
first, and at no other point. If the cost is a polynomial of degree at most three along a coordinate direction, then
the terms of even degree cancel, and what the quotient says of the partial derivative is wrong by the square of the
distance times the coefficient of the cubic term. On a quadratic cost there is no such term, and the quotients are the
gradient of the symmetric part of its matrix.
-/

set_option autoImplicit false

namespace QuasiNewton

open Matrix Tensor

variable {σ : Type} {n : ℕ}

/-! ### Code that keeps a list of what it is asked -/

section Code

variable {ε δ β γ : Type}

/-- From every state the code answers `x` and adds the queries `asked` to its list. -/
def Asks (code : ExceptT ε (StateM (σ × List (Query ℝ))) β) (asked : List (Query ℝ)) (x : β) : Prop :=
  ∀ s seen, ∃ t, code.run.run (s, seen) = (.ok x, t, seen ++ asked)

namespace Asks

theorem noted {code : ExceptT ε (StateM σ) β} {x : β} (answers : AnswersAlways code x) (q : Query ℝ) :
    Asks (QuasiNewton.noted q code) [q] x := by
  intro s seen
  have answered := answers s
  rcases run : code.run.run s with ⟨answer, t⟩
  obtain rfl : answer = .ok x := by rw [← answered, run]
  exact ⟨t, congrArg (fun r : Except ε β × σ => (r.1, r.2, seen ++ [q])) run⟩

theorem pure (x : β) : Asks (Pure.pure x : ExceptT ε (StateM (σ × List (Query ℝ))) β) [] x := by
  intro s seen
  refine ⟨s, ?_⟩
  rw [List.append_nil]
  rfl

theorem bind {code : ExceptT ε (StateM (σ × List (Query ℝ))) β}
    {next : β → ExceptT ε (StateM (σ × List (Query ℝ))) γ} {first second : List (Query ℝ)} {x : β} {y : γ}
    (before : Asks code first x) (after : Asks (next x) second y) :
    Asks (code >>= next) (first ++ second) y := by
  intro s seen
  obtain ⟨t, run⟩ := before s seen
  obtain ⟨u, ended⟩ := after t (seen ++ first)
  refine ⟨u, ?_⟩
  rw [run_bind, run, ← List.append_assoc]
  exact ended

theorem adapt {code : ExceptT ε (StateM (σ × List (Query ℝ))) β} {asked : List (Query ℝ)} {x : β}
    (h : Asks code asked x) (f : ε → δ) : Asks (code.adapt f) asked x := by
  intro s seen
  obtain ⟨t, run⟩ := h s seen
  exact ⟨t, congrArg (fun r : Except ε β × σ × List (Query ℝ) => (r.1.mapError f, r.2)) run⟩

/-- What is asked for one entry after another. -/
theorem ofFnM {n : ℕ} {code : Fin n → ExceptT ε (StateM (σ × List (Query ℝ))) β}
    {asked : Fin n → List (Query ℝ)} {x : Fin n → β} (h : ∀ i, Asks (code i) (asked i) (x i)) :
    Asks (Vector.ofFnM code) (List.ofFn asked).flatten (Vector.ofFn x) := by
  induction n with
  | zero =>
    rw [Vector.ofFnM_zero, @Vector.eq_empty _ (Vector.ofFn x), List.ofFn_zero]
    exact pure _
  | succ n ih =>
    have last : [asked (Fin.last n)].flatten = asked (Fin.last n) ++ [] := by simp
    rw [Vector.ofFnM_succ, Vector.ofFn_succ, List.ofFn_succ_last, List.flatten_append, last]
    exact (ih fun i => h i.castSucc).bind ((h (Fin.last n)).bind (pure _))

end Asks

end Code

namespace Differences

/-! ### Both sides of a point -/

/-- The points at which the differences of a vector ask for the cost, in the order in which they ask. -/
noncomputable def sides (x : Fin n → ℝ) (eps : ℝ) : List (Fin n → ℝ) :=
  (List.ofFn fun i => [x + Pi.single i eps, x - Pi.single i eps]).flatten

/-- The query for the cost of a vector. -/
def ofPoint (z : Fin n → ℝ) : Query ℝ := .cost (ofVector .lenient z)

variable {code : Dense ℝ → ExceptT Raised (StateM σ) ℝ} {f : (Fin n → ℝ) → ℝ}

/-- The same code, with the point at which it is asked for a cost added to a list. -/
def notedCost (code : Dense ℝ → ExceptT Raised (StateM σ) ℝ) (z : Dense ℝ) :
    ExceptT Raised (StateM (σ × List (Query ℝ))) ℝ :=
  noted (.cost (.lenient z)) (code z)

theorem quotient_asks (h : ∀ z, AnswersAlways (code (.ofFn z)) (f z)) (x : Fin n → ℝ) (eps : ℝ)
    (i : Fin n) :
    Asks (quotient (notedCost code) (.ofFn x) eps i)
      [ofPoint (x + Pi.single i eps), ofPoint (x - Pi.single i eps)] (ofFunction f x eps i) := by
  have cost (z : Fin n → ℝ) : Asks (notedCost code (.ofFn z)) [ofPoint z] (f z) := .noted (h z) _
  have two : (2.0 : ℝ) = 2 := by norm_num
  unfold quotient
  rw [ahead_ofFn, behind_ofFn, two]
  exact ((cost _).adapt _).bind (((cost _).adapt _).bind (.pure _))

theorem gradient_asks (h : ∀ z, AnswersAlways (code (.ofFn z)) (f z)) (x : Fin n → ℝ) (eps : ℝ) :
    Asks (gradient (notedCost code) (.ofFn x) eps) ((sides x eps).map ofPoint)
      (.ofFn (ofFunction f x eps)) := by
  have quotients := Asks.ofFnM fun i => quotient_asks h x eps i
  have asked : (List.ofFn fun i => [ofPoint (x + Pi.single i eps), ofPoint (x - Pi.single i eps)]).flatten =
      (sides x eps).map ofPoint := by
    rw [sides, List.map_flatten, List.map_ofFn]
    rfl
  have whole : gradient (notedCost code) (.ofFn x) eps =
      Vector.ofFnM (fun i : Fin n => quotient (notedCost code) (.ofFn x) eps i) >>= fun quotients =>
        Pure.pure ⟨[n], quotients⟩ :=
    gradient_vector (notedCost code) (Vector.ofFn x) eps
  rw [whole, ← asked, ← List.append_nil (List.flatten _)]
  exact quotients.bind (.pure _)

/-! ### What the quotients are -/

theorem quotient_cubic {P : Polynomial ℝ} (degree : P.natDegree ≤ 3) {eps : ℝ} (distant : eps ≠ 0) :
    (P.eval eps - P.eval (-eps)) / (2 * eps) = P.coeff 1 + eps ^ 2 * P.coeff 3 := by
  have expand (t : ℝ) : P.eval t = P.coeff 0 + P.coeff 1 * t + P.coeff 2 * t ^ 2 + P.coeff 3 * t ^ 3 := by
    rw [P.eval_eq_sum_range' (Nat.lt_succ_of_le degree)]
    simp [Finset.sum_range_succ]
  rw [expand, expand]
  field_simp
  ring

theorem deriv_eval_zero (P : Polynomial ℝ) : deriv (fun t => P.eval t) 0 = P.coeff 1 := by
  rw [P.deriv, ← Polynomial.coeff_zero_eq_eval_zero, Polynomial.coeff_derivative]
  simp

/-- Where the cost is a cubic along a coordinate direction, the quotient is wrong by the square of the distance times
the coefficient of the cubic term. -/
theorem ofFunction_sub_deriv {x : Fin n → ℝ} {eps : ℝ} (distant : eps ≠ 0) {i : Fin n}
    {P : Polynomial ℝ} (degree : P.natDegree ≤ 3) (along : ∀ t, f (x + Pi.single i t) = P.eval t) :
    ofFunction f x eps i - deriv (fun t => f (x + Pi.single i t)) 0 = eps ^ 2 * P.coeff 3 := by
  have backwards : x - Pi.single i eps = x + Pi.single i (-eps) := by
    rw [Pi.single_neg, sub_eq_add_neg]
  have slope : deriv (fun t => f (x + Pi.single i t)) 0 = P.coeff 1 := by
    rw [funext along, deriv_eval_zero]
  have quotient : ofFunction f x eps i = P.coeff 1 + eps ^ 2 * P.coeff 3 := by
    rw [ofFunction, backwards, along, along, quotient_cubic degree distant]
  rw [quotient, slope, add_sub_cancel_left]

/-- **Central differences are exact up to the cubic term.** Let the code of a cost always answer the values of `f`. At
a positive distance its differences answer a vector from every state, and report as many evaluations as they make:
two in each coordinate direction, ahead of the point and then behind it, one direction after the other. Where `f` is a
cubic along a coordinate direction, the entry exceeds the partial derivative by the square of the distance times the
coefficient of the cubic term. If `f` is the quadratic cost of a matrix, symmetric or not, then the vector is the
gradient of the symmetric part of the matrix. -/
theorem gradient_of_cubic (answers : ∀ z, AnswersAlways (code (.ofFn z)) (f z)) (x : Fin n → ℝ) {eps : ℝ}
    (positive : 0 < eps) :
    checkStep eps = .ok () ∧ evaluations (.ofFn x) = 2 * n ∧
    ∃ slopes : Fin n → ℝ,
      AnswersAlways (gradient code (.ofFn x) eps) (.ofFn slopes) ∧
      Asks (gradient (notedCost code) (.ofFn x) eps) ((sides x eps).map ofPoint) (.ofFn slopes) ∧
      (∀ (i : Fin n) (P : Polynomial ℝ), P.natDegree ≤ 3 → (∀ t, f (x + Pi.single i t) = P.eval t) →
        slopes i - deriv (fun t => f (x + Pi.single i t)) 0 = eps ^ 2 * P.coeff 3) ∧
      ∀ (A : Matrix (Fin n) (Fin n) ℝ) (b : Fin n → ℝ) (c : ℝ), f = Quadratic.value A b c →
        slopes = (1 / 2 : ℝ) • ((A + Aᵀ) *ᵥ x) - b := by
  have distant : eps ≠ 0 := positive.ne'
  have accepted : checkStep eps = .ok () := if_neg (not_le.mpr positive)
  refine ⟨accepted, rfl, ofFunction f x eps, gradient_answers answers x eps,
    gradient_asks answers x eps, ?_, ?_⟩
  · intro i P degree along
    exact ofFunction_sub_deriv distant degree along
  · rintro A b c rfl
    exact ofFunction_value A b c x distant

/-- The cost of a vector with one entry that is the cube of the entry. -/
noncomputable def cube (z : Dense ℝ) : ExceptT Raised (StateM Unit) ℝ :=
  let t := z.getD 0 0
  pure (t * t * t)

/-- At zero the quotient of the cube is the square of the distance. -/
theorem gradient_of_cube :
    (∀ z : Fin 1 → ℝ, AnswersAlways (cube (.ofFn z)) (z 0 * z 0 * z 0)) ∧ (0 : ℝ) < 2 ∧
      ∃ slopes : Fin 1 → ℝ, AnswersAlways (gradient cube (.ofFn (0 : Fin 1 → ℝ)) 2) (.ofFn slopes) ∧
        slopes 0 = 4 := by
  have answers (z : Fin 1 → ℝ) : AnswersAlways (cube (.ofFn z)) (z 0 * z 0 * z 0) := by
    have entry : (Dense.ofFn z).getD 0 0 = z 0 := Dense.getD_ofFn z 0 0
    rw [cube, entry]
    exact .pure _
  have along (t : ℝ) : (fun z : Fin 1 → ℝ => z 0 * z 0 * z 0) (0 + Pi.single 0 t) =
      (Polynomial.X ^ 3 : Polynomial ℝ).eval t := by
    simp only [zero_add, Pi.single_eq_same, Polynomial.eval_pow, Polynomial.eval_X]
    ring
  obtain ⟨-, -, slopes, answered, -, wrong, -⟩ := gradient_of_cubic answers 0 (two_pos : (0 : ℝ) < 2)
  refine ⟨answers, two_pos, slopes, answered, ?_⟩
  have apart := wrong 0 (Polynomial.X ^ 3) (by simp) along
  rw [funext along, deriv_eval_zero] at apart
  norm_num [Polynomial.coeff_X_pow] at apart
  exact apart

end Differences

end QuasiNewton
