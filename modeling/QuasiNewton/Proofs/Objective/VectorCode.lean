import QuasiNewton.Proofs.Objective.Analytic

/-!
# Code on vectors

A cost and its gradient can be written as code on vectors, which may fail and may have a state. A problem follows
such code if it does on the vectors of a family what the code does (`Problem.Follows`). If other code answers at
other places what the first one answers, with its costs and gradients mapped, then the counted evaluations of the
problems that follow them correspond.
-/

set_option autoImplicit false

namespace QuasiNewton

open Attempt Matrix Tensor

variable {σ : Type} {n : ℕ}

/-- A cost and its gradient as code on vectors, which may fail and may have a state. -/
structure VectorCode (n : ℕ) (σ : Type) where
  cost : (Fin n → ℝ) → ExceptT Raised (StateM σ) ℝ
  gradient : (Fin n → ℝ) → ExceptT Raised (StateM σ) (Fin n → ℝ)

/-- On vectors of a family a problem is the given code; gradients may be answered as arrays of the family or
as plain lists. -/
structure Problem.Follows (p : Problem ℝ σ) (family : Family) (code : VectorCode n σ) : Prop where
  cost : ∀ x, p.cost (ofVector family x) = code.cost x
  gradient : ∃ (asked : Tensor ℝ → ExceptT Raised (StateM σ) (Reply ℝ))
    (reply : (Fin n → ℝ) → Tensor ℝ), p.gradient? = some asked ∧
    (∀ v, reply v = ofVector family v ∨ reply v = .list (.ofFn v)) ∧
    ∀ x, asked (ofVector family x) = (fun v => .tensor (reply v)) <$> code.gradient x

/-- The same ledger in both runs. -/
def Ledger.Carried (family : Family) (l l' : Ledger σ) : Prop := l' = l ∧ l.Fits family

namespace Evaluation

theorem family_carried {family : Family} {F : Fault ℝ → Fault ℝ → Prop} (x z : Fin n → ℝ) :
    (Evaluation.family (ofVector family x) : Evaluation ℝ σ Family).Corresponds (Ledger.Carried family)
      (fun f f' => f = family ∧ f' = family) F (Evaluation.family (ofVector family z)) := by
  rintro _ l ⟨rfl, fits⟩
  rw [outcome_family_of_fits fits, outcome_family_of_fits fits]
  exact ⟨⟨rfl, Ledger.fits_of_eq rfl⟩, .ok ⟨rfl, rfl⟩⟩

/-- The same code, followed by two functions, answers the two values of one result. -/
theorem consult_map {β γ δ : Type} (family : Family) (F : Fault ℝ → Fault ℝ → Prop) (f : β → γ)
    (g : β → δ) (code : ExceptT Raised (StateM σ) β) :
    (consult (f <$> code) : Evaluation ℝ σ _).Corresponds (Ledger.Carried family)
      (Agree (fun y z => ∃ x, y = f x ∧ z = g x) Eq) F (consult (g <$> code)) := by
  rintro _ l ⟨rfl, fits⟩
  rcases run : code.run.run l.state with ⟨answer, s⟩
  have mapped {ε : Type} (k : β → ε) : (k <$> code).run.run l.state = (k <$> answer, s) := by
    simp only [ExceptT.run_map, StateT.run_map, run]
    rfl
  simp only [consult, outcome_bind, outcome_get, mapped]
  refine ⟨⟨rfl, fits⟩, .ok ?_⟩
  cases answer with
  | ok x => exact .ok ⟨x, rfl, rfl⟩
  | error report => exact .error rfl

end Evaluation

/-- Code that answers at other places what the code answers, with costs and gradients mapped. -/
structure VectorCode.Maps (code code' : VectorCode n σ) (place : (Fin n → ℝ) → Fin n → ℝ) (price : ℝ → ℝ)
    (vector : (Fin n → ℝ) → Fin n → ℝ) : Prop where
  cost : ∀ x, code'.cost (place x) = price <$> code.cost x
  gradient : ∀ x, code'.gradient (place x) = vector <$> code.gradient x

namespace Problem

open Evaluation

variable {p p' : Problem ℝ σ} {family : Family} {code code' : VectorCode n σ}
  {place vector : (Fin n → ℝ) → Fin n → ℝ} {price : ℝ → ℝ} {F : Fault ℝ → Fault ℝ → Prop}
  (follows : p.Follows family code) (follows' : p'.Follows family code')
  (maps : code.Maps code' place price vector)
  (plain : ∀ e : Fault ℝ, (∀ cause, e ≠ .search cause) → F e e)

include follows follows' maps plain

theorem Follows.evaluateCost_corresponds (x : Fin n → ℝ) :
    (p.evaluateCost (ofVector family x)).Corresponds (Ledger.Carried family) (fun c c' => c' = price c) F
      (p'.evaluateCost (ofVector family (place x))) := by
  have consulted := consult_map family F id price (code.cost x)
  rw [id_map, ← maps.cost, ← follows.cost, ← follows'.cost] at consulted
  refine Problem.evaluateCost_corresponds plain (family_carried x (place x))
    (.change fun l l' carried => ?_) (consulted.mono (fun _ _ answers => ?_) fun _ _ => id)
    (fun c c' _ => (Exact.isFinite_eq c').trans (Exact.isFinite_eq c).symm) fun c c' _ infinite => ?_
  · exact ⟨congrArg (Ledger.countCost · 1) carried.1, carried.2⟩
  · refine answers.mono (fun c c' same => ?_) fun _ _ => id
    obtain ⟨_, rfl, rfl⟩ := same
    rfl
  · exact absurd (Exact.isFinite_eq c) (by simp [infinite])

theorem Follows.evaluateGradient_corresponds (x : Fin n → ℝ) :
    (p.evaluateGradient (ofVector family x)).Corresponds (Ledger.Carried family)
      (fun g g' => ∃ v, g = ofVector family v ∧ g' = ofVector family (vector v)) F
      (p'.evaluateGradient (ofVector family (place x))) := by
  obtain ⟨asked, reply, given, replies, asks⟩ := follows.gradient
  obtain ⟨asked', reply', given', replies', asks'⟩ := follows'.gradient
  refine (family_carried x (place x)).bind fun f f' families => ?_
  rw [families.1, families.2]
  have consulted := consult_map family F (fun v => Reply.tensor (reply v))
    (fun v => Reply.tensor (reply' (vector v))) (code.gradient x)
  have mapped : (fun v => Reply.tensor (reply' (vector v))) <$> code.gradient x =
      asked' (ofVector family (place x)) := by
    rw [asks', maps.gradient, Functor.map_map]
  rw [mapped, ← asks] at consulted
  have answers : (p.askGradient family (ofVector family x)).Corresponds (Ledger.Carried family)
      (fun r r' => ∃ v, r = .tensor (reply v) ∧ r' = .tensor (reply' (vector v))) F
      (p'.askGradient family (ofVector family (place x))) :=
    askGradient_corresponds plain given given'
      (.change fun l l' carried => ⟨congrArg Ledger.countGradient carried.1, carried.2⟩) consulted
  refine answers.bind fun r r' same => ?_
  obtain ⟨v, rfl, rfl⟩ := same
  rw [checkGradient_ofVector x v (replies v), checkGradient_ofVector _ _ (replies' _)]
  exact .pure ⟨v, rfl, rfl⟩

end Problem

/-- Code on vectors as a problem on arrays. -/
noncomputable def VectorCode.problem (code : VectorCode n σ) (family : Family) : Problem ℝ σ where
  cost t := code.cost (t.toVector n)
  gradient? := some fun t => (fun v => .tensor (ofVector family v)) <$> code.gradient (t.toVector n)

theorem VectorCode.problem_follows (code : VectorCode n σ) (family : Family) :
    (code.problem family).Follows family code where
  cost x := congrArg code.cost (toVector_ofVector family x)
  gradient := by
    refine ⟨_, ofVector family, rfl, fun _ => .inl rfl, fun x => ?_⟩
    rw [toVector_ofVector]

/-- The quadratic function of a matrix as code on vectors. -/
noncomputable def Quadratic.code (A : Matrix (Fin n) (Fin n) ℝ) (b : Fin n → ℝ) (c : ℝ) :
    VectorCode n σ where
  cost x := pure (value A b c x)
  gradient x := pure (A *ᵥ x - b)

theorem Quadratic.problem_follows (A : Matrix (Fin n) (Fin n) ℝ) (b : Fin n → ℝ) (c : ℝ)
    (family : Family) : ((ofMatrix A b c).problem : Problem ℝ σ).Follows family (code A b c) where
  cost x := cost_ofVector A b c family x
  gradient := ⟨_, fun v => .list (.ofFn v), rfl, fun _ => .inr rfl, gradient_ofVector A b c family⟩

end QuasiNewton
