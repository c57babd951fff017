import Mathlib.LinearAlgebra.FiniteDimensional.Lemmas
import QuasiNewton.Proofs.LineSearch.Descent
import QuasiNewton.Proofs.RankOne.Secant

/-!
# Corrections in a row

The corrections of the solver, called one after the other with steps `s` and the changes `A s` of the
gradient of a quadratic cost. `Inherits` is the invariant: the matrix is symmetric, it satisfies the
secant equations of all steps for which a correction was made, and these steps are linearly independent.
A step in their span leaves no residual, so that its correction is skipped (`Inherits.append`).
-/

set_option autoImplicit false

namespace QuasiNewton.RankOne

open Attempt Matrix Tensor
open QuasiNewton.Decimal (NumberText)

variable {σ : Type} {n : ℕ}

section Matrices

variable {A H : Matrix (Fin n) (Fin n) ℝ} {made : List (Fin n → ℝ)}

/-- A matrix satisfies the secant equations of independent steps. -/
structure Inherits (A H : Matrix (Fin n) (Fin n) ℝ) (made : List (Fin n → ℝ)) : Prop where
  symm : H.IsSymm
  secant : ∀ t ∈ made, H *ᵥ (A *ᵥ t) = t
  independent : LinearIndependent ℝ made.get

theorem Inherits.secant_get (h : Inherits A H made) (i : Fin made.length) :
    H *ᵥ (A *ᵥ made.get i) = made.get i :=
  h.secant _ (made.get_mem i)

/-- A list of vectors stays independent if a vector outside its span is added. -/
theorem linearIndependent_append {s : Fin n → ℝ} (h : LinearIndependent ℝ made.get)
    (outside : s ∉ Submodule.span ℝ (Set.range made.get)) :
    LinearIndependent ℝ (made ++ [s]).get := by
  have length : (made ++ [s]).length = made.length + 1 := by simp
  refine (linearIndependent_equiv' (finCongr length) (funext fun i => ?_)).mpr
    (linearIndependent_finSnoc.mpr ⟨h, outside⟩)
  rcases Nat.lt_or_ge i made.length with inside | last
  · simp [Fin.snoc, inside]
  · have end_ : (i : ℕ) = made.length := by have := i.isLt; omega
    simp [Fin.snoc, end_]

/-- Where a correction is made, the step is independent of all steps before, and the corrected matrix
satisfies the secant equations of all of them. -/
theorem Inherits.append {s : Fin n → ℝ} (h : Inherits A H made) (hA : A.IsSymm)
    (large : residual H s (A *ᵥ s) ⬝ᵥ A *ᵥ s ≠ 0) :
    Inherits A (corrected H s (A *ᵥ s)) (made ++ [s]) where
  symm := corrected_isSymm h.symm
  secant t ht := by
    rcases List.mem_append.mp ht with ht | ht
    · exact corrected_mulVec_of_secant hA h.symm (h.secant t ht) s
    · rw [List.mem_singleton.mp ht]
      exact corrected_mulVec_self large
  independent := by
    -- a step in the span of the others would leave no residual
    refine linearIndependent_append h.independent fun inside => large ?_
    rw [residual, secant_of_mem_span h.secant_get inside, sub_self, zero_dotProduct]

theorem Inherits.length_le (h : Inherits A H made) : made.length ≤ n := by
  simpa using h.independent.fintype_card_le_finrank

/-- After as many corrections as there are unknowns the matrix is the inverse. -/
theorem Inherits.mul_eq_one (h : Inherits A H made) (full : made.length = n) : H * A = 1 := by
  have spans : Submodule.span ℝ (Set.range made.get) = ⊤ :=
    h.independent.span_eq_top_of_card_eq_finrank' (by simp [full])
  exact mul_eq_one_of_span_eq_top h.secant_get spans

end Matrices

/-! ### Calls in a row -/

/-- The steps whose calls have answered that a correction was made. -/
def applied (steps : List (Fin n → ℝ)) (answers : List Bool) : List (Fin n → ℝ) :=
  ((steps.zip answers).filter Prod.snd).map Prod.fst

theorem applied_cons (s : Fin n → ℝ) (steps : List (Fin n → ℝ)) (answer : Bool) (answers : List Bool) :
    applied (s :: steps) (answer :: answers) =
      (if answer then [s] else []) ++ applied steps answers := by
  cases answer <;> rfl

theorem applied_length {steps : List (Fin n → ℝ)} {answers : List Bool}
    (h : answers.length = steps.length) : (applied steps answers).length = answers.count true := by
  induction steps generalizing answers with
  | nil =>
    obtain rfl := List.length_eq_zero_iff.mp h
    rfl
  | cons s steps ih =>
    obtain ⟨answer, answers, rfl⟩ := List.exists_cons_of_length_eq_add_one h
    rw [applied_cons, List.length_append, ih (Nat.succ.inj h), List.count_cons]
    cases answer <;> simp [Nat.add_comm]

section Calls

variable [NumberText ℝ] (A : Matrix (Fin n) (Fin n) ℝ) (family : Family)

/-- Calls of the correction with steps and the changes of the gradient along them. -/
noncomputable def calls (steps : List (Fin n → ℝ)) : SolverM ℝ (RankOne ℝ) σ (List Bool) :=
  steps.mapM fun s => update (ofVector family s) (ofVector family (A *ᵥ s))

variable {A family} {H : Matrix (Fin n) (Fin n) ℝ} {made : List (Fin n → ℝ)}
  {work : Workspace (RankOne ℝ) σ}

theorem calls_cons {s : Fin n → ℝ} {steps : List (Fin n → ℝ)} {answer : Bool} {answers : List Bool}
    {w w' : Workspace (RankOne ℝ) σ}
    (first : (update (ofVector family s) (ofVector family (A *ᵥ s))).outcome work = (.ok answer, w))
    (rest : (calls A family steps).outcome w = (.ok answers, w')) :
    (calls A family (s :: steps)).outcome work = (.ok (answer :: answers), w') := by
  rw [calls] at rest ⊢
  rw [List.mapM_cons, outcome_bind, first]
  simp only [outcome_bind, rest, outcome_pure]

/-- One call keeps the invariant. With as many corrections as unknowns it is skipped. -/
theorem Inherits.update (h : Inherits A H made) (hA : A.IsSymm) (stores : work.solver.Stores family H)
    (s : Fin n → ℝ) :
    ∃ answer w H', (update (ofVector family s) (ofVector family (A *ᵥ s))).outcome work =
        (.ok answer, w) ∧ w.solver.Stores family H' ∧
      Inherits A H' (made ++ if answer then [s] else []) ∧
      (made.length = n → answer = false ∧ H' = H) := by
  obtain ⟨answer, w, run, ⟨rfl, kept⟩ | ⟨rfl, large, changed⟩⟩ := stores.update_eq s (A *ᵥ s)
  · exact ⟨_, w, H, run, kept, by simpa using h, fun _ => ⟨rfl, rfl⟩⟩
  · have more := h.append hA large
    refine ⟨_, w, _, run, changed, more, fun full => ?_⟩
    have bound := more.length_le
    simp [full] at bound

/-- A row of calls keeps the invariant. The induction is on the calls, with the steps applied before
them in `made`. -/
theorem Inherits.calls (h : Inherits A H made) (hA : A.IsSymm) (stores : work.solver.Stores family H)
    (steps : List (Fin n → ℝ)) :
    ∃ answers w H', (calls A family steps).outcome work = (.ok answers, w) ∧
      answers.length = steps.length ∧ w.solver.Stores family H' ∧
      Inherits A H' (made ++ applied steps answers) ∧
      (made.length = n → answers = List.replicate steps.length false ∧ H' = H) := by
  induction steps generalizing work H made with
  | nil => exact ⟨[], work, H, rfl, rfl, stores, by simpa [applied] using h, fun _ => ⟨rfl, rfl⟩⟩
  | cons s steps ih =>
    obtain ⟨answer, w₁, H₁, first, stores₁, h₁, full₁⟩ := h.update hA stores s
    obtain ⟨answers, w₂, H₂, rest, length, stores₂, h₂, full₂⟩ := ih h₁ stores₁
    refine ⟨answer :: answers, w₂, H₂, calls_cons first rest, by simp [length], stores₂, ?_,
      fun full => ?_⟩
    · rwa [applied_cons, ← List.append_assoc]
    · obtain ⟨rfl, rfl⟩ := full₁ full
      obtain ⟨rfl, rfl⟩ := full₂ (by simpa using full)
      exact ⟨rfl, rfl⟩

/-- **Corrections inherit all secant equations.** For a symmetric matrix `A` and a symmetric first matrix,
whatever the tolerances are and whichever calls are skipped: after any calls the matrix of the solver
satisfies the secant equations of all steps that were applied, these steps are linearly independent, and
once there are as many of them as unknowns the matrix is inverse to `A` and no later call changes it. -/
theorem calls_inherit_secant_equations {A H₀ : Matrix (Fin n) (Fin n) ℝ} (hA : A.IsSymm)
    (hH : H₀.IsSymm) (family : Family) {work : Workspace (RankOne ℝ) σ}
    (stores : work.solver.Stores family H₀) (steps : List (Fin n → ℝ)) :
    ∃ answers w H, (RankOne.calls A family steps).outcome work = (.ok answers, w) ∧
      answers.length = steps.length ∧ w.solver.Stores family H ∧ H.IsSymm ∧
      (∀ t ∈ applied steps answers, H *ᵥ (A *ᵥ t) = t) ∧
      LinearIndependent ℝ (applied steps answers).get ∧ answers.count true ≤ n ∧
      (answers.count true = n → H * A = 1 ∧ ∀ later, ∃ w',
        (RankOne.calls A family later).outcome w =
          (.ok (List.replicate later.length false), w') ∧ w'.solver.Stores family H) := by
  have none : IsEmpty (Fin ([] : List (Fin n → ℝ)).length) := inferInstanceAs (IsEmpty (Fin 0))
  have start : Inherits A H₀ [] := ⟨hH, by simp, linearIndependent_empty_type⟩
  obtain ⟨answers, w, H, run, length, stores', h, -⟩ := start.calls hA stores steps
  rw [List.nil_append] at h
  have count := applied_length length
  refine ⟨answers, w, H, run, length, stores', h.symm, h.secant, h.independent, count ▸ h.length_le,
    fun full => ⟨h.mul_eq_one (count.trans full), fun later => ?_⟩⟩
  obtain ⟨skips, w', H', run', -, stores'', -, skipped⟩ := h.calls hA stores' later
  obtain ⟨rfl, rfl⟩ := skipped (count.trans full)
  exact ⟨w', run', stores''⟩

end Calls

/-- For instance, at most two of three calls on a matrix with two rows make a correction, and the last
matrix satisfies the secant equations of those calls. -/
theorem three_calls_inherit :
    ∃ answers w H, (calls !![2, 1; 1, 2] .lenient [![1, 0], ![1, 1], ![2, 1]]).outcome
        (freshWork .lenient (ofMatrix .lenient (1 : Matrix (Fin 2) (Fin 2) ℝ)) (.secant .usual) ()) =
          (.ok answers, w) ∧
      w.solver.Stores .lenient H ∧ answers.count true ≤ 2 ∧
      ∀ t ∈ applied [![1, 0], ![1, 1], ![2, 1]] answers, H *ᵥ (!![2, 1; 1, 2] *ᵥ t) = t := by
  have symm : (!![2, 1; 1, 2] : Matrix (Fin 2) (Fin 2) ℝ).IsSymm := by
    ext i j
    fin_cases i <;> fin_cases j <;> rfl
  have stores : (freshWork .lenient (ofMatrix .lenient (1 : Matrix (Fin 2) (Fin 2) ℝ))
      (.secant .usual) ()).solver.Stores .lenient 1 := ⟨rfl, rfl⟩
  obtain ⟨answers, w, H, run, -, stores', -, secants, -, count, -⟩ :=
    calls_inherit_secant_equations symm isSymm_one .lenient stores [![1, 0], ![1, 1], ![2, 1]]
  exact ⟨answers, w, H, run, stores', count, secants⟩

end QuasiNewton.RankOne
