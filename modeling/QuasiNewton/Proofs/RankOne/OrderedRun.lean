import QuasiNewton.Proofs.RankOne.LeastStep
import QuasiNewton.Proofs.RankOne.Order
import QuasiNewton.Proofs.RankOne.Termination

/-!
# Runs on one side of the inverse

On a quadratic cost with a positive definite matrix `A` a solver whose first matrix is positive definite
and lies on one side of `A⁻¹` keeps both, since corrections only approach `A⁻¹` (`Stores.update_approaches`).
Every direction of such a run is one of descent, and so no search is refused; with a secant search that is
not too lax the run does not fail at all, since the cost along a direction is a convex parabola.
-/

set_option autoImplicit false

namespace QuasiNewton.RankOne

open Attempt Matrix Tensor
open scoped MatrixOrder
open QuasiNewton.Decimal (NumberText)

variable {σ : Type} {n : ℕ}

/-- The direction that the solver would take from a check is one of descent. -/
def Descends (c : Checkpoint ℝ (RankOne ℝ) σ) : Prop :=
  ∃ g d family slope, c.run.state.gradient? = some g ∧ c.run.work.solver.direction g = .ok d ∧
    Family.ofTensor c.run.state.point = .ok family ∧ family.dot g d = .ok slope ∧ slope < 0

theorem Rests.descends {v : Setting n} {c : Checkpoint ℝ (RankOne ℝ) σ} {x : Fin n → ℝ}
    {H : Matrix (Fin n) (Fin n) ℝ} (h : Rests v c x H) (descent : 0 < v.gradient x ⬝ᵥ H *ᵥ v.gradient x) :
    Descends c := by
  refine ⟨_, _, v.family, _, h.gradient, h.stores.direction_eq _, ?_, Family.dot_ofVector _ _ _, ?_⟩
  · rw [h.point]
    exact Family.ofTensor_ofVector _ _
  · rw [dotProduct_neg]
    exact neg_lt_zero.mpr descent

/-! ### Calls in a row -/

section Calls

variable [NumberText ℝ] {A B H : Matrix (Fin n) (Fin n) ℝ} {family : Family}
  {work : Workspace (RankOne ℝ) σ}

theorem Stores.update_approaches (inverse : B * A = 1) (stores : work.solver.Stores family H)
    (s : Fin n → ℝ) :
    ∃ answer w H', (update (ofVector family s) (ofVector family (A *ᵥ s))).outcome work =
      (.ok answer, w) ∧ w.solver.Stores family H' ∧ Approaches B H H' := by
  obtain ⟨answer, w, run, ⟨-, kept⟩ | ⟨-, -, changed⟩⟩ := stores.update_eq s (A *ᵥ s)
  · exact ⟨answer, w, H, run, kept, .refl B H⟩
  · exact ⟨answer, w, _, run, changed, approaches_corrected inverse s⟩

/-- A row of calls brings the matrix nearer, by induction on the calls. -/
theorem Stores.calls_approach (inverse : B * A = 1) (stores : work.solver.Stores family H)
    (steps : List (Fin n → ℝ)) :
    ∃ answers w H', (calls A family steps).outcome work = (.ok answers, w) ∧
      w.solver.Stores family H' ∧ Approaches B H H' := by
  induction steps generalizing work H with
  | nil => exact ⟨[], work, H, rfl, stores, .refl B H⟩
  | cons s steps ih =>
    obtain ⟨answer, w₁, H₁, first, stores₁, nearer₁⟩ := stores.update_approaches inverse s
    obtain ⟨answers, w₂, H₂, rest, stores₂, nearer₂⟩ := ih stores₁
    exact ⟨answer :: answers, w₂, H₂, calls_cons first rest, stores₂, nearer₁.trans nearer₂⟩

end Calls

/-! ### Runs -/

section Run

variable {v : Setting n} {A H : Matrix (Fin n) (Fin n) ℝ} {b : Fin n → ℝ} {const : ℝ} {p : Problem ℝ σ}

variable [NumberText ℝ] {plan : Plan ℝ} {work : Workspace (RankOne ℝ) σ} {clock : Clock ℝ}
  {H₀ : Matrix (Fin n) (Fin n) ℝ} {x₀ : Fin n → ℝ}

/-- At every check of a run the matrix lies between the first one and the inverse. -/
theorem Begins.approaches (hA : A.PosDef) (gradient : v.gradient = fun x => A *ᵥ x - b)
    (computes : p.Computes v.family v.cost v.gradient) (begins : Begins plan work v x₀ H₀) {k : ℕ}
    {c : Checkpoint ℝ (RankOne ℝ) σ} (reached : plan.checkpoint solver p work clock k = some c) :
    ∃ x H, Rests v c x H ∧ Approaches A⁻¹ H₀ H := by
  have inverse : A⁻¹ * A = 1 := nonsing_inv_mul A ((isUnit_iff_isUnit_det A).mp hA.isUnit)
  refine begins.exists_rests computes (Approaches.refl A⁻¹ H₀) (fun H x x' nearer => ?_) reached
  have change : v.gradient x' - v.gradient x = A *ᵥ (x' - x) := by
    rw [gradient, mulVec_sub]
    exact sub_sub_sub_cancel_right _ _ _
  rw [change]
  exact nearer.trans (approaches_corrected inverse _)

omit [NumberText ℝ] in
theorem Rests.descent {c : Checkpoint ℝ (RankOne ℝ) σ} {x : Fin n → ℝ} (h : Rests v c x H)
    (hH : H.PosDef) (positive : 0 < v.tolerances.gradient)
    (goesOn : c.run.work.solver.stopReason c.run.state = .ok .notTerminated) :
    0 < v.gradient x ⬝ᵥ H *ᵥ v.gradient x := by
  apply hH.dotProduct_mulVec_pos
  intro zero
  rw [h.stopReason_of_gradient_eq_zero positive zero] at goesOn
  exact absurd goesOn nofun

end Run

/-- A run of a new solver on a quadratic cost from a vector. -/
structure QuadraticRun (A : Matrix (Fin n) (Fin n) ℝ) (b : Fin n → ℝ) (const : ℝ) (family : Family)
    (search : LineSearch ℝ) (plan : Plan ℝ) (p : Problem ℝ σ) (work : Workspace (RankOne ℝ) σ) : Prop where
  computes : p.Computes family (Quadratic.value A b const) fun x => A *ᵥ x - b
  planned : ∃ (x₀ : Fin n → ℝ) (options : RunOptions ℝ), options.start = ofVector family x₀ ∧
    Plan.ofOptions options = .ok plan
  made : ∃ inverse tolerances, tolerances.check = .ok tolerances ∧
    make inverse (some search) tolerances = .ok work.solver
  fresh : work.lifecycle.status = .notStarted
  fits : work.ledger.Fits family

theorem ofOptions_start {o : RunOptions ℝ} {plan : Plan ℝ} (h : Plan.ofOptions o = .ok plan)
    {family : Family} {x : Fin n → ℝ} (start : o.start = ofVector family x) :
    plan.family = family ∧ plan.start = ofVector family x := by
  simp only [Plan.ofOptions, start, Family.ofTensor_ofVector, except_bind_ok, mapError_ok] at h
  obtain ⟨_, -, _, -, f, same, copy, copied, steps, -, made⟩ := h
  obtain rfl := Except.ok.inj same
  obtain rfl := Except.ok.inj made
  rw [Family.copy_ofVector] at copied
  exact ⟨rfl, (Except.ok.inj copied).symm⟩

section Result

variable [NumberText ℝ]

/-- **A matrix on one side of the inverse stays there, and all directions are of descent.** Let the matrix of
a quadratic cost and the first matrix of the solver be positive definite, and let the first matrix lie on
one side of the inverse. Any calls with steps and the changes of the gradient along them keep that, and the
matrix only approaches the inverse. Hence a run takes steps along directions of descent only, whatever its
search is, and with a secant search that is not too lax it returns. -/
theorem run_keeps_order {A H₀ : Matrix (Fin n) (Fin n) ℝ} (hA : A.PosDef) (hH : H₀.PosDef)
    (side : A⁻¹ ≤ H₀ ∨ H₀ ≤ A⁻¹) {family : Family} {work : Workspace (RankOne ℝ) σ}
    (stores : work.solver.Stores family H₀) :
    (∀ steps, ∃ answers w H, (calls A family steps).outcome work = (.ok answers, w) ∧
        w.solver.Stores family H ∧ H.PosDef ∧ Approaches A⁻¹ H₀ H ∧
        ∀ s, ∃ answer w' H', (update (ofVector family s) (ofVector family (A *ᵥ s))).outcome w =
          (.ok answer, w') ∧ w'.solver.Stores family H' ∧ Approaches A⁻¹ H H') ∧
      ∀ b const search plan (p : Problem ℝ σ) clock,
        QuadraticRun A b const family search plan p work →
        (∀ k c, plan.checkpoint solver p work clock k = some c →
          ∃ H, c.run.work.solver.Stores family H ∧ H.PosDef ∧ Approaches A⁻¹ H₀ H) ∧
        (∀ k c r, plan.checkpoint solver p work clock k = some c →
          (plan.verdict solver clock.read.1 (plan.maxSteps - k)).outcome c.run = (.ok .notTerminated, r) →
          Descends c) ∧
        (∀ slope w clock', plan.execute solver p work clock ≠
          (.error (.search (.notDescent slope)), w, clock')) ∧
        ∀ secant, search.method = .secant secant → secant.Admissible → secant.tolerance ≤ 1 →
          ∃ o w clock', plan.execute solver p work clock = (.ok o, w, clock') := by
  have inverse : A⁻¹ * A = 1 := nonsing_inv_mul A ((isUnit_iff_isUnit_det A).mp hA.isUnit)
  have definite {H : Matrix (Fin n) (Fin n) ℝ} (nearer : Approaches A⁻¹ H₀ H) : H.PosDef :=
    (Beside.of_approaches hA.inv ⟨hH, side⟩ nearer).definite
  constructor
  · intro steps
    obtain ⟨answers, w, H, run, stores', nearer⟩ := stores.calls_approach inverse steps
    exact ⟨answers, w, H, run, stores', definite nearer, nearer,
      fun s => stores'.update_approaches inverse s⟩
  intro b const search plan p clock run
  obtain ⟨x₀, options, given, planned⟩ := run.planned
  obtain ⟨first, tolerances, checked, made⟩ := run.made
  obtain ⟨sameFamily, start⟩ := ofOptions_start planned given
  obtain ⟨sameSearch, kept, unused⟩ := make_ok made
  have computes := run.computes
  let v : Setting n := ⟨family, Quadratic.value A b const, fun x => A *ᵥ x - b, search, tolerances⟩
  have begins : Begins plan work v x₀ H₀ := ⟨start, stores, sameSearch, kept, unused, run.fits⟩
  have positive : 0 < v.tolerances.gradient := tolerances_pos checked
  have ordered {k : ℕ} {c : Checkpoint ℝ (RankOne ℝ) σ}
      (reached : plan.checkpoint solver p work clock k = some c) :
      ∃ x H, Rests v c x H ∧ Approaches A⁻¹ H₀ H :=
    begins.approaches hA rfl computes reached
  -- the matrix at a check is positive definite, wherever it is read
  have descent {k : ℕ} {c : Checkpoint ℝ (RankOne ℝ) σ} {x : Fin n → ℝ} {H : Matrix (Fin n) (Fin n) ℝ}
      (reached : plan.checkpoint solver p work clock k = some c) (rests : Rests v c x H)
      (goesOn : c.run.work.solver.stopReason c.run.state = .ok .notTerminated) :
      0 < v.gradient x ⬝ᵥ H *ᵥ v.gradient x := by
    obtain ⟨x', H', rests', nearer⟩ := ordered reached
    obtain rfl := rests.stores.unique rests'.stores
    exact rests.descent (definite nearer) positive goesOn
  refine ⟨fun k c reached => ?_, fun k c r reached goesOn => ?_, fun slope w clock' failed => ?_,
    fun secant method hs small => ?_⟩
  · obtain ⟨x, H, rests, nearer⟩ := ordered reached
    exact ⟨H, rests.stores, definite nearer, nearer⟩
  · obtain ⟨x, H, rests, -⟩ := ordered reached
    exact rests.descends (descent reached rests (stopReason_of_verdict goesOn))
  · have fault : ∃ cause, Fault.search (.notDescent slope) = .search cause ∧ cause.ofMethod = true := by
      refine begins.fails_in_search (E := fun e => ∃ cause, e = .search cause ∧ cause.ofMethod = true)
        computes sameFamily run.fresh (fun k c x H cost reached rests _ goesOn => ?_)
        (Plan.fails_of_execute failed)
      refine ⟨descent reached rests goesOn, ?_⟩
      exact (searchWith_ensures computes x H cost rests.fits).mono (fun _ _ _ => trivial)
        fun _ _ both => both.1
    obtain ⟨cause, same, own⟩ := fault
    obtain rfl := Fault.search.inj same
    exact absurd own nofun
  · rcases ended : plan.execute solver p work clock with ⟨e | o, w, clock'⟩
    · exfalso
      refine begins.fails_in_search (E := fun _ => False) computes sameFamily run.fresh
        (fun k c x H cost reached rests known goesOn => ?_) (Plan.fails_of_execute ended)
      have falls := descent reached rests goesOn
      have admissible : v.search.method.Admissible := method ▸ hs
      obtain ⟨x', H', stands⟩ := begins.exists_stands computes admissible reached
      obtain ⟨rfl, rfl⟩ := stands.eq_of_rests rests
      obtain rfl := Option.some.inj (stands.cost.symm.trans known)
      have q : v.Convex A b const secant := ⟨hA, rfl, rfl, method, hs, small⟩
      exact ⟨falls, (q.search_ensures computes falls rests.fits).mono (fun _ _ _ => trivial) fun _ _ => id⟩
    · exact ⟨o, w, clock', rfl⟩

end Result

/-- What a short run works on in the beginning: the solver holds twice the identity matrix. -/
noncomputable def doubledWork : Workspace (RankOne ℝ) Unit :=
  freshWork .lenient (ofMatrix .lenient (1 + 1 : Matrix (Fin 2) (Fin 2) ℝ)) (.secant .usual) ()

/-- For instance, on half the square of the length a short run returns that starts with twice the identity,
and calls of the correction only make that matrix smaller, but never smaller than the identity. -/
theorem halfSquare_keeps_order :
    (∀ steps, ∃ answers w, ∃ H : Matrix (Fin 2) (Fin 2) ℝ,
        (calls (1 : Matrix (Fin 2) (Fin 2) ℝ) .lenient steps).outcome doubledWork = (.ok answers, w) ∧
        w.solver.Stores .lenient H ∧ 1 ≤ H ∧ H ≤ 1 + 1) ∧
      ∃ o w clock', (Plan.short true).execute solver Quadratic.halfSquare.problem doubledWork .still =
        (.ok o, w, clock') := by
  have definite : (1 + 1 : Matrix (Fin 2) (Fin 2) ℝ).PosDef := PosDef.one.add PosDef.one
  have above : (1 : Matrix (Fin 2) (Fin 2) ℝ)⁻¹ ≤ 1 + 1 := by
    rw [inv_one, le_iff, add_sub_cancel_right]
    exact PosSemidef.one
  have checked : ({} : Tolerances ℝ).check = .ok {} := usual_tolerances
  have made : make (ofMatrix .lenient (1 + 1 : Matrix (Fin 2) (Fin 2) ℝ))
      (some { method := .secant .usual }) {} = .ok doubledWork.solver := rfl
  have run : QuadraticRun 1 0 0 .lenient { method := .secant .usual } (Plan.short true)
      Quadratic.halfSquare.problem doubledWork := {
    computes := Quadratic.halfSquare_computes .lenient
    planned := ⟨![3, 4], _, rfl, Plan.short_planned true⟩
    made := ⟨_, {}, checked, made⟩
    fresh := rfl
    fits := Ledger.fits_of_eq rfl }
  have stores : doubledWork.solver.Stores .lenient (1 + 1 : Matrix (Fin 2) (Fin 2) ℝ) := ⟨rfl, rfl⟩
  obtain ⟨calls, runs⟩ := run_keeps_order PosDef.one definite (.inl above) stores
  obtain ⟨-, -, -, returns⟩ := runs 0 0 _ _ _ .still run
  refine ⟨fun steps => ?_, returns .usual rfl Secant.usual_admissible (by norm_num [Secant.usual])⟩
  obtain ⟨answers, w, H, ran, stores, -, nearer, -⟩ := calls steps
  obtain ⟨least, less⟩ := nearer.above above
  rw [inv_one] at least
  exact ⟨answers, w, H, ran, stores, least, less⟩

end QuasiNewton.RankOne
