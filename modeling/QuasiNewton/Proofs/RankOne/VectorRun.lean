import QuasiNewton.Proofs.LineSearch.Faults
import QuasiNewton.Proofs.Objective.Analytic
import QuasiNewton.Proofs.RankOne.Secant
import QuasiNewton.Proofs.RankOne.Trace

/-!
# Runs on vectors

A run of the rank-one solver on a problem that computes functions of a vector stays with vectors and
matrices: `Stands` says which vector and which matrix a run has reached at a check, and `Stands.advance`
what the next ones are. The point moves against the product of matrix and gradient, and the matrix is
corrected or kept.
-/

set_option autoImplicit false

namespace QuasiNewton.RankOne

open Attempt Matrix Tensor
open QuasiNewton.Decimal (NumberText)

variable {σ : Type} {n : ℕ}

/-- A run that computes with vectors: the functions and the solver it goes on with. -/
structure Setting (n : ℕ) where
  family : Family
  cost : (Fin n → ℝ) → ℝ
  gradient : (Fin n → ℝ) → Fin n → ℝ
  search : LineSearch ℝ
  tolerances : Tolerances ℝ

/-- At the check after `k` steps a run stands at the vector `x` with the matrix `H`. -/
structure Stands (v : Setting n) (k : ℕ) (c : Checkpoint ℝ (RankOne ℝ) σ) (x : Fin n → ℝ)
    (H : Matrix (Fin n) (Fin n) ℝ) : Prop where
  steps : c.run.state.steps = k
  point : c.run.state.point = ofVector v.family x
  gradient : c.run.state.gradient? = some (ofVector v.family (v.gradient x))
  cost : c.run.state.cost? = some (v.cost x)
  last : c.last =
    ⟨ofVector v.family x, v.cost x, some (ofVector v.family (v.gradient x))⟩
  stores : c.run.work.solver.Stores v.family H
  search : c.run.work.solver.search = v.search
  tolerances : c.run.work.solver.tolerances = v.tolerances
  updates : c.run.work.solver.updates ≤ k
  iterating : c.run.work.lifecycle.status = .iterating
  fits : c.run.work.ledger.Fits v.family

/-- At a check a run rests at the vector `x` with the matrix `H`, whatever cost it knows there. -/
structure Rests (v : Setting n) (c : Checkpoint ℝ (RankOne ℝ) σ) (x : Fin n → ℝ)
    (H : Matrix (Fin n) (Fin n) ℝ) : Prop where
  point : c.run.state.point = ofVector v.family x
  gradient : c.run.state.gradient? = some (ofVector v.family (v.gradient x))
  cost : ∃ cost, c.run.state.cost? = some cost
  last : c.last.gradient? = some (ofVector v.family (v.gradient x))
  stores : c.run.work.solver.Stores v.family H
  search : c.run.work.solver.search = v.search
  tolerances : c.run.work.solver.tolerances = v.tolerances
  iterating : c.run.work.lifecycle.status = .iterating
  fits : c.run.work.ledger.Fits v.family

theorem Stands.rests {v : Setting n} {k : ℕ} {c : Checkpoint ℝ (RankOne ℝ) σ} {x : Fin n → ℝ}
    {H : Matrix (Fin n) (Fin n) ℝ} (h : Stands v k c x H) : Rests v c x H where
  point := h.point
  gradient := h.gradient
  cost := ⟨v.cost x, h.cost⟩
  last := by rw [h.last]
  stores := h.stores
  search := h.search
  tolerances := h.tolerances
  iterating := h.iterating
  fits := h.fits

/-- What becomes of the matrix in a step. -/
inductive Corrects (c c' : Checkpoint ℝ (RankOne ℝ) σ) (s y : Fin n → ℝ) (H : Matrix (Fin n) (Fin n) ℝ) :
    Matrix (Fin n) (Fin n) ℝ → Prop where
  | skipped (counted : c'.run.work.solver.skips = c.run.work.solver.skips + 1) : Corrects c c' s y H H
  | made (large : residual H s y ⬝ᵥ y ≠ 0) : Corrects c c' s y H (corrected H s y)

theorem ofOptions_limits {o : RunOptions ℝ} {plan : Plan ℝ} (h : Plan.ofOptions o = .ok plan) :
    plan.maxTime? = o.maxTime? ∧ ∀ m : ℕ, (m : ℝ) ≤ o.maxSteps → m ≤ plan.maxSteps := by
  simp only [Plan.ofOptions, except_bind_ok, mapError_ok] at h
  obtain ⟨_, -, _, -, _, -, _, -, steps, counted, made⟩ := h
  obtain rfl := Except.ok.inj made
  refine ⟨rfl, fun m hm => ?_⟩
  rw [Exact.countOf_of_nonneg (m.cast_nonneg.trans hm)] at counted
  exact Except.ok.inj counted ▸ Nat.le_floor hm

/-- A solver is made with the search and the tolerances it is given, and without corrections. -/
theorem make_ok {α : Type} [Scalar α] {inverse : Tensor α} {search : LineSearch α}
    {tolerances : Tolerances α} {r : RankOne α} (h : make inverse (some search) tolerances = .ok r) :
    r.search = search ∧ r.tolerances = tolerances ∧ r.updates = 0 := by
  simp only [make, except_bind_ok, mapError_ok] at h
  obtain ⟨family, -, shape, -, h⟩ := h
  split at h
  case isTrue =>
    obtain ⟨_, -, made⟩ := except_bind_ok.mp h
    obtain rfl := Except.ok.inj made
    exact ⟨rfl, rfl, rfl⟩
  case isFalse => exact absurd h nofun

/-- A solver can be made with a square matrix of a family that is its own copy. -/
theorem make_of_copy {α : Type} [Scalar α] {family : Family} {inverse : Tensor α} {m : ℕ}
    (own : Family.ofTensor inverse = .ok family) (shape : inverse.shape = .ok [m, m])
    (copied : family.copy inverse = .ok inverse) (search : LineSearch α) (tolerances : Tolerances α) :
    make inverse (some search) tolerances = .ok { family, inverse, search, tolerances } := by
  have square : isSquare [m, m] = true := by simp [isSquare]
  simp only [make, own, shape, copied, mapError_of_ok, square, bind, Except.bind, if_true]
  rfl

/-- What a run on vectors begins with: the vector `x` and a solver that holds the matrix `H` and has not
corrected it. -/
structure Begins (plan : Plan ℝ) (work : Workspace (RankOne ℝ) σ) (v : Setting n) (x : Fin n → ℝ)
    (H : Matrix (Fin n) (Fin n) ℝ) : Prop where
  start : plan.start = ofVector v.family x
  stores : work.solver.Stores v.family H
  search : work.solver.search = v.search
  tolerances : work.solver.tolerances = v.tolerances
  unused : work.solver.updates = 0
  fits : work.ledger.Fits v.family

/-- The search of a step: from the vector `x`, with a cost there, along the direction that the matrix `H`
gives. -/
noncomputable def Setting.searchWith (v : Setting n) (p : Problem ℝ σ) (x : Fin n → ℝ)
    (H : Matrix (Fin n) (Fin n) ℝ) (cost : ℝ) : Attempt ℝ (Ledger σ) (Step ℝ) :=
  v.search.method.search
    (p.line v.family (ofVector v.family x) (ofVector v.family (-(H *ᵥ v.gradient x)))) cost
    (v.gradient x ⬝ᵥ -(H *ᵥ v.gradient x))

/-- The search of a step that starts with the cost of the vector. -/
noncomputable def Setting.searchFrom (v : Setting n) (p : Problem ℝ σ) (x : Fin n → ℝ)
    (H : Matrix (Fin n) (Fin n) ℝ) : Attempt ℝ (Ledger σ) (Step ℝ) :=
  v.searchWith p x H (v.cost x)

/-- A step from the vector `x` with the matrix `H` to the vector `x'` with the matrix `H'`. -/
structure Moves (v : Setting n) (p : Problem ℝ σ) (c c' : Checkpoint ℝ (RankOne ℝ) σ)
    (x : Fin n → ℝ) (H : Matrix (Fin n) (Fin n) ℝ) (x' : Fin n → ℝ)
    (H' : Matrix (Fin n) (Fin n) ℝ) (alpha : ℝ) : Prop where
  /-- The cost falls along the direction. -/
  descent : 0 < v.gradient x ⬝ᵥ H *ᵥ v.gradient x
  found : ∃ trials after, (v.searchFrom p x H).outcome c.run.work.ledger =
    (.ok ⟨alpha, v.cost x', trials⟩, after)
  positive : 0 < alpha
  moved : x' = x - alpha • H *ᵥ v.gradient x
  corrects : Corrects c c' (x' - x) (v.gradient x' - v.gradient x) H H'

variable [NumberText ℝ] {p : Problem ℝ σ} {plan : Plan ℝ} {work : Workspace (RankOne ℝ) σ}
  {clock : Clock ℝ} {v : Setting n}

omit [NumberText ℝ] in
theorem iterate_eq {i : Iterate ℝ} {point : Tensor ℝ} {cost : ℝ} {gradient : Tensor ℝ}
    (hpoint : i.point = point) (hcost : i.cost = cost) (hgradient : i.gradient? = some gradient) :
    i = ⟨point, cost, some gradient⟩ := by
  obtain ⟨_, _, _⟩ := i
  exact congr (congr (congrArg Iterate.mk hpoint) hcost) hgradient

theorem Begins.stands (computes : p.Computes v.family v.cost v.gradient) {x : Fin n → ℝ}
    {H : Matrix (Fin n) (Fin n) ℝ} (begins : Begins plan work v x H)
    {c : Checkpoint ℝ (RankOne ℝ) σ} (h : plan.Prepared solver p work c.last c.run) :
    Stands v 0 c x H := by
  obtain ⟨w, w', same, init, same'⟩ := h.init
  obtain ⟨l, gradient, hcost, hgradient, point, known, sameSolver, iterating⟩ := init_ok init
  simp only [begins.start] at hcost hgradient
  have fits := begins.fits
  rw [← same.ledger] at fits
  obtain ⟨cost, family⟩ := (computes.cost_ensures fits x).of_ok hcost
  obtain ⟨rfl, family'⟩ := (computes.gradient_ensures (Ledger.fits_of_eq family) x).of_ok hgradient
  have last := iterate_eq (point.trans begins.start) cost known
  have sameWork : c.run.work.solver = work.solver :=
    same'.solver.trans (sameSolver.trans same.solver)
  exact {
    steps := by rw [h.state]; rfl
    point := by rw [h.state, last]; rfl
    gradient := by rw [h.state, last]; rfl
    cost := by rw [h.state, last]; rfl
    last := last
    stores := sameWork ▸ begins.stores
    search := sameWork ▸ begins.search
    tolerances := sameWork ▸ begins.tolerances
    updates := by rw [sameWork, begins.unused]
    iterating := by rw [same'.lifecycle, iterating]
    fits := by rw [same'.ledger]; exact Ledger.fits_of_eq family' }

omit [NumberText ℝ] in
theorem searchWith_ensures (computes : p.Computes v.family v.cost v.gradient) (x : Fin n → ℝ)
    (H : Matrix (Fin n) (Fin n) ℝ) (cost : ℝ) {l : Ledger σ} (fits : l.Fits v.family) :
    (v.searchWith p x H cost).Ensures l (fun _ t => t.Fits v.family)
      fun e t => (∃ cause, e = .search cause ∧ cause.ofMethod = true) ∧ t.Fits v.family :=
  Method.search_faults _ (fun cause own => ⟨cause, rfl, own⟩)
    (fun alpha _ fits => (computes.line_cost_ensures fits x _ alpha).mono (fun _ _ kept => kept.2)
      fun _ _ => False.elim)
    (fun alpha _ fits => (computes.line_slope_ensures fits x _ alpha).mono (fun _ _ kept => kept.2)
      fun _ _ => False.elim) _ _ fits

/-- A step from a vector leads to the vector that its search has found, and its correction is computed
from the vectors. -/
theorem Rests.step_vectors (computes : p.Computes v.family v.cost v.gradient)
    {c : Checkpoint ℝ (RankOne ℝ) σ} {x : Fin n → ℝ} {H : Matrix (Fin n) (Fin n) ℝ} (h : Rests v c x H)
    {cost : ℝ} (known : c.run.state.cost? = some cost) {next : Iterate ℝ}
    {w : Workspace (RankOne ℝ) σ}
    (stepped : (step p c.run.state).outcome c.run.work = (.ok next, w)) :
    ∃ (found : Step ℝ) (after : Ledger σ) (correction : Correction ℝ) (x' : Fin n → ℝ),
      x' = x + found.alpha • -(H *ᵥ v.gradient x) ∧
      v.gradient x ⬝ᵥ -(H *ᵥ v.gradient x) < 0 ∧
      (v.searchWith p x H cost).outcome c.run.work.ledger = (.ok found, after) ∧
      next = ⟨ofVector v.family x', found.cost, some (ofVector v.family (v.gradient x'))⟩ ∧
      c.run.work.solver.correction (ofVector v.family (x' - x))
        (ofVector v.family (v.gradient x' - v.gradient x)) = .ok correction ∧
      w.solver = c.run.work.solver.apply correction ∧ w.lifecycle = c.run.work.lifecycle ∧
      w.ledger.Fits v.family := by
  obtain ⟨direction, family, slope, found, searched, gradient, s, y, correction, hdirection, hfamily,
    hslope, descent, hsearch, hpoint, hcost, asked, hgradient, hy, hs, hcorrection, hsolver,
    hlifecycle⟩ :=
    step_ok h.gradient known stepped
  -- all arrays of the step are vectors
  obtain rfl := Except.ok.inj ((h.stores.direction_eq _).symm.trans hdirection)
  rw [h.point] at hfamily hsearch hpoint hs
  obtain rfl := Except.ok.inj ((Family.ofTensor_ofVector _ _).symm.trans hfamily)
  obtain rfl := Except.ok.inj ((Family.dot_ofVector _ _ _).symm.trans hslope)
  have point := Except.ok.inj ((Family.scaledAdd_ofVector _ _ _ _).symm.trans hpoint)
  rw [← point] at asked hs
  obtain rfl := Except.ok.inj ((sub_ofVector _ _ _).symm.trans hs)
  rw [h.search] at hsearch
  have fits : searched.Fits v.family := (searchWith_ensures computes x H cost h.fits).of_ok hsearch
  obtain ⟨rfl, family⟩ := (computes.gradient_ensures fits _).of_ok asked
  obtain rfl := Except.ok.inj ((sub_ofVector _ _ _).symm.trans hy)
  exact ⟨found, searched, correction, _, rfl, descent, hsearch,
    iterate_eq point.symm hcost hgradient, hcorrection, hsolver, hlifecycle, Ledger.fits_of_eq family⟩

/-- With an admissible search the step goes ahead, and its cost is the cost of the vector. -/
theorem Stands.step_vectors (computes : p.Computes v.family v.cost v.gradient)
    (admissible : v.search.method.Admissible) {k : ℕ} {c : Checkpoint ℝ (RankOne ℝ) σ}
    {x : Fin n → ℝ} {H : Matrix (Fin n) (Fin n) ℝ} (h : Stands v k c x H) {next : Iterate ℝ}
    {w : Workspace (RankOne ℝ) σ}
    (stepped : (step p c.run.state).outcome c.run.work = (.ok next, w)) :
    ∃ (alpha : ℝ) (trials : ℕ) (after : Ledger σ) (correction : Correction ℝ) (x' : Fin n → ℝ),
      x' = x + alpha • -(H *ᵥ v.gradient x) ∧ 0 < alpha ∧
      v.gradient x ⬝ᵥ -(H *ᵥ v.gradient x) < 0 ∧
      (v.searchFrom p x H).outcome c.run.work.ledger = (.ok ⟨alpha, v.cost x', trials⟩, after) ∧
      next = ⟨ofVector v.family x', v.cost x', some (ofVector v.family (v.gradient x'))⟩ ∧
      c.run.work.solver.correction (ofVector v.family (x' - x))
        (ofVector v.family (v.gradient x' - v.gradient x)) = .ok correction ∧
      w.solver = c.run.work.solver.apply correction ∧ w.lifecycle = c.run.work.lifecycle ∧
      w.ledger.Fits v.family := by
  obtain ⟨⟨alpha, cost, trials⟩, after, correction, x', moved, descent, search, last, rest⟩ :=
    h.rests.step_vectors computes h.cost stepped
  obtain ⟨-, positive, same, -⟩ := (Method.search_ensures (computes.line_answers x _) admissible descent
    h.fits).of_ok search
  subst moved
  obtain rfl : cost = v.cost (x + alpha • -(H *ᵥ v.gradient x)) := same
  exact ⟨alpha, trials, after, correction, _, rfl, positive, descent, search, last, rest⟩

/-- A step goes against the product of the matrix and the gradient, and corrects or keeps the matrix. -/
theorem Stands.advance (computes : p.Computes v.family v.cost v.gradient)
    (admissible : v.search.method.Admissible) {k : ℕ} {c c' : Checkpoint ℝ (RankOne ℝ) σ}
    {x : Fin n → ℝ} {H : Matrix (Fin n) (Fin n) ℝ} (h : Stands v k c x H) {left : ℕ}
    {r : RunState ℝ (RankOne ℝ) σ} (checked : plan.Checked solver left c.run .notTerminated r)
    (advanced : plan.Advanced solver p r c'.last c'.run) :
    ∃ x' H' alpha, Moves v p c c' x H x' H' alpha ∧ Stands v (k + 1) c' x' H' := by
  obtain ⟨sameWork, sameState, -⟩ := checked_ok checked
  obtain ⟨w, stepped, same⟩ := advanced.step
  rw [sameState, sameWork] at stepped
  obtain ⟨alpha, trials, after, correction, x', moved, positive, descent, found, last, hcorrection,
    hsolver, hlifecycle, fits⟩ := h.step_vectors computes admissible stepped
  have state := advanced.state
  rw [sameState] at state
  have sameSolver : c'.run.work.solver = c.run.work.solver.apply correction :=
    same.solver.trans hsolver
  obtain ⟨sameSearch, sameTolerances⟩ := apply_search c.run.work.solver correction
  have stands {H' : Matrix (Fin n) (Fin n) ℝ} (stores : c'.run.work.solver.Stores v.family H')
      (updates : c'.run.work.solver.updates ≤ k + 1) : Stands v (k + 1) c' x' H' := {
    steps := by simp [state, IterState.advance, h.steps]
    point := by rw [state, last]; rfl
    gradient := by rw [state, last]; rfl
    cost := by rw [state, last]; rfl
    last := last
    stores := stores
    search := by rw [sameSolver, sameSearch, h.search]
    tolerances := by rw [sameSolver, sameTolerances, h.tolerances]
    updates := updates
    iterating := by rw [same.lifecycle, hlifecycle, h.iterating]
    fits := by rw [same.ledger]; exact fits }
  have moves {H' : Matrix (Fin n) (Fin n) ℝ}
      (corrects : Corrects c c' (x' - x) (v.gradient x' - v.gradient x) H H') :
      Moves v p c c' x H x' H' alpha := {
    descent := by simpa using descent
    found := ⟨trials, after, found⟩
    positive := positive
    moved := by rw [moved, smul_neg, ← sub_eq_add_neg]
    corrects := corrects }
  have updates := h.updates
  rcases h.stores.correction_eq _ _ with ⟨size, threshold, skipped⟩ | ⟨large, made⟩
  · obtain rfl := Except.ok.inj (skipped.symm.trans hcorrection)
    exact ⟨x', H, alpha, moves (.skipped (by rw [sameSolver]; rfl)),
      stands (sameSolver ▸ ⟨h.stores.family_eq, h.stores.inverse_eq⟩)
        (by rw [sameSolver]; exact Nat.le_succ_of_le updates)⟩
  · obtain rfl := Except.ok.inj (made.symm.trans hcorrection)
    exact ⟨x', _, alpha, moves (.made large), stands (sameSolver ▸ ⟨h.stores.family_eq, rfl⟩)
        (by rw [sameSolver]; exact Nat.succ_le_succ updates)⟩

/-- Whatever the search is, a step goes along a direction of descent, and corrects or keeps the matrix. -/
theorem Rests.advance (computes : p.Computes v.family v.cost v.gradient)
    {c c' : Checkpoint ℝ (RankOne ℝ) σ} {x : Fin n → ℝ} {H : Matrix (Fin n) (Fin n) ℝ} (h : Rests v c x H)
    {left : ℕ} {r : RunState ℝ (RankOne ℝ) σ} (checked : plan.Checked solver left c.run .notTerminated r)
    (advanced : plan.Advanced solver p r c'.last c'.run) :
    ∃ x' H', Rests v c' x' H' ∧
      (H' = H ∨ H' = corrected H (x' - x) (v.gradient x' - v.gradient x)) := by
  obtain ⟨sameWork, sameState, -⟩ := checked_ok checked
  obtain ⟨w, stepped, same⟩ := advanced.step
  rw [sameState, sameWork] at stepped
  obtain ⟨cost, known⟩ := h.cost
  obtain ⟨found, after, correction, x', moved, descent, search, last, hcorrection, hsolver, hlifecycle,
    fits⟩ := h.step_vectors computes known stepped
  have state := advanced.state
  have sameSolver : c'.run.work.solver = c.run.work.solver.apply correction :=
    same.solver.trans hsolver
  obtain ⟨sameSearch, sameTolerances⟩ := apply_search c.run.work.solver correction
  have rests {H' : Matrix (Fin n) (Fin n) ℝ}
      (stores : (c.run.work.solver.apply correction).Stores v.family H') :
      Rests v c' x' H' := {
    point := by rw [state, last]; rfl
    gradient := by rw [state, last]; rfl
    cost := ⟨found.cost, by rw [state, last]; rfl⟩
    last := by rw [last]
    stores := by rw [sameSolver]; exact stores
    search := by rw [sameSolver, sameSearch, h.search]
    tolerances := by rw [sameSolver, sameTolerances, h.tolerances]
    iterating := by rw [same.lifecycle, hlifecycle, h.iterating]
    fits := by rw [same.ledger]; exact fits }
  rcases h.stores.apply_correction hcorrection with ⟨-, kept⟩ | ⟨-, -, changed⟩
  · exact ⟨x', H, rests kept, .inl rfl⟩
  · exact ⟨x', _, rests changed, .inr rfl⟩

/-- At every check a run rests at a vector with a matrix, which satisfies what corrections keep. The
induction is on the steps. -/
theorem Begins.exists_rests (computes : p.Computes v.family v.cost v.gradient) {x : Fin n → ℝ}
    {H : Matrix (Fin n) (Fin n) ℝ} (begins : Begins plan work v x H)
    {P : Matrix (Fin n) (Fin n) ℝ → Prop} (start : P H)
    (corrected : ∀ H x x', P H → P (corrected H (x' - x) (v.gradient x' - v.gradient x))) {k : ℕ}
    {c : Checkpoint ℝ (RankOne ℝ) σ} (reached : plan.checkpoint solver p work clock k = some c) :
    ∃ x H, Rests v c x H ∧ P H := by
  induction k generalizing c with
  | zero => exact ⟨x, H, (begins.stands computes (Plan.checkpoint_zero reached)).rests, start⟩
  | succ k ih =>
    obtain ⟨c₀, r, before, checked, advanced⟩ := Plan.checkpoint_succ reached
    obtain ⟨x₀, H₀, rests, kept⟩ := ih before
    obtain ⟨x', H', rests', same | changed⟩ := rests.advance computes checked advanced
    · exact ⟨x', H', rests', same ▸ kept⟩
    · exact ⟨x', H', rests', changed ▸ corrected H₀ x₀ x' kept⟩

/-- At every check a run stands at a vector with a matrix, by induction on the steps. -/
theorem Begins.exists_stands (computes : p.Computes v.family v.cost v.gradient)
    (admissible : v.search.method.Admissible) {x : Fin n → ℝ} {H : Matrix (Fin n) (Fin n) ℝ}
    (begins : Begins plan work v x H) {k : ℕ} {c : Checkpoint ℝ (RankOne ℝ) σ}
    (reached : plan.checkpoint solver p work clock k = some c) : ∃ x H, Stands v k c x H := by
  induction k generalizing c with
  | zero => exact ⟨x, H, begins.stands computes (Plan.checkpoint_zero reached)⟩
  | succ k ih =>
    obtain ⟨c₀, r, before, checked, advanced⟩ := Plan.checkpoint_succ reached
    obtain ⟨x₀, H₀, stands⟩ := ih before
    obtain ⟨x', H', -, -, stands'⟩ := stands.advance computes admissible checked advanced
    exact ⟨x', H', stands'⟩

end QuasiNewton.RankOne
