import QuasiNewton.Proofs.RankOne.VectorRun
import QuasiNewton.Proofs.Run.Failure

/-!
# Progress

A run on vectors goes on as long as its searches succeed: the first check is always reached, and from a
check at which the run does not stop the next one is reached where the search of the step succeeds. All
other parts of a run cannot fail, since all arrays are vectors and matrices of one family and one size
(`Begins.fails_in_search`).
-/

set_option autoImplicit false

namespace QuasiNewton.RankOne

open Attempt Matrix Tensor
open QuasiNewton.Decimal (NumberText)

variable {σ : Type} {n : ℕ} [NumberText ℝ] {p : Problem ℝ σ} {plan : Plan ℝ}
  {work : Workspace (RankOne ℝ) σ} {clock : Clock ℝ} {v : Setting n} {x : Fin n → ℝ}
  {H : Matrix (Fin n) (Fin n) ℝ}

omit [NumberText ℝ] in
/-- A run on vectors accepts every vector with its gradient. -/
theorem accepts_vectors (family : plan.family = v.family) {i : Iterate ℝ} {g : Fin n → ℝ}
    (point : i.point = ofVector v.family x) (gradient : i.gradient? = some (ofVector v.family g)) :
    plan.Accepts i where
  copy := ⟨_, by rw [point, family, Family.copy_ofVector]⟩
  norm := ⟨_, _, gradient, by rw [family, Family.norm_ofVector]⟩

omit [NumberText ℝ] in
theorem requireStage_of_mem {w : Workspace (RankOne ℝ) σ} {allowed : List Status}
    (h : w.lifecycle.status ∈ allowed) :
    (SolverM.requireStage name allowed : SolverM ℝ (RankOne ℝ) σ Unit).Ensures w
      (fun _ w' => w' = w) fun _ _ => False := by
  simp only [SolverM.requireStage, ensures_bind, ensures_get, List.contains_iff_mem, h, if_true]
  exact rfl

omit [NumberText ℝ] in
theorem init_ensures (computes : p.Computes v.family v.cost v.gradient)
    {w : Workspace (RankOne ℝ) σ} (fresh : w.lifecycle.status = .notStarted)
    (fits : w.ledger.Fits v.family) (x : Fin n → ℝ) :
    (init p { point := ofVector v.family x }).Ensures w
      (fun first _ => first.point = ofVector v.family x ∧
        first.gradient? = some (ofVector v.family (v.gradient x))) fun _ _ => False := by
  simp only [init, SolverM.ofEvaluation, SolverM.enterStage, ensures_bind, ensures_onPart,
    ensures_modify, ensures_pure]
  refine (requireStage_of_mem (by simp [fresh])).mono (fun _ w' same => ?_) fun _ _ => id
  subst same
  refine (computes.cost_ensures fits x).mono (fun _ l => ?_) fun _ _ => id
  rintro ⟨-, family⟩
  exact (computes.gradient_ensures (Ledger.fits_of_eq family) x).mono
    (fun gradient _ answered => ⟨trivial, congrArg some answered.1⟩) fun _ _ => id

theorem Begins.exists_checkpoint (computes : p.Computes v.family v.cost v.gradient)
    (begins : Begins plan work v x H) (family : plan.family = v.family)
    (fresh : work.lifecycle.status = .notStarted) :
    ∃ c, plan.checkpoint solver p work clock 0 = some c := by
  have prepared : (plan.opening solver >>= fun _ => plan.prepare solver p).Ensures
      (plan.initial work clock) (fun _ _ => True) fun _ _ => False := by
    simp only [Plan.opening, RunM.readClock, RunM.report, RunM.ofSolver, SolverM.report, ensures_bind,
      ensures_get, ensures_modify, ensures_pure, ensures_onPart, begins.start, length_ofVector,
      ofOperands_of_ok]
    refine Plan.prepare_ensures ?_
    simp only [Plan.initial, begins.start]
    refine (init_ensures computes ?_ ?_ x).mono (fun first w found => ?_) fun _ _ => id
    · exact fresh
    · exact begins.fits
    · exact accepts_vectors family found.1 found.2
  obtain ⟨first, r, run, -⟩ := prepared.exists_ok
  exact ⟨⟨first, r⟩, by simp only [Plan.checkpoint, run]⟩

theorem Rests.step_ensures (computes : p.Computes v.family v.cost v.gradient)
    {c : Checkpoint ℝ (RankOne ℝ) σ} (h : Rests v c x H) {cost : ℝ}
    (known : c.run.state.cost? = some cost) (descent : 0 < v.gradient x ⬝ᵥ H *ᵥ v.gradient x)
    {E : Fault ℝ → Prop}
    (search : (v.searchWith p x H cost).Ensures c.run.work.ledger (fun _ _ => True) fun e _ => E e) :
    (step p c.run.state).Ensures c.run.work
      (fun next _ => ∃ x', next.point = ofVector v.family x' ∧
        next.gradient? = some (ofVector v.family (v.gradient x'))) fun e _ => E e := by
  have falls : v.gradient x ⬝ᵥ -(H *ᵥ v.gradient x) < 0 := by simpa using descent
  -- the search also keeps the family of the ledger
  have searched : (v.searchWith p x H cost).Ensures c.run.work.ledger (fun _ l => l.Fits v.family)
      fun e _ => E e :=
    ((searchWith_ensures computes x H cost h.fits).and search).mono (fun _ _ both => both.1)
      fun _ _ both => both.2
  simp only [step, h.gradient, ensures_bind]
  refine (requireStage_of_mem (by simp [h.iterating])).mono (fun _ w' same => ?_) fun _ _ => False.elim
  subst same
  simp only [stepFrom, SolverM.ofEvaluation, LineSearch.configure, h.point, known, h.search,
    ensures_bind, ensures_get, ensures_onPart, ensures_pure, h.stores.direction_eq, ofOperands_of_ok]
  refine LineSearch.run_ensures_of_descent v.search.method falls
    (searched.mono (fun found l fits => ?_) fun _ _ => id)
  refine (computes.gradient_ensures fits _).mono (fun gradient l => ?_) fun _ _ => False.elim
  rintro ⟨same, -⟩
  subst same
  simp only [sub_ofVector, ofOperands_of_ok, ensures_pure]
  obtain ⟨answer, after, run, -⟩ :=
    Stores.update_eq (w := { c.run.work with ledger := l }) h.stores _ _
  exact ensures_of_ok run ⟨_, rfl, rfl⟩

/-- A step of a run on vectors fails only where its search fails. -/
theorem Rests.advance_ensures (computes : p.Computes v.family v.cost v.gradient)
    (family : plan.family = v.family) {c : Checkpoint ℝ (RankOne ℝ) σ} (h : Rests v c x H) {cost : ℝ}
    (known : c.run.state.cost? = some cost) (descent : 0 < v.gradient x ⬝ᵥ H *ᵥ v.gradient x)
    {E : Fault ℝ → Prop}
    (search : (v.searchWith p x H cost).Ensures c.run.work.ledger (fun _ _ => True) fun e _ => E e) :
    (plan.advance solver p).Ensures c.run (fun _ _ => True) fun e _ => E e := by
  refine Plan.advance_ensures ((h.step_ensures computes known descent search).mono (fun next w made => ?_)
    fun _ _ => id)
  obtain ⟨x', point, gradient⟩ := made
  exact accepts_vectors family point gradient

/-- From a check at which a run does not stop the next check is reached where the search succeeds. -/
theorem Stands.exists_checkpoint (computes : p.Computes v.family v.cost v.gradient)
    (family : plan.family = v.family) {k : ℕ} {c : Checkpoint ℝ (RankOne ℝ) σ} (h : Stands v k c x H)
    (reached : plan.checkpoint solver p work clock k = some c)
    (unlimited : plan.maxTime? = none) (left : k < plan.maxSteps)
    (goesOn : c.run.work.solver.stopReason c.run.state = .ok .notTerminated)
    (descent : 0 < v.gradient x ⬝ᵥ H *ᵥ v.gradient x)
    (succeeds : (v.searchFrom p x H).Ensures c.run.work.ledger (fun _ _ => True)
      fun _ _ => False) :
    ∃ c', plan.checkpoint solver p work clock (k + 1) = some c' := by
  have verdict : (plan.verdict solver clock.read.1 (plan.maxSteps - k)).outcome c.run =
      (.ok .notTerminated, c.run) := by
    have asked : (terminate c.run.state).outcome c.run.work = (.ok .notTerminated, c.run.work) := by
      simp only [terminate, outcome_bind, outcome_get, goesOn, outcome_ofOperands_ok]
    have some : plan.maxSteps - k ≠ 0 := by omega
    simp only [Plan.verdict, RunM.ofSolver, Plan.timeOver, unlimited, outcome_bind, outcome_get,
      outcome_onPart, solver, asked, Reason.terminated, some]
    rfl
  obtain ⟨next, r, run, -⟩ := (h.rests.advance_ensures computes family h.cost descent succeeds).exists_ok
  exact ⟨⟨next, r⟩, by simp only [Plan.checkpoint, reached, Option.bind_some, Plan.nextCheckpoint,
    verdict, run]⟩

/-! ### Failures -/

omit [NumberText ℝ] in
theorem Rests.norm_eq {c : Checkpoint ℝ (RankOne ℝ) σ} (h : Rests v c x H) :
    gradientNorm c.run.work.solver.family c.run.state.gradient? =
      .ok (Real.sqrt (v.gradient x ⬝ᵥ v.gradient x)) := by
  rw [h.gradient, h.stores.family_eq, gradientNorm, Family.norm_ofVector]

omit [NumberText ℝ] in
theorem Rests.exists_stopReason {c : Checkpoint ℝ (RankOne ℝ) σ} (h : Rests v c x H) :
    ∃ reason, c.run.work.solver.stopReason c.run.state = .ok reason := by
  simp only [stopReason, h.norm_eq, bind, Except.bind]
  split
  · exact ⟨_, rfl⟩
  · cases c.run.state.costChange with
    | none => exact ⟨_, rfl⟩
    | some change => exact ⟨_, rfl⟩

omit [NumberText ℝ] in
theorem tolerances_pos {t t' : Tolerances ℝ} (h : t.check = .ok t') : 0 < t.gradient := by
  simp only [Tolerances.check, except_bind_ok, require_ok, decide_eq_true_eq] at h
  obtain ⟨_, -, _, positive, -⟩ := h
  exact positive

omit [NumberText ℝ] in
theorem usual_tolerances : ({} : Tolerances ℝ).check = .ok {} := by
  have epsilon : (0 : ℝ) < Scalar.epsilon := by simp [Scalar.epsilon]
  have root : (0 : ℝ) < Scalar.rootEpsilon := by simp [Scalar.rootEpsilon]
  have small : (0 : ℝ) < 1e-8 := by norm_num
  simp only [Tolerances.check, require, small, root, epsilon, decide_true, if_true]
  rfl

omit [NumberText ℝ] in
/-- Where the gradient is zero, the solver would stop. -/
theorem Rests.stopReason_of_gradient_eq_zero {c : Checkpoint ℝ (RankOne ℝ) σ} (h : Rests v c x H)
    (positive : 0 < v.tolerances.gradient) (zero : v.gradient x = 0) :
    c.run.work.solver.stopReason c.run.state = .ok .targetPrecision := by
  have norm := h.norm_eq
  rw [zero, dotProduct_zero, Real.sqrt_zero] at norm
  simp only [stopReason, norm, bind, Except.bind, h.tolerances, positive, if_true]
  rfl

omit [NumberText ℝ] in
/-- Where neither the gradient is small nor the change of the cost, the solver would go on. -/
theorem Rests.stopReason_of_changing {c : Checkpoint ℝ (RankOne ℝ) σ} (h : Rests v c x H)
    (large : v.tolerances.gradient ≤ Real.sqrt (v.gradient x ⬝ᵥ v.gradient x))
    (changing : ∀ change, c.run.state.costChange = some change → v.tolerances.cost ≤ change) :
    c.run.work.solver.stopReason c.run.state = .ok .notTerminated := by
  simp only [stopReason, h.norm_eq, bind, Except.bind, h.tolerances, not_lt.mpr large, if_false]
  cases known : c.run.state.costChange with
  | none => rfl
  | some change =>
    simp only [not_lt.mpr (changing change known), if_false]
    rfl

omit [NumberText ℝ] in
/-- Where the gradient is not small and no change of the cost is known, the solver would go on. -/
theorem Rests.stopReason_of_large {c : Checkpoint ℝ (RankOne ℝ) σ} (h : Rests v c x H)
    (large : v.tolerances.gradient ≤ Real.sqrt (v.gradient x ⬝ᵥ v.gradient x))
    (unknown : c.run.state.costChange = none) :
    c.run.work.solver.stopReason c.run.state = .ok .notTerminated :=
  h.stopReason_of_changing large fun _ known => absurd (unknown.symm.trans known) nofun

omit [NumberText ℝ] in
theorem Rests.terminate_ensures {c : Checkpoint ℝ (RankOne ℝ) σ} (h : Rests v c x H) :
    (terminate c.run.state).Ensures c.run.work (fun _ _ => True) fun _ _ => False := by
  obtain ⟨own, asked⟩ := h.exists_stopReason
  simp only [terminate, ensures_bind, ensures_get, asked, ofOperands_of_ok, ensures_pure]

/-- A run goes on only where the solver would not stop. -/
theorem stopReason_of_verdict {startTime : ℝ} {left : ℕ} {r r' : RunState ℝ (RankOne ℝ) σ}
    (goesOn : (plan.verdict solver startTime left).outcome r = (.ok .notTerminated, r')) :
    r.work.solver.stopReason r.state = .ok .notTerminated := by
  obtain ⟨own, asked, ⟨-, same⟩ | ⟨open_, -⟩⟩ := (Plan.verdict_ok goesOn).decided
  · exact same ▸ (terminate_ok asked).1
  · obtain rfl : own = .notTerminated := by
      cases own <;> first | rfl | cases open_
    exact (terminate_ok asked).1

/-- **A run from a vector fails only in a search.** All its other parts compute with vectors and matrices
of one family and one size. -/
theorem Begins.fails_in_search (computes : p.Computes v.family v.cost v.gradient)
    (begins : Begins plan work v x H) (family : plan.family = v.family)
    (fresh : work.lifecycle.status = .notStarted) {E : Fault ℝ → Prop}
    (searches : ∀ k c x H cost, plan.checkpoint solver p work clock k = some c → Rests v c x H →
      c.run.state.cost? = some cost →
      c.run.work.solver.stopReason c.run.state = .ok .notTerminated →
      0 < v.gradient x ⬝ᵥ H *ᵥ v.gradient x ∧
        (v.searchWith p x H cost).Ensures c.run.work.ledger (fun _ _ => True) fun e _ => E e)
    {e : Fault ℝ} (fails : plan.Fails solver p work clock e) : E e := by
  have rests {k : ℕ} {c : Checkpoint ℝ (RankOne ℝ) σ}
      (reached : plan.checkpoint solver p work clock k = some c) : ∃ x H, Rests v c x H := by
    obtain ⟨x, H, rests, -⟩ := begins.exists_rests (P := fun _ => True) computes trivial
      (fun _ _ _ _ => trivial) reached
    exact ⟨x, H, rests⟩
  cases fails with
  | early failed =>
    obtain ⟨c, reached⟩ : ∃ c, plan.checkpoint solver p work clock 0 = some c :=
      begins.exists_checkpoint computes family fresh
    simp [Plan.checkpoint, failed] at reached
  | check reached failed =>
    obtain ⟨x, H, rests⟩ := rests reached
    exact ((Plan.verdict_ensures rests.terminate_ensures _ _).of_error failed).elim
  | @step k c r r' reached goesOn failed =>
    obtain ⟨x, H, rests⟩ := rests reached
    obtain ⟨cost, known⟩ := rests.cost
    obtain ⟨sameWork, sameState, -⟩ := checked_ok (Plan.verdict_ok goesOn)
    obtain ⟨descent, search⟩ := searches k c x H cost reached rests known (stopReason_of_verdict goesOn)
    have after : Rests v ⟨c.last, r⟩ x H := {
      point := by rw [sameState, rests.point]
      gradient := by rw [sameState, rests.gradient]
      cost := ⟨cost, by rw [sameState, known]⟩
      last := rests.last
      stores := by rw [sameWork]; exact rests.stores
      search := by rw [sameWork, rests.search]
      tolerances := by rw [sameWork, rests.tolerances]
      iterating := by rw [sameWork, rests.iterating]
      fits := by rw [sameWork]; exact rests.fits }
    have advanced : (plan.advance solver p).Ensures r (fun _ _ => True) fun e _ => E e :=
      after.advance_ensures computes family (by rw [sameState, known]) descent (by rwa [sameWork])
    exact advanced.of_error failed
  | closing reached _ failed =>
    obtain ⟨x, H, rests⟩ := rests reached
    have norm : ∃ gradient norm, _ = some gradient ∧ plan.family.norm gradient = .ok norm :=
      ⟨_, _, rests.last, by rw [family, Family.norm_ofVector]⟩
    exact ((Plan.closing_ensures norm _ _).of_error failed).elim

end QuasiNewton.RankOne
