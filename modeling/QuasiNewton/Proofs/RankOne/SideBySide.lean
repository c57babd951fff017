import QuasiNewton.Proofs.RankOne.Step
import QuasiNewton.Proofs.Run.Guarded
import QuasiNewton.Proofs.Run.SideBySide

/-!
# Two rank-one solvers side by side

Two rank-one solvers that hold matrices which stand for each other, on two problems that answer alike. If
the operations of the two families keep what stands for what (`Likeness.Computed`), then the solvers
compute directions, searches, corrections and reasons to stop that stand for each other (`guarded_alike`),
and their runs take the same course (`execute_alike`). Nothing is asked of the problems beyond their answers:
they may fail, and they may remember what they were asked before.

How a solver refuses a step without a known gradient differs from family to family. No run comes to that, so
the solvers are compared as guarded ones.
-/

set_option autoImplicit false

namespace QuasiNewton

open Attempt
open QuasiNewton.Decimal (NumberText)

variable {α σ σ' : Type}

/-- Two lines with related costs and equal slopes at the same step lengths. -/
structure Line.Alike (π : Likeness α) (R : σ → σ' → Prop) (l : Line α σ) (l' : Line α σ') : Prop where
  cost : ∀ alpha, (l.cost alpha).Corresponds R π.cost π.fault (l'.cost alpha)
  slope : ∀ alpha, (l.slope alpha).Corresponds R Eq π.fault (l'.slope alpha)

structure Step.Alike (π : Likeness α) (s s' : Step α) : Prop where
  alpha : s'.alpha = s.alpha
  cost : π.cost s.cost s'.cost
  trials : s'.trials = s.trials

structure Accepted.Alike (π : Likeness α) (a a' : Accepted α) : Prop where
  point : π.point a.point a'.point
  cost : π.cost a.cost a'.cost
  alpha : a'.alpha = a.alpha
  trials : a'.trials = a.trials

theorem Likeness.OfEquals.accepted {π : Likeness α} (h : π.OfEquals) {a a' : Accepted α}
    (related : a.Alike π a') : a' = a := by
  obtain ⟨x, c, alpha, trials⟩ := a
  obtain ⟨x', c', alpha', trials'⟩ := a'
  obtain rfl := h.point _ _ related.point
  obtain rfl := h.cost _ _ related.cost
  obtain rfl := related.alpha
  obtain rfl := related.trials
  rfl

/-- Two problems whose counted evaluations answer alike at related points. -/
structure Problem.Alike [Scalar α] (π : Likeness α) (L : Ledger σ → Ledger σ' → Prop) (p : Problem α σ)
    (p' : Problem α σ') : Prop where
  cost : ∀ x x', π.point x x' →
    (p.evaluateCost x).Corresponds L π.cost π.fault (p'.evaluateCost x')
  gradient : ∀ x x', π.point x x' →
    (p.evaluateGradient x).Corresponds L π.vector π.fault (p'.evaluateGradient x')

/-- What a rank-one solver computes from points, vectors, matrices and costs keeps what stands for what. -/
structure Likeness.Computed [Scalar α] (π : Likeness α) : Prop extends Likeness.Observed π where
  ofTensor : ∀ x x', π.point x x' → Family.ofTensor x = .ok π.family ∧ Family.ofTensor x' = .ok π.family'
  subPoint : ∀ x x' z z', π.point x x' → π.point z z' → Agree π.vector Eq (x.sub z) (x'.sub z')
  subVector : ∀ u u' v v', π.vector u u' → π.vector v v' → Agree π.vector Eq (u.sub v) (u'.sub v')
  dot : ∀ u u' v v', π.vector u u' → π.vector v v' → π.family'.dot u' v' = π.family.dot u v
  scale : ∀ v v' c, π.vector v v' → Agree π.vector Eq (v.scale (.real c)) (v'.scale (.real c))
  scaledAdd : ∀ x x' c d d', π.point x x' → π.vector d d' →
    Agree π.point Eq (π.family.scaledAdd x (.real c) d) (π.family'.scaledAdd x' (.real c) d')
  mulVec : ∀ m m' v v', π.matrix m m' → π.vector v v' →
    Agree π.vector Eq (π.family.mulVec m v) (π.family'.mulVec m' v')
  square : ∀ v v', π.vector v v' → Agree π.matrix Eq (π.family.outer v v) (π.family'.outer v' v')
  scaleMatrix : ∀ m m' c, π.matrix m m' →
    Agree π.matrix Eq (m.scale (.real c)) (m'.scale (.real c))
  addMatrix : ∀ m m' k k', π.matrix m m' → π.matrix k k' → Agree π.matrix Eq (m.add k) (m'.add k')
  /-- All matrices can be asked for their definiteness. -/
  definite : ∀ m m', π.matrix m m' →
    (∃ answer, m.isDefinite Tensor.definitenessTolerance = .ok answer) ∧
      ∃ answer, m'.isDefinite Tensor.definitenessTolerance = .ok answer
  isFinite : ∀ c c', π.cost c c' → Scalar.isFinite c' = Scalar.isFinite c
  costChange : ∀ a a' b b', π.cost a a' → π.cost b b' → Scalar.abs (a' - b') = Scalar.abs (a - b)
  notDescent : ∀ slope, π.fault (.search (.notDescent slope)) (.search (.notDescent slope))
  /-- Searches along lines that are alike end alike. -/
  search : ∀ {τ τ' : Type} (method : Method α) (R : τ → τ' → Prop) (l : Line α τ) (l' : Line α τ')
    (cost cost' slope : α), l.Alike π R l' → π.cost cost cost' →
    (method.search l cost slope).Corresponds R (Step.Alike π) π.fault (method.search l' cost' slope)

variable [Scalar α] {π : Likeness α} {L : Ledger σ → Ledger σ' → Prop} {p : Problem α σ}
  {p' : Problem α σ'}

/-! ### Searches -/

section Searches

variable (h : π.Computed) (problems : p.Alike π L p')

include h

theorem Problem.pointAt_alike {x x' d d' : Tensor α} (hx : π.point x x') (hd : π.vector d d')
    (alpha : α) :
    (pointAt π.family x d alpha : Evaluation α σ _).Corresponds L π.point π.fault
      (pointAt π.family' x' d' alpha : Evaluation α σ' _) :=
  .ofOperands (h.scaledAdd _ _ _ _ _ hx hd) h.mismatch

include problems

theorem Problem.line_alike {x x' d d' : Tensor α} (hx : π.point x x') (hd : π.vector d d') :
    (p.line π.family x d).Alike π L (p'.line π.family' x' d') where
  cost alpha := (pointAt_alike h hx hd alpha).bind fun z z' hz => problems.cost z z' hz
  slope alpha := by
    refine (pointAt_alike h hx hd alpha).bind fun z z' hz => ?_
    refine (problems.gradient z z' hz).bind fun g g' hg => ?_
    exact .ofOperands (.of_eq (h.dot _ _ _ _ hg hd).symm) h.mismatch

/-- A cost at the start that is not known, or not finite, is evaluated in both searches. -/
theorem LineSearch.startCost_alike {s s' : LineSearch α} (costs : Option.Rel π.cost s.start.cost? s'.start.cost?)
    {x x' : Tensor α} (hx : π.point x x') :
    (s.startCost p x).Corresponds L π.cost π.fault (s'.startCost p' x') := by
  unfold startCost
  rcases hc : s.start.cost? with _ | c <;> rcases hc' : s'.start.cost? with _ | c' <;>
    rw [hc, hc'] at costs <;> cases costs
  · exact problems.cost x x' hx
  · rename_i related
    dsimp only
    rw [h.isFinite c c' related]
    split
    · exact .pure related
    · exact problems.cost x x' hx

theorem LineSearch.run_alike (method : Method α) {x x' g g' d d' : Tensor α} {cost? cost'? : Option α}
    (hx : π.point x x') (hg : π.vector g g') (hc : Option.Rel π.cost cost? cost'?)
    (hd : π.vector d d') :
    (run ⟨method, ⟨some x, some g, cost?, some d⟩⟩ p).Corresponds L (Accepted.Alike π) π.fault
      (run ⟨method, ⟨some x', some g', cost'?, some d'⟩⟩ p') := by
  obtain ⟨families, families'⟩ := h.ofTensor x x' hx
  unfold run
  dsimp only [startGradient]
  rw [families, families']
  simp only [ofExcept_of_ok, pure_bind]
  refine (startCost_alike h problems (by exact hc) hx).bind fun cost cost' hcost => ?_
  refine (Corresponds.ofOperands (.of_eq (h.dot _ _ _ _ hg hd).symm) h.mismatch).bind
    fun slope slope' same => ?_
  subst same
  by_cases descent : slope < 0
  · simp only [descent, if_true]
    have found := h.search method L _ _ cost cost' slope (Problem.line_alike h problems hx hd) hcost
    refine found.bind fun step step' hstep => ?_
    rw [hstep.alpha]
    refine (Problem.pointAt_alike h hx hd step.alpha).bind fun z z' hz => .pure ?_
    exact ⟨hz, hstep.cost, rfl, hstep.trials⟩
  · simp only [descent, if_false]
    exact .throw (h.notDescent slope)

end Searches

namespace RankOne

/-- Two rank-one solvers with related matrices, and with equal searches, tolerances and counts. -/
structure Alike (π : Likeness α) (r r' : RankOne α) : Prop where
  family : r.family = π.family
  family' : r'.family = π.family'
  inverse : π.matrix r.inverse r'.inverse
  search : r'.search = r.search
  tolerances : r'.tolerances = r.tolerances
  updates : r'.updates = r.updates
  skips : r'.skips = r.skips

inductive Correction.Alike (π : Likeness α) : Correction α → Correction α → Prop
  | skipped (size threshold : α) : Alike π (.skipped size threshold) (.skipped size threshold)
  | made {m m' : Tensor α} (inverse : π.matrix m m') : Alike π (.made m) (.made m')

theorem Alike.eq (equals : π.OfEquals) (families : π.family' = π.family) {r r' : RankOne α}
    (h : r.Alike π r') : r' = r := by
  obtain ⟨f, m, s, t, u, k⟩ := r
  obtain ⟨f', m', s', t', u', k'⟩ := r'
  obtain rfl : f' = f := h.family'.trans (families.trans h.family.symm)
  obtain rfl := equals.matrix _ _ h.inverse
  obtain rfl := h.search
  obtain rfl := h.tolerances
  obtain rfl := h.updates
  obtain rfl := h.skips
  rfl

variable (h : π.Computed) {r r' : RankOne α} (solvers : r.Alike π r')

include h solvers

theorem direction_alike {g g' : Tensor α} (hg : π.vector g g') :
    Agree π.vector Eq (r.direction g) (r'.direction g') := by
  unfold direction
  rw [solvers.family, solvers.family']
  exact (h.mulVec _ _ _ _ solvers.inverse hg).bind fun v v' hv => h.scale v v' _ hv

theorem correction_alike {s s' y y' : Tensor α} (hs : π.vector s s') (hy : π.vector y y') :
    Agree (Correction.Alike π) Eq (r.correction s y) (r'.correction s' y') := by
  unfold correction
  rw [solvers.family, solvers.family', solvers.tolerances]
  refine (h.mulVec _ _ _ _ solvers.inverse hy).bind fun z z' hz => ?_
  refine (h.subVector _ _ _ _ hs hz).bind fun v v' hv => ?_
  rw [h.dot _ _ _ _ hv hy, h.dot _ _ _ _ hs hs, h.dot _ _ _ _ hv hv]
  refine (Agree.of_eq rfl).bind fun denominator _ same => ?_
  subst same
  refine (Agree.of_eq rfl).bind fun length _ same => ?_
  subst same
  refine (Agree.of_eq rfl).bind fun missing _ same => ?_
  subst same
  dsimp only
  split
  · exact .ok (.skipped _ _)
  · refine (h.square v v' hv).bind fun q q' hq => ?_
    refine (h.scaleMatrix q q' _ hq).bind fun k k' hk => ?_
    exact (h.addMatrix _ _ _ _ solvers.inverse hk).bind fun m m' hm => .ok (.made hm)

omit h in
theorem apply_alike {c c' : Correction α} (hc : c.Alike π c') :
    (r.apply c).Alike π (r'.apply c') := by
  cases hc with
  | skipped size threshold => exact { solvers with skips := congrArg (· + 1) solvers.skips }
  | made inverse =>
    exact { solvers with inverse := inverse, updates := congrArg (· + 1) solvers.updates }

theorem stopReason_alike {state state' : IterState α} (states : state.Alike π state') :
    r'.stopReason state' = r.stopReason state := by
  have norms : gradientNorm π.family' state'.gradient? = gradientNorm π.family state.gradient? := by
    have gradients := states.gradient
    rcases hg : state.gradient? with _ | g <;> rcases hg' : state'.gradient? with _ | g' <;>
      rw [hg, hg'] at gradients <;> cases gradients
    · rfl
    · exact h.norm g g' ‹_›
  have changes : state'.costChange = state.costChange := by
    have before := states.previousCost
    have now := states.cost
    unfold IterState.costChange
    rcases ha : state.previous.cost? with _ | a <;> rcases ha' : state'.previous.cost? with _ | a' <;>
      rw [ha, ha'] at before <;> cases before
    · rfl
    · rcases hb : state.cost? with _ | b <;> rcases hb' : state'.cost? with _ | b' <;>
        rw [hb, hb'] at now <;> cases now
      · rfl
      · exact congrArg some (h.costChange a a' b b' ‹_› ‹_›)
  unfold stopReason
  rw [solvers.family, solvers.family', norms, changes, solvers.tolerances]

variable (problems : p.Alike π L p')

include problems

theorem searchOf_alike {state state' : IterState α} (states : state.Alike π state') {g g' : Tensor α}
    (hg : π.vector g g') :
    (r.searchOf p state g).Corresponds L (Accepted.Alike π) π.fault (r'.searchOf p' state' g') := by
  refine (Corresponds.ofOperands (direction_alike h solvers hg) h.mismatch).bind fun d d' hd => ?_
  unfold LineSearch.configure
  rw [solvers.search]
  exact LineSearch.run_alike h problems _ states.point hg states.cost hd

end RankOne

/-! ### The solver -/

namespace SolverM

variable {ς ς' β γ : Type} {S : ς → ς' → Prop} {Q : β → γ → Prop} {F : Fault α → Fault α → Prop}

omit [Scalar α] in
theorem ofEvaluation_alike {e : Evaluation α σ β} {e' : Evaluation α σ' γ}
    (evaluations : e.Corresponds L Q F e') :
    (ofEvaluation e : SolverM α ς σ β).Corresponds (Workspace.Alike L S) Q F
      (ofEvaluation e' : SolverM α ς' σ' γ) :=
  evaluations.onPart (fun _ _ related => related.ledger) fun _ _ _ _ related after =>
    { related with ledger := after }

theorem requireStage_alike (h : π.Observed) (name : String) (allowed : List Status) :
    (requireStage name allowed : SolverM α ς σ Unit).Corresponds (Workspace.Alike L S) Eq π.fault
      (requireStage name allowed : SolverM α ς' σ' Unit) := by
  refine Corresponds.states.bind fun w w' related => ?_
  rw [related.lifecycle]
  dsimp only
  split
  · exact .pure rfl
  · exact .throw (h.stage _ _)

end SolverM

namespace RankOne

variable [NumberText α]

/-- A correction that fails in one solver fails in the other one for the same cause; the entries in the
journals may differ. -/
theorem update_corresponds {S : RankOne α → RankOne α → Prop} {C : Correction α → Correction α → Prop}
    {F : Fault α → Fault α → Prop} {s s' y y' : Tensor α}
    (corrections : ∀ r r', S r r' → Agree C Eq (r.correction s y) (r'.correction s' y'))
    (examinable : ∀ c c', C c c' → c.Examinable ∧ c'.Examinable ∧ c.isMade = c'.isMade)
    (kept : ∀ r r' c c', S r r' → C c c' → S (r.apply c) (r'.apply c'))
    (mismatch : ∀ cause, F (.mismatch cause) (.mismatch cause)) :
    (update s y : SolverM α (RankOne α) σ Bool).Corresponds (Workspace.Alike L S) Eq F
      (update s' y' : SolverM α (RankOne α) σ' Bool) := by
  intro w w' related
  have computed := corrections _ _ related.solver
  rcases hc : w.solver.correction s y with cause | c <;>
    rcases hc' : w'.solver.correction s' y' with cause' | c' <;> rw [hc, hc'] at computed <;>
    cases computed
  · rename_i same
    subst same
    rw [update_fails hc, update_fails hc']
    exact ⟨related, .error (mismatch cause)⟩
  · rename_i same
    obtain ⟨first, second, answers⟩ := examinable _ _ same
    obtain ⟨after, run, solver, ledger, lifecycle⟩ := update_succeeds hc first
    obtain ⟨after', run', solver', ledger', lifecycle'⟩ := update_succeeds hc' second
    rw [run, run']
    refine ⟨⟨?_, ?_, ?_⟩, .ok answers⟩
    · dsimp only
      rw [ledger, ledger']
      exact related.ledger
    · dsimp only
      rw [solver, solver']
      exact kept _ _ _ _ related.solver same
    · dsimp only
      rw [lifecycle, lifecycle', related.lifecycle]

variable (h : π.Computed) (problems : p.Alike π L p')

include h

theorem update_alike {s s' y y' : Tensor α} (hs : π.vector s s') (hy : π.vector y y') :
    (update s y : SolverM α (RankOne α) σ Bool).Corresponds (Workspace.Alike L (Alike π)) Eq π.fault
      (update s' y' : SolverM α (RankOne α) σ' Bool) := by
  refine update_corresponds (fun r r' related => correction_alike h related hs hy) (fun c c' same => ?_)
    (fun r r' c c' related same => apply_alike related same) h.mismatch
  cases same with
  | skipped => exact ⟨nofun, nofun, rfl⟩
  | made inverse =>
    obtain ⟨first, second⟩ := h.definite _ _ inverse
    refine ⟨?_, ?_, rfl⟩
    · rintro _ ⟨⟩
      exact first
    · rintro _ ⟨⟩
      exact second

include problems

omit [NumberText α] in
theorem init_alike {state state' : IterState α} (states : state.Alike π state') :
    (init p state).Corresponds (Workspace.Alike L (Alike π)) (Iterate.Alike π) π.fault
      (init p' state') := by
  refine (SolverM.requireStage_alike h.toObserved _ _).bind fun _ _ _ => ?_
  refine (SolverM.ofEvaluation_alike (problems.cost _ _ states.point)).bind fun c c' hc => ?_
  refine (SolverM.ofEvaluation_alike (problems.gradient _ _ states.point)).bind fun g g' hg => ?_
  refine (Corresponds.change fun w w' related => ?_).bind fun _ _ _ => .pure ?_
  · exact { related with lifecycle := by rw [related.lifecycle] }
  · exact ⟨states.point, hc, .some hg⟩

theorem stepFrom_alike {state state' : IterState α} (states : state.Alike π state')
    {g g' : Tensor α} (hg : π.vector g g') :
    (stepFrom p state g).Corresponds (Workspace.Alike L (Alike π)) (Iterate.Alike π) π.fault
      (stepFrom p' state' g') := by
  rw [stepFrom_eq, stepFrom_eq]
  refine Corresponds.states.bind fun w w' related => ?_
  have search := searchOf_alike h related.solver problems states hg
  refine (SolverM.ofEvaluation_alike search).bind fun found found' hfound => ?_
  refine (SolverM.ofEvaluation_alike (problems.gradient _ _ hfound.point)).bind fun k k' hk => ?_
  refine (Corresponds.ofOperands (h.subVector _ _ _ _ hk hg) h.mismatch).bind fun y y' hy => ?_
  refine (Corresponds.ofOperands (h.subPoint _ _ _ _ hfound.point states.point) h.mismatch).bind
    fun s s' hs => ?_
  exact (update_alike h hs hy).bind fun _ _ _ => .pure ⟨hfound.point, hfound.cost, .some hk⟩

theorem step_alike {state state' : IterState α} (states : state.Alike π state') {g g' : Tensor α}
    (known : state.gradient? = some g) (known' : state'.gradient? = some g') (hg : π.vector g g') :
    (step p state).Corresponds (Workspace.Alike L (Alike π)) (Iterate.Alike π) π.fault
      (step p' state') := by
  unfold step
  rw [known, known']
  exact (SolverM.requireStage_alike h.toObserved _ _).bind fun _ _ _ =>
    stepFrom_alike h problems states hg

/-- **Two rank-one solvers with related matrices work alike** on problems that answer alike. -/
theorem guarded_alike : Solver.Alike π L (Alike π) (solver : Solver α (RankOne α) σ).guarded p
    (solver : Solver α (RankOne α) σ').guarded p' where
  init _ _ states := init_alike h problems states
  step state state' states := by
    have gradients := states.gradient
    rcases hg : state.gradient? with _ | g <;> rcases hg' : state'.gradient? with _ | g' <;>
      rw [hg, hg'] at gradients <;> cases gradients
    · rw [Solver.guarded_refuses hg, Solver.guarded_refuses hg']
      exact .throw (h.mismatch _)
    · rw [Solver.guarded_step (by simp [hg]), Solver.guarded_step (by simp [hg'])]
      exact step_alike h problems states hg hg' ‹_›
  terminate state state' states := by
    refine Corresponds.states.bind fun w w' related => ?_
    rw [stopReason_alike h related.solver states]
    exact .ofOperands (.of_eq rfl) h.mismatch

/-! ### Runs -/

omit h problems in
/-- The rank-one solver hands out its iterates with their gradients. -/
theorem solver_informs (p : Problem α σ) : (solver : Solver α (RankOne α) σ).Informs p where
  init _ _ _ _ made := by
    obtain ⟨_, gradient, -, -, -, known, -⟩ := init_ok made
    rw [known, Option.isSome_some]
  step _ _ _ _ made := by
    obtain ⟨_, _, _, gradient, _, -, -, -, rfl, -⟩ := step_parts made
    rfl

variable {plan plan' : Plan α} (plans : plan.Alike π plan') {work : Workspace (RankOne α) σ}
  {work' : Workspace (RankOne α) σ'} (works : work.Alike L (Alike π) work')

include plans works

/-- **Two runs of rank-one solvers end alike** on problems that answer alike. -/
theorem execute_alike (clock : Clock α) :
    Agree (Outcome.Alike π L) π.fault (plan.execute solver p work clock).1
        (plan'.execute solver p' work' clock).1 ∧
      (plan.execute solver p work clock).2.1.Alike L (Alike π)
        (plan'.execute solver p' work' clock).2.1 ∧
      (plan'.execute solver p' work' clock).2.2 = (plan.execute solver p work clock).2.2 := by
  rw [← Plan.execute_guarded (solver_informs p), ← Plan.execute_guarded (solver_informs p')]
  exact Plan.execute_alike h.toObserved plans (guarded_alike h problems) works clock

/-- **They pass through related checks**, as long as either gets there. -/
theorem checkpoint_alike (clock : Clock α) (k : ℕ) :
    Option.Rel (Checkpoint.Alike π L (Alike π)) (plan.checkpoint solver p work clock k)
      (plan'.checkpoint solver p' work' clock k) := by
  rw [← Plan.checkpoint_guarded (solver_informs p), ← Plan.checkpoint_guarded (solver_informs p')]
  exact Plan.checkpoint_alike h.toObserved plans (guarded_alike h problems) works clock k

end RankOne

end QuasiNewton
