import QuasiNewton.Proofs.Objective.Twins
import QuasiNewton.Proofs.RankOne.SideBySide
import QuasiNewton.Proofs.RankOne.Square

/-!
# Rank-one solvers on twin problems

Two equal rank-one solvers on twin problems do the same, whatever the states of the problems are and
whatever their journals let through: the only thing a journal decides is whether a corrected matrix is asked
for its definiteness, and a square matrix always answers. So their runs end with equal outcomes or with equal
faults, and they leave equal solvers (`RankOne.execute_twin`).
-/

set_option autoImplicit false

namespace QuasiNewton

open Attempt
open QuasiNewton.Decimal (NumberText)

variable {α σ τ : Type}

/-! ### What stands for itself -/

/-- Everything stands for itself alone. -/
def Likeness.same (family : Family) : Likeness α := ⟨family, family, Eq, Eq, Eq, Eq, Eq⟩

theorem Likeness.same_ofEquals (family : Family) : (same family : Likeness α).OfEquals :=
  ⟨fun _ _ => Eq.symm, fun _ _ => Eq.symm, fun _ _ => Eq.symm, fun _ _ => Eq.symm, fun _ _ => Eq.symm⟩

theorem Likeness.same_observed [Scalar α] (family : Family) : (same family : Likeness α).Observed where
  length _ _ same := congrArg Tensor.length (Eq.symm same)
  copy _ _ same := .of_eq (congrArg family.copy same)
  norm _ _ same := congrArg family.norm (Eq.symm same)
  plain _ _ := rfl
  ofOptimization _ _ same := congrArg Fault.ofOptimization (Eq.symm same)

theorem Iterate.alike_of_eq {family : Family} {i i' : Iterate α} (h : i = i') :
    i.Alike (.same family) i' := by
  subst h
  refine ⟨rfl, rfl, ?_⟩
  cases i.gradient? with
  | none => exact .none
  | some g => exact .some rfl

/-- Two ledgers that differ at most in the state of the problem. -/
def Ledger.SameCounts (R : σ → τ → Prop) (l : Ledger σ) (m : Ledger τ) : Prop :=
  l.family? = m.family? ∧ l.costCalls = m.costCalls ∧ l.gradientCalls = m.gradientCalls ∧
    R l.state m.state

/-- Evaluations keep the counts of two ledgers equal. -/
theorem Ledger.sameCounts_matching (R : σ → τ → Prop) : Ledger.Matching R (SameCounts R) where
  family _ _ same := same.1
  state _ _ same := same.2.2.2
  choose _ _ _ same _ := ⟨rfl, same.2⟩
  countCost _ _ n same := ⟨same.1, congrArg (· + n) same.2.1, same.2.2⟩
  countGradient _ _ same := ⟨same.1, same.2.1, congrArg (· + 1) same.2.2.1, same.2.2.2⟩
  consult _ _ _ _ same related := ⟨same.1, same.2.1, same.2.2.1, related⟩

variable [Scalar α] {R : σ → τ → Prop} {L : Ledger σ → Ledger τ → Prop} {p : Problem α σ}
  {q : Problem α τ}

/-! ### Searches -/

section Searches

variable (twins : p.Twins R q) (h : Ledger.Matching R L)

include twins h

theorem Problem.line_twin (family : Family) (x d : Tensor α) :
    (p.line family x d).Simulates L (q.line family x d) where
  cost alpha := (Simulates.ofOperands _).bind fun z _ same => same ▸ twins.evaluateCost h z
  slope alpha := by
    refine (Simulates.ofOperands _).bind fun z _ same => ?_
    subst same
    refine (twins.evaluateGradient h z).bind fun g _ same => ?_
    subst same
    exact .ofOperands _

/-- A search takes the same course on twins. -/
theorem LineSearch.run_twin (s : LineSearch α) : (s.run p).Simulates L Eq (s.run q) := by
  have gradients (x : Tensor α) : (s.startGradient p x).Simulates L Eq (s.startGradient q x) := by
    unfold startGradient
    split
    · exact .pure rfl
    · exact twins.evaluateGradient h x
  have costs (x : Tensor α) : (s.startCost p x).Simulates L Eq (s.startCost q x) := by
    unfold startCost
    split
    · split
      · exact .pure rfl
      · exact twins.evaluateCost h x
    · exact twins.evaluateCost h x
  unfold run
  split
  · refine (Simulates.ofExcept _).bind fun family _ same => ?_
    subst same
    refine (gradients _).bind fun gradient _ same => ?_
    subst same
    refine (costs _).bind fun cost _ same => ?_
    subst same
    refine (Simulates.ofOperands _).bind fun slope _ same => ?_
    subst same
    split
    · refine (Method.search_simulates (Problem.line_twin twins h _ _ _) _ _ _).bind fun step _ same => ?_
      subst same
      refine (Simulates.ofOperands _).bind fun z _ same => ?_
      subst same
      exact .pure rfl
    · exact .throw _
  · exact .throw _

end Searches

/-! ### The solver -/

namespace RankOne

/-- Two equal solvers with a square matrix. -/
def SameSquare (r r' : RankOne α) : Prop := r' = r ∧ ∃ n, r.inverse.Square False n

variable (twins : p.Twins R q) (h : Ledger.Matching R L)

include twins h in
theorem searchOf_twin (r : RankOne α) (state : IterState α) (g : Tensor α) :
    (r.searchOf p state g).Simulates L Eq (r.searchOf q state g) :=
  (Simulates.ofOperands _).bind fun _ _ same => same ▸ LineSearch.run_twin twins h _

variable [NumberText α]

/-- Equal solvers with a square matrix correct it alike. -/
theorem update_twin (s y : Tensor α) :
    (update s y : SolverM α (RankOne α) σ Bool).Corresponds (Workspace.Alike L SameSquare) Eq Eq
      (update s y : SolverM α (RankOne α) τ Bool) := by
  refine update_corresponds
    (C := fun c c' => c' = c ∧ ∀ m, c = .made m → ∃ n, m.Square False n) ?_ ?_ ?_ fun _ => rfl
  · rintro _ r ⟨rfl, n, held⟩
    rcases computed : r.correction s y with cause | c
    · exact .error rfl
    · exact .ok ⟨rfl, fun m made => ⟨n, square_of_correction held False.elim (made ▸ computed)⟩⟩
  · rintro _ c ⟨rfl, square⟩
    have examinable : c.Examinable := fun m made => (square m made).elim fun _ h => h.isDefinite _
    exact ⟨examinable, examinable, rfl⟩
  · rintro _ r _ c ⟨rfl, held⟩ ⟨rfl, square⟩
    refine ⟨rfl, ?_⟩
    cases c with
    | skipped size threshold => exact held
    | made m => exact square m rfl

include twins h

omit [NumberText α] in
theorem init_twin (state : IterState α) :
    (init p state).Corresponds (Workspace.Alike L SameSquare) Eq Eq (init q state) := by
  have costs := simulates_iff_corresponds.mp (twins.evaluateCost h state.point)
  have gradients := simulates_iff_corresponds.mp (twins.evaluateGradient h state.point)
  refine (SolverM.requireStage_alike (Likeness.same_observed .lenient) _ _).bind fun _ _ _ => ?_
  refine (SolverM.ofEvaluation_alike costs).bind fun c _ same => ?_
  subst same
  refine (SolverM.ofEvaluation_alike gradients).bind fun g _ same => ?_
  subst same
  refine (Corresponds.change fun w w' related => ?_).bind fun _ _ _ => .pure rfl
  exact { related with lifecycle := by rw [related.lifecycle] }

theorem stepFrom_twin (state : IterState α) (g : Tensor α) :
    (stepFrom p state g).Corresponds (Workspace.Alike L SameSquare) Eq Eq (stepFrom q state g) := by
  rw [stepFrom_eq, stepFrom_eq]
  refine Corresponds.states.bind fun w w' related => ?_
  rw [related.solver.1]
  have searches := simulates_iff_corresponds.mp (searchOf_twin twins h w.solver state g)
  refine (SolverM.ofEvaluation_alike searches).bind fun found _ same => ?_
  subst same
  have gradients := simulates_iff_corresponds.mp (twins.evaluateGradient h found.point)
  refine (SolverM.ofEvaluation_alike gradients).bind fun gradient _ same => ?_
  subst same
  refine (Corresponds.ofOperands (.of_eq rfl) fun _ => rfl).bind fun y _ same => ?_
  subst same
  refine (Corresponds.ofOperands (.of_eq rfl) fun _ => rfl).bind fun s _ same => ?_
  subst same
  exact (update_twin s y).bind fun _ _ _ => .pure rfl

theorem step_twin (state : IterState α) :
    (step p state).Corresponds (Workspace.Alike L SameSquare) Eq Eq (step q state) := by
  refine (SolverM.requireStage_alike (Likeness.same_observed .lenient) _ _).bind fun _ _ _ => ?_
  split
  · exact stepFrom_twin twins h state _
  · refine Corresponds.states.bind fun w w' related => ?_
    rw [related.solver.1]
    exact .throw rfl

/-- **Equal rank-one solvers do the same on twins.** -/
theorem solver_twin (family : Family) :
    Solver.Alike (.same family) L SameSquare (solver : Solver α (RankOne α) σ) p
      (solver : Solver α (RankOne α) τ) q where
  init s s' states := by
    obtain rfl := (Likeness.same_ofEquals family).state states
    exact (init_twin twins h _).mono (fun _ _ => Iterate.alike_of_eq) fun _ _ => id
  step s s' states := by
    obtain rfl := (Likeness.same_ofEquals family).state states
    exact (step_twin twins h _).mono (fun _ _ => Iterate.alike_of_eq) fun _ _ => id
  terminate s s' states := by
    obtain rfl := (Likeness.same_ofEquals family).state states
    refine Corresponds.states.bind fun w w' related => ?_
    rw [related.solver.1]
    exact .ofOperands (.of_eq rfl) fun _ => rfl

omit h in
/-- **Runs on twins with equal solvers end alike**, with one outcome or with one fault, and they leave equal
solvers. -/
theorem execute_twin (plan : Plan α) {work : Workspace (RankOne α) σ} {work' : Workspace (RankOne α) τ}
    (works : work.Alike (Ledger.SameCounts R) SameSquare work') (clock : Clock α) :
    (plan.execute solver q work' clock).1 = (plan.execute solver p work clock).1 ∧
      (plan.execute solver q work' clock).2.1.solver =
        (plan.execute solver p work clock).2.1.solver := by
  have equals := Likeness.same_ofEquals (α := α) plan.family
  have plans : plan.Alike (.same plan.family) plan := ⟨rfl, rfl, rfl, rfl, rfl, rfl⟩
  obtain ⟨answers, works, -⟩ := Plan.execute_alike (Likeness.same_observed plan.family) plans
    (solver_twin twins (Ledger.sameCounts_matching R) plan.family) works clock
  refine ⟨(answers.mono (fun o o' alike => ?_) fun _ _ => id).eq.symm, works.solver.1⟩
  obtain ⟨l, l', ⟨-, costs, gradients, -⟩, nfev, njev, nfev', njev'⟩ := alike.counts
  have sameCosts : o'.costCalls = o.costCalls := nfev'.trans (costs.symm.trans nfev.symm)
  have sameGradients : o'.gradientCalls = o.gradientCalls := njev'.trans (gradients.symm.trans njev.symm)
  obtain ⟨x, c, norm, steps, reason, costCalls, gradientCalls, history⟩ := o
  obtain ⟨x', c', norm', steps', reason', costCalls', gradientCalls', history'⟩ := o'
  obtain rfl := equals.point _ _ alike.point
  obtain rfl := equals.cost _ _ alike.cost
  obtain rfl := equals.history alike.history
  obtain rfl := alike.gradientNorm
  obtain rfl := alike.steps
  obtain rfl := alike.reason
  obtain rfl := sameCosts
  obtain rfl := sameGradients
  rfl

end RankOne

end QuasiNewton
