import QuasiNewton.Proofs.Exact.FiniteEntries
import QuasiNewton.Proofs.Objective.Twins

/-!
# Checked evaluations

What comes back from a counted evaluation is finite, whatever the problem answers. Where the family of the
point is known, the cost can fail in one way only, by a failed evaluation; so can the gradient, provided that
what the problem answers for it are arrays that its family can compute with.
-/

set_option autoImplicit false

namespace QuasiNewton

open Attempt Evaluation

variable {α σ : Type}

/-- Whether a failure is a failed evaluation. -/
def Fault.ofEvaluation : Fault α → Bool
  | evaluation _ => true
  | raised report => report.kind = .evaluation
  | _ => false

/-- Whether a failure is one of a line search. -/
def Fault.ofSearch : Fault α → Bool
  | search _ => true
  | _ => false

/-- An answer that a family can compute with: an array, and no strict one in the lenient family. -/
def Reply.Fits (f : Family) (reply : Reply α) : Prop :=
  ∃ t, reply = .tensor t ∧ (f = .lenient → t.family? ≠ some .strict)

/-- A problem whose gradient, where it has one, answers what a family can compute with. -/
def Problem.AnswersArrays (p : Problem α σ) (f : Family) : Prop :=
  ∀ code ∈ p.gradient?, ∀ x s reply, ((code x).run.run s).1 = .ok reply → reply.Fits f

/-- No family computes with a strict array of integers, and that is all that can be wrong with a point. -/
theorem Family.eq_of_ofTensor_error {x : Tensor α} {fault : Fault α} (h : Family.ofTensor x = .error fault) :
    fault = .integerPoint := by
  unfold Family.ofTensor at h
  split at h
  · split at h
    · exact (Except.error.inj h).symm
    · cases h
  · cases h

namespace Evaluation

/-- What a problem reports is passed on as a failed evaluation. -/
theorem ofEvaluation_reported (report : Raised) (otherwise : String → EvaluationFault α) :
    (reported report otherwise).ofEvaluation = true := by
  unfold reported
  split
  · next same => exact decide_eq_true same
  · rfl

theorem ofSearch_reported (report : Raised) (otherwise : String → EvaluationFault α) :
    (reported report otherwise).ofSearch = false := by
  unfold reported
  split <;> rfl

theorem family_failsOnly (x : Tensor α) :
    (family x : Evaluation α σ Family).FailsOnly fun e => e.ofSearch = false := by
  refine FailsOnly.states.bind fun ledger => ?_
  rcases ledger.family? with _ | f
  · refine FailsOnly.bind (.ofExcept fun fault found => ?_) fun f => (FailsOnly.change _).bind fun _ => .pure f
    rw [Family.eq_of_ofTensor_error found]
    rfl
  · exact .pure f

theorem consult_failsOnly {ε β : Type} (code : ExceptT ε (StateM σ) β) {E : Fault α → Prop} :
    (consult code : Evaluation α σ (Except ε β)).FailsOnly E := fun _ => trivial

/-- The family of a ledger is the known one, or else that of the point. -/
theorem outcome_family_of_ofTensor {x : Tensor α} {f : Family} (found : Family.ofTensor x = .ok f)
    (l : Ledger σ) :
    (family x : Evaluation α σ Family).outcome l =
      (.ok (l.family?.getD f), { l with family? := some (l.family?.getD f) }) := by
  rw [outcome_family]
  obtain ⟨own, costs, gradients, state⟩ := l
  cases own with
  | none => simp only [found, Option.getD_none]
  | some g => rfl

end Evaluation

namespace Problem

variable [Scalar α] {p : Problem α σ} {x : Tensor α} {f : Family} {l l' : Ledger σ}

/-! ### Answers -/

/-- A counted evaluation answers finite costs only. -/
theorem isFinite_of_evaluateCost {cost : α} (h : (p.evaluateCost x).outcome l = (.ok cost, l')) :
    Scalar.isFinite cost = true := by
  simp only [evaluateCost, bind_ok] at h
  obtain ⟨family, _, -, _, _, -, reply, _, -, h⟩ := h
  cases reply with
  | error report => exact absurd h throw_ok
  | ok value =>
    dsimp only at h
    split at h
    · next finite =>
      obtain ⟨rfl, -⟩ := pure_ok.mp h
      exact finite
    · exact absurd h throw_ok

/-- A gradient that is answered has passed the checks: it has the shape of the point and finite entries. -/
theorem checked_of_evaluateGradient {gradient : Tensor α}
    (h : (p.evaluateGradient x).outcome l = (.ok gradient, l')) :
    (∃ s, x.shape = .ok s ∧ gradient.shape = .ok s) ∧ gradient.Finite := by
  simp only [evaluateGradient, bind_ok] at h
  obtain ⟨family, _, -, reply, _, -, h⟩ := h
  cases reply with
  | number => exact absurd h throw_ok
  | tensor t =>
    simp only [checkGradient, bind_ok, ofOperands_ok] at h
    obtain ⟨found, _, ⟨own, rfl⟩, expected, _, ⟨home, rfl⟩, h⟩ := h
    split at h
    · exact absurd h throw_ok
    · next same =>
      simp only [bind_ok, ofOperands_ok] at h
      obtain ⟨finite, _, ⟨checked, rfl⟩, h⟩ := h
      split at h
      · next all =>
        obtain ⟨rfl, -⟩ := pure_ok.mp h
        exact ⟨⟨expected, home, of_not_not same ▸ own⟩, Family.finite_of_allFinite (all ▸ checked)⟩
      · exact absurd h throw_ok

/-- A counted evaluation answers gradients with finite entries only. -/
theorem finite_of_evaluateGradient {gradient : Tensor α}
    (h : (p.evaluateGradient x).outcome l = (.ok gradient, l')) : gradient.Finite :=
  (checked_of_evaluateGradient h).2

/-! ### Counts -/

omit [Scalar α] in
/-- Finding the family counts nothing. -/
theorem family_counts (x : Tensor α) (l : Ledger σ) :
    (family x : Evaluation α σ Family).Ensures l
      (fun _ t => t.costCalls = l.costCalls ∧ t.gradientCalls = l.gradientCalls) fun _ _ => True := by
  unfold Ensures
  rw [outcome_family]
  rcases l.family? with _ | f
  · rcases Family.ofTensor x with fault | f
    · exact trivial
    · exact ⟨rfl, rfl⟩
  · exact ⟨rfl, rfl⟩

/-- An answer for the cost is counted once. -/
theorem evaluateCost_counts (p : Problem α σ) (x : Tensor α) (l : Ledger σ) :
    (p.evaluateCost x).Ensures l (fun cost t => t.costCalls = l.costCalls + 1 ∧
      t.gradientCalls = l.gradientCalls ∧ Scalar.isFinite cost = true) fun _ _ => True := by
  rw [evaluateCost, ensures_bind]
  refine (family_counts x l).mono (fun _ t => ?_) fun _ _ => id
  rintro ⟨costs, gradients⟩
  rw [ensures_bind, ensures_modify, ensures_bind]
  refine ensures_of_ok (outcome_consult _ _) ?_
  rcases ((p.cost x).run.run _).1 with report | cost
  · exact trivial
  · dsimp only
    split
    case isTrue finite => exact ⟨congrArg (· + 1) costs, gradients, finite⟩
    case isFalse => exact trivial

/-- What is checked has been counted before. -/
theorem checkGradient_counts (f : Family) (x : Tensor α) (reply : Reply α) {costs gradients : Nat}
    (hc : l.costCalls = costs) (hg : l.gradientCalls = gradients) :
    (checkGradient f x reply).Ensures l
      (fun _ t => t.costCalls = costs ∧ t.gradientCalls = gradients) fun _ _ => True := by
  unfold Ensures
  rcases checked : (checkGradient f x reply).outcome l with ⟨fault | gradient, u⟩
  · exact trivial
  · have same := congrArg Prod.snd checked
    rw [outcome_checkGradient] at same
    subst same
    exact ⟨hc, hg⟩

/-- Where a problem has a gradient of its own, an answer for the gradient is counted once. -/
theorem evaluateGradient_counts (analytic : p.gradient?.isSome = true) (x : Tensor α) (l : Ledger σ) :
    (p.evaluateGradient x).Ensures l (fun _ t => t.costCalls = l.costCalls ∧
      t.gradientCalls = l.gradientCalls + 1) fun _ _ => True := by
  obtain ⟨code, own⟩ := Option.isSome_iff_exists.mp analytic
  rw [evaluateGradient, ensures_bind]
  refine (family_counts x l).mono (fun f t => ?_) fun _ _ => id
  rintro ⟨costs, gradients⟩
  simp only [askGradient, own]
  rw [ensures_bind, ensures_bind, ensures_modify, ensures_bind]
  refine ensures_of_ok (outcome_consult _ _) ?_
  rcases ((code x).run.run _).1 with report | reply
  · exact trivial
  · exact checkGradient_counts f x reply costs (congrArg (· + 1) gradients)

/-! ### Failures -/

/-- Evaluations do not fail as searches do. -/
theorem evaluateCost_failsOnly (p : Problem α σ) (x : Tensor α) :
    (p.evaluateCost x).FailsOnly fun e => e.ofSearch = false := by
  refine (family_failsOnly x).bind fun _ => (FailsOnly.change _).bind fun _ =>
    (consult_failsOnly _).bind fun answer => ?_
  cases answer with
  | error report => exact .throw (ofSearch_reported report _)
  | ok cost =>
    dsimp only
    split
    · exact .pure cost
    · exact .throw rfl

theorem differentiate_failsOnly (p : Problem α σ) (f : Family) (x : Tensor α) :
    (p.differentiate f x).FailsOnly fun e => e.ofSearch = false := by
  refine (consult_failsOnly _).bind fun answer => ?_
  cases answer with
  | error fault =>
    cases fault with
    | raised report => exact .throw (ofSearch_reported report _)
    | _ => exact .throw rfl
  | ok gradient => exact (FailsOnly.change _).bind fun _ => .pure _

theorem askGradient_failsOnly (p : Problem α σ) (f : Family) (x : Tensor α) :
    (p.askGradient f x).FailsOnly fun e => e.ofSearch = false := by
  unfold askGradient
  rcases p.gradient? with _ | code
  · exact (p.differentiate_failsOnly f x).bind fun gradient => .pure _
  · refine (FailsOnly.change _).bind fun _ => (consult_failsOnly _).bind fun answer => ?_
    cases answer with
    | error report => exact .throw (ofSearch_reported report _)
    | ok reply => exact .pure reply

theorem checkGradient_failsOnly (f : Family) (x : Tensor α) (reply : Reply α) :
    (checkGradient f x reply : Evaluation α σ _).FailsOnly fun e => e.ofSearch = false := by
  cases reply with
  | number => exact .throw rfl
  | tensor t =>
    simp only [checkGradient]
    refine (FailsOnly.ofOperands _ fun _ => rfl).bind fun found => ?_
    refine (FailsOnly.ofOperands _ fun _ => rfl).bind fun expected => ?_
    by_cases same : found ≠ expected
    · rw [if_pos same]
      exact .throw rfl
    · rw [if_neg same]
      refine (FailsOnly.ofOperands _ fun _ => rfl).bind fun finite => ?_
      cases finite with
      | true => exact .pure _
      | false => exact .throw rfl

theorem evaluateGradient_failsOnly (p : Problem α σ) (x : Tensor α) :
    (p.evaluateGradient x).FailsOnly fun e => e.ofSearch = false :=
  (family_failsOnly x).bind fun f => (p.askGradient_failsOnly f x).bind (checkGradient_failsOnly f x)

/-- Where the family can be found, a cost that is asked for is counted once, whether it can be evaluated or not, and
it fails by a failed evaluation. -/
theorem evaluateCost_counted (found : Family.ofTensor x = .ok f) (l : Ledger σ) :
    (p.evaluateCost x).Ensures l
      (fun _ t => t.costCalls = l.costCalls + 1 ∧ t.gradientCalls = l.gradientCalls)
      fun e t => e.ofEvaluation = true ∧ t.costCalls = l.costCalls + 1 ∧
        t.gradientCalls = l.gradientCalls := by
  rw [evaluateCost, ensures_bind]
  refine ensures_of_ok (outcome_family_of_ofTensor found l) ?_
  rw [ensures_bind, ensures_modify, ensures_bind]
  refine ensures_of_ok (outcome_consult _ _) ?_
  rcases ((p.cost x).run.run _).1 with report | cost
  · exact ⟨ofEvaluation_reported report _, rfl, rfl⟩
  · dsimp only
    split
    · exact ⟨rfl, rfl⟩
    · exact ⟨rfl, rfl, rfl⟩

/-- A cost fails by a failed evaluation. -/
theorem evaluateCost_fails (found : Family.ofTensor x = .ok f) :
    (p.evaluateCost x).Ensures l (fun _ _ => True) fun e _ => e.ofEvaluation = true :=
  (evaluateCost_counted found l).mono (fun _ _ _ => trivial) fun _ _ => And.left

/-- What is asked of a problem fits the family, or fails by a failed evaluation. -/
theorem askGradient_fits (answers : p.AnswersArrays f) :
    (p.askGradient f x).Ensures l (fun reply _ => reply.Fits f) fun e _ => e.ofEvaluation = true := by
  unfold askGradient
  rcases own : p.gradient? with _ | code
  · simp only [differentiate, ensures_bind]
    refine ensures_of_ok (outcome_consult _ _) ?_
    rcases ((Differences.gradient _ x.values _).run.run _).1 with fault | gradient
    · cases fault with
      | raised report => exact ofEvaluation_reported report _
      | _ => exact rfl
    · refine ⟨f.adopt gradient x, rfl, fun lenient => ?_⟩
      subst lenient
      exact nofun
  · simp only [ensures_bind, ensures_modify]
    refine ensures_of_ok (outcome_consult _ _) ?_
    rcases answered : ((code x).run.run _).1 with report | reply
    · exact ofEvaluation_reported report _
    · exact answers code own x _ reply answered

/-- The families turn numbers into arrays of their own. -/
theorem exists_family_adopt (gradient : Dense α) (x : Tensor α) (f : Family) :
    ∃ k, (f.adopt gradient x).family? = some k ∧ (f = .lenient → k ≠ .strict) := by
  cases f with
  | lenient => exact ⟨.lenient, rfl, nofun⟩
  | strict =>
    refine ⟨.strict, ?_, nofun⟩
    simp only [Family.adopt]
    split <;> rfl

/-- Where the point is an array, an answer that fits is accepted, or refused by a failed evaluation. -/
theorem checkGradient_fits {reply : Reply α} (fits : reply.Fits f) {home : Family}
    (array : x.family? = some home) :
    (checkGradient f x reply : Evaluation α σ _).Ensures l (fun _ _ => True)
      fun e _ => e.ofEvaluation = true := by
  obtain ⟨t, rfl, fits⟩ := fits
  have turned : ∃ u : Tensor α, (if t.family?.isNone then f.adopt t.values x else t) = u ∧
      ∃ k, u.family? = some k ∧ (f = .lenient → k ≠ .strict) := by
    rcases own : t.family? with _ | k
    · exact ⟨_, rfl, exists_family_adopt t.values x f⟩
    · exact ⟨t, rfl, k, own, fun lenient same => fits lenient (own.trans (congrArg some same))⟩
  obtain ⟨u, gradient, k, own, fits⟩ := turned
  have shape : u.shape = .ok u.extent := by simp only [Tensor.shape, own]
  have expected : x.shape = .ok x.extent := by simp only [Tensor.shape, array]
  have checked : ∃ finite, f.allFinite u = .ok finite := by
    have fitting : ¬ (f = .lenient ∧ u.family? = some .strict) := fun both =>
      fits both.1 (Option.some.inj (own.symm.trans both.2))
    rw [Family.allFinite, if_neg fitting]
    cases u.entries <;> exact ⟨_, rfl⟩
  obtain ⟨finite, checked⟩ := checked
  simp only [checkGradient, gradient, shape, expected, checked, ofOperands_of_ok, pure_bind]
  split
  · exact rfl
  · cases finite with
    | false => exact rfl
    | true => exact trivial

/-- At an array, a gradient fails by a failed evaluation if the problem answers arrays. -/
theorem evaluateGradient_fails (found : Family.ofTensor x = .ok f) {home : Family}
    (array : x.family? = some home) (answers : p.AnswersArrays (l.family?.getD f)) :
    (p.evaluateGradient x).Ensures l (fun _ _ => True) fun e _ => e.ofEvaluation = true := by
  unfold evaluateGradient
  rw [ensures_bind]
  refine ensures_of_ok (outcome_family_of_ofTensor found l) ?_
  rw [ensures_bind]
  exact (askGradient_fits answers).mono (fun reply t fits => checkGradient_fits fits array) fun _ _ => id

end Problem

end QuasiNewton
