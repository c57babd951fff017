import QuasiNewton.Objective.Formulated
import QuasiNewton.Objective.Quadratic
import QuasiNewton.Proofs.Exact.Arrays
import QuasiNewton.Proofs.Objective.Analytic
import QuasiNewton.Proofs.Objective.Checked

/-!
# One problem in both families

The points of a run are arrays of one family or of the other. Two problems are parallel if the second one
does with strict arrays what the first one does with lenient arrays of the same numbers: it asks for the same
cost, and it answers the same gradient, as an array of its own family or as a plain list. Their counted
evaluations then answer the same, fail in the same way and count the same, with analytic gradients as well as
with central differences.
-/

set_option autoImplicit false

namespace QuasiNewton

open Attempt Evaluation Tensor

variable {α σ β γ : Type} {n : Nat}

/-- The same vector in both families. -/
def Tensor.SameVector (n : Nat) (t t' : Tensor α) : Prop :=
  ∃ x : Fin n → α, t = .double .lenient (.ofFn x) ∧ t' = .double .strict (.ofFn x)

/-- The same answer for a gradient in both families. -/
inductive Reply.Parallel : Reply α → Reply α → Prop
  | number (c : α) : Parallel (.number c) (.number c)
  | list (xs : Dense α) : Parallel (.tensor (.list xs)) (.tensor (.list xs))
  | array (xs : Dense α) : Parallel (.tensor (.double .lenient xs)) (.tensor (.double .strict xs))

/-- The second piece of code mirrors the first: whatever state they begin with, both leave the same state,
and they fail with the same report or give answers related by `Q`. -/
def Mirrors {ε : Type} (Q : β → γ → Prop) (code : ExceptT ε (StateM σ) β)
    (code' : ExceptT ε (StateM σ) γ) : Prop :=
  ∀ s, (code'.run.run s).2 = (code.run.run s).2 ∧
    Agree Q Eq (code.run.run s).1 (code'.run.run s).1

/-- The same problem in both families, on points with `n` entries. -/
structure Problem.Parallel (n : Nat) (p p' : Problem α σ) : Prop where
  cost : ∀ x : Fin n → α,
    p'.cost (.double .strict (.ofFn x)) = p.cost (.double .lenient (.ofFn x))
  gradient : Option.Rel (fun code code' => ∀ x : Fin n → α,
    Mirrors Reply.Parallel (code (.double .lenient (.ofFn x))) (code' (.double .strict (.ofFn x))))
    p.gradient? p'.gradient?

/-- Equal ledgers, but for the family that each of them knows. -/
structure Ledger.Parallel (l l' : Ledger σ) : Prop where
  lenient : l.Fits .lenient
  strict : l'.Fits .strict
  costCalls : l'.costCalls = l.costCalls
  gradientCalls : l'.gradientCalls = l.gradientCalls
  state : l'.state = l.state

theorem Mirrors.of_eq {ε : Type} {code code' : ExceptT ε (StateM σ) β} (same : code' = code) :
    Mirrors Eq code code' := by
  subst same
  exact fun s => ⟨rfl, .of_eq rfl⟩

/-! ### Asking and counting -/

namespace Evaluation

variable {F : Fault α → Fault α → Prop}

theorem family_parallel (x y : Fin n → α) :
    (family (.double .lenient (.ofFn x)) : Evaluation α σ Family).Corresponds Ledger.Parallel
      (fun f f' => f = .lenient ∧ f' = .strict) F (family (.double .strict (.ofFn y))) := by
  intro l l' related
  have known {l : Ledger σ} {f : Family} (fits : l.Fits f) : l.family?.getD f = f := by
    rcases own : l.family? with _ | g
    · rfl
    · exact fits g own
  rw [outcome_family_of_ofTensor (Family.ofTensor_double .lenient (.ofFn x)),
    outcome_family_of_ofTensor (Family.ofTensor_double .strict (.ofFn y)), known related.lenient,
    known related.strict]
  exact ⟨{ related with lenient := Ledger.fits_of_eq rfl, strict := Ledger.fits_of_eq rfl },
    .ok ⟨rfl, rfl⟩⟩

theorem consult_parallel {ε : Type} {Q : β → γ → Prop} {code : ExceptT ε (StateM σ) β}
    {code' : ExceptT ε (StateM σ) γ} (same : Mirrors Q code code') :
    (consult code : Evaluation α σ _).Corresponds Ledger.Parallel (Agree Q Eq) F (consult code') := by
  intro l l' related
  obtain ⟨states, answers⟩ := same l.state
  rw [outcome_consult, outcome_consult, related.state]
  exact ⟨{ related with state := states }, .ok answers⟩

theorem countCost_parallel (k : Nat) :
    (modify (Ledger.countCost · k) : Evaluation α σ PUnit).Corresponds Ledger.Parallel Eq F
      (modify (Ledger.countCost · k)) :=
  .change fun _ _ related => { related with costCalls := congrArg (· + k) related.costCalls }

theorem countGradient_parallel :
    (modify Ledger.countGradient : Evaluation α σ PUnit).Corresponds Ledger.Parallel Eq F
      (modify Ledger.countGradient) :=
  .change fun _ _ related =>
    { related with gradientCalls := congrArg (· + 1) related.gradientCalls }

end Evaluation

variable [Scalar α]

/-- Central differences ask for costs at arrays of one shape only. -/
theorem Differences.gradient_congr {f f' : Dense α → ExceptT Raised (StateM σ) α} {x : Dense α}
    (same : ∀ z, z.shape = x.shape → f' z = f z) (eps : α) :
    gradient f' x eps = gradient f x eps := by
  have quotients (i : Nat) : quotient f' x eps i = quotient f x eps i := by
    unfold quotient
    rw [same (ahead x eps i) rfl, same (behind x eps i) rfl]
  unfold gradient
  simp only [quotients]

namespace Problem

/-! ### Checking -/

section Check

variable (family : Family) (x : Fin n → α) (xs : Dense α)

theorem checkGradient_double :
    (checkGradient family (.double family (.ofFn x)) (.tensor (.double family xs)) :
      Evaluation α σ (Tensor α)) =
      if xs.shape ≠ [n] then throw (.evaluation (.gradientShape xs.shape [n]))
      else if xs.all Scalar.isFinite then pure (.double family xs)
      else throw (.evaluation .gradientNotFinite) := by
  have found : (double family xs).shape = .ok xs.shape := rfl
  have expected : (double family (.ofFn x)).shape = .ok [n] := rfl
  have own : (double family xs).family?.isNone = false := rfl
  simp only [checkGradient, own, Bool.false_eq_true, if_false, found, expected, Family.allFinite_double,
    ofOperands_of_ok, pure_bind]
  by_cases fits : xs.shape = [n]
  · simp only [fits, ne_eq, not_true_eq_false, if_false]
  · simp only [fits, ne_eq, not_false_eq_true, if_true, throw_bind]

/-- A plain list is turned into an array of the family before it is checked. -/
theorem checkGradient_list :
    (checkGradient family (.double family (.ofFn x)) (.tensor (.list xs)) :
      Evaluation α σ (Tensor α)) =
      checkGradient family (.double family (.ofFn x)) (.tensor (.double family xs)) := by
  have adopted : family.adopt (list xs).values (double family (.ofFn x)) = double family xs :=
    Family.adopt_double family _ xs
  have none : (list xs).family?.isNone = true := rfl
  have own : (double family xs).family?.isNone = false := rfl
  simp only [checkGradient, none, own, adopted, if_true, Bool.false_eq_true, if_false]

theorem checkGradient_arrays :
    (checkGradient .lenient (.double .lenient (.ofFn x)) (.tensor (.double .lenient xs)) :
      Evaluation α σ (Tensor α)).Corresponds Ledger.Parallel (SameVector n) Eq
      (checkGradient .strict (.double .strict (.ofFn x)) (.tensor (.double .strict xs))) := by
  rw [checkGradient_double, checkGradient_double]
  by_cases fits : xs.shape = [n]
  · obtain ⟨g, rfl⟩ := Dense.exists_ofFn fits
    simp only [fits, ne_eq, not_true_eq_false, if_false]
    split
    · exact .pure ⟨g, rfl, rfl⟩
    · exact .throw rfl
  · simp only [fits, ne_eq, not_false_eq_true, if_true]
    exact .throw rfl

theorem checkGradient_parallel {reply reply' : Reply α} (same : reply.Parallel reply') :
    (checkGradient .lenient (.double .lenient (.ofFn x)) reply :
      Evaluation α σ (Tensor α)).Corresponds Ledger.Parallel (SameVector n) Eq
      (checkGradient .strict (.double .strict (.ofFn x)) reply') := by
  cases same with
  | number c => exact .throw rfl
  | list xs =>
    rw [checkGradient_list, checkGradient_list]
    exact checkGradient_arrays x xs
  | array xs => exact checkGradient_arrays x xs

end Check

/-! ### Evaluations -/

namespace Parallel

variable {p p' : Problem α σ} (same : p.Parallel n p') (x : Fin n → α)

include same

theorem evaluateCost :
    (p.evaluateCost (.double .lenient (.ofFn x))).Corresponds Ledger.Parallel Eq Eq
      (p'.evaluateCost (.double .strict (.ofFn x))) := by
  refine evaluateCost_corresponds (fun _ _ => rfl) (family_parallel x x) (countCost_parallel 1)
    (consult_parallel (.of_eq (same.cost x))) ?_ ?_
  · rintro c _ rfl
    rfl
  · rintro c _ rfl -
    rfl

theorem differentiate :
    (p.differentiate .lenient (.double .lenient (.ofFn x))).Corresponds Ledger.Parallel
      (fun t t' => ∃ xs, t = .double .lenient xs ∧ t' = .double .strict xs) Eq
      (p'.differentiate .strict (.double .strict (.ofFn x))) := by
  have costs (z : Dense α) (shape : z.shape = (Dense.ofFn x).shape) :
      p'.cost (Family.strict.adopt z (double .strict (.ofFn x))) =
        p.cost (Family.lenient.adopt z (double .lenient (.ofFn x))) := by
    obtain ⟨z, rfl⟩ := Dense.exists_ofFn shape
    rw [Family.adopt_double, Family.adopt_double]
    exact same.cost z
  have values (f : Family) : (double f (.ofFn x)).values = .ofFn x := rfl
  have equal := Differences.gradient_congr costs Differences.standardStep
  refine (differentiate_corresponds (G := Eq) (fun _ _ => rfl) ?_ ?_).mono (fun t t' answers => ?_)
    fun _ _ => id
  · rw [values, values]
    exact countCost_parallel _
  · rw [values, values]
    exact consult_parallel (.of_eq equal)
  obtain ⟨xs, _, rfl, rfl, rfl⟩ := answers
  exact ⟨xs, Family.adopt_double .lenient _ xs, Family.adopt_double .strict _ xs⟩

theorem askGradient :
    (p.askGradient .lenient (.double .lenient (.ofFn x))).Corresponds Ledger.Parallel Reply.Parallel Eq
      (p'.askGradient .strict (.double .strict (.ofFn x))) := by
  have codes := same.gradient
  rcases own : p.gradient? with _ | code <;> rcases own' : p'.gradient? with _ | code' <;>
    rw [own, own'] at codes <;> cases codes
  case none.none =>
    unfold Problem.askGradient
    rw [own, own']
    refine (same.differentiate x).bind fun t t' arrays => ?_
    obtain ⟨xs, rfl, rfl⟩ := arrays
    exact .pure (.array xs)
  case some.some alike =>
    exact askGradient_corresponds (fun _ _ => rfl) own own' countGradient_parallel
      (consult_parallel (alike x))

/-- **Parallel problems answer the same gradients**, or fail in the same way. -/
theorem evaluateGradient :
    (p.evaluateGradient (.double .lenient (.ofFn x))).Corresponds Ledger.Parallel (SameVector n) Eq
      (p'.evaluateGradient (.double .strict (.ofFn x))) := by
  refine (family_parallel x x).bind fun f f' families => ?_
  rw [families.1, families.2]
  exact (same.askGradient x).bind fun reply reply' replies => checkGradient_parallel x replies

end Parallel

end Problem

/-! ### Problems that read numbers only -/

/-- A quadratic problem answers plain lists. -/
theorem Quadratic.problem_parallel {m : Nat} (q : Quadratic α m) :
    (q.problem : Problem α σ).Parallel n q.problem where
  cost _ := rfl
  gradient := by
    refine .some fun x s => ?_
    have same : unknowns m (.double .strict (.ofFn x)) = unknowns m (.double .lenient (.ofFn x)) := rfl
    unfold ofUnknowns
    rw [same]
    rcases unknowns m (.double .lenient (.ofFn x)) with _ | v
    · exact ⟨rfl, .error rfl⟩
    · exact ⟨rfl, .ok (.list _)⟩

namespace Formulated

variable (f : Formulated) (x : Fin n → Float)

theorem reply_parallel (form : GradientForm) (components : List Float) :
    Agree Reply.Parallel Eq (form.reply (.double .lenient (.ofFn x)) components)
      (form.reply (.double .strict (.ofFn x)) components) := by
  cases form with
  | list => exact .ok (.list _)
  | array => exact .ok (.array _)
  | nested => exact .ok (.list _)
  | scalar =>
    cases components with
    | nil => exact .error rfl
    | cons c rest => exact .ok (.number c)

theorem run_gradientAt (components : Components) (t : Tensor Float) (calls : Calls) :
    (f.gradientAt components t).run.run calls =
      (components.eval (scope t calls.gradient) >>= (f.form.reply t ·),
        { calls with gradient := calls.gradient + 1 }) := by
  have lifted {β : Type} (e : Except Raised β) (after : Calls) :
      (liftM e : ExceptT Raised (StateM Calls) β).run.run after = (e, after) := rfl
  have read : (get : ExceptT Raised (StateM Calls) Calls).run.run calls = (.ok calls, calls) := rfl
  have counted (after : Calls) :
      (set after : ExceptT Raised (StateM Calls) PUnit).run.run calls = (.ok ⟨⟩, after) := rfl
  simp only [gradientAt, run_bind, read, counted, lifted]
  cases components.eval (scope t calls.gradient) <;> rfl

/-- A problem in formulas reads numbers only, and answers in the family of the point. -/
theorem problem_parallel : f.problem.Parallel n f.problem where
  cost x := rfl
  gradient := by
    unfold problem
    rcases f.gradient? with _ | components
    · exact .none
    · refine .some fun x calls => ?_
      have scopes : scope (.double .strict (.ofFn x)) calls.gradient =
          scope (.double .lenient (.ofFn x)) calls.gradient := rfl
      rw [run_gradientAt, run_gradientAt, scopes]
      refine ⟨rfl, (Agree.of_eq rfl).bind fun values values' same => ?_⟩
      subst same
      exact reply_parallel x f.form values

end Formulated

end QuasiNewton
