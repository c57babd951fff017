import QuasiNewton.Binary64.Arithmetic
import QuasiNewton.Proofs.Objective.Asked
import QuasiNewton.Proofs.Objective.Checked

/-!
# Only checked values come back

A tapped problem is the same problem with code that keeps, in a part of the state that nothing else reads, a list of
the reports by which it has failed. An evaluation that succeeds has seen no report: none is swallowed, not even in the
middle of central differences. An evaluation that fails has seen one report at most. If that is the report of a failed
evaluation, then it comes out as it is, and any other becomes a failed evaluation. So whatever the code of a problem
does, what leaves the counted evaluations of the problem is a finite cost, a gradient with finite entries and the
shape of the point, or a failed evaluation (`Problem.evaluations_validated`).
-/

set_option autoImplicit false

namespace QuasiNewton

open Attempt

variable {α σ ε δ β γ : Type}

/-! ### Code that keeps a list of its reports -/

/-- The same code, with its report added to the list if it fails. -/
def tapped (code : ExceptT Raised (StateM σ) β) : ExceptT Raised (StateM (σ × List Raised)) β :=
  fun state =>
    match code.run.run state.1 with
    | (.ok x, after) => (.ok x, after, state.2)
    | (.error report, after) => (.error report, after, state.2 ++ [report])

/-- The list changes nothing else. -/
theorem tapped_twin (code : ExceptT Raised (StateM σ) β) : Twin (fun s t => s.1 = t) (tapped code) code := by
  rintro ⟨s, reports⟩ _ rfl
  simp only [tapped, ExceptT.run, StateT.run]
  rcases code s with ⟨report | x, t⟩
  · exact ⟨rfl, rfl⟩
  · exact ⟨rfl, rfl⟩

/-- Code that adds nothing to the list if it succeeds, and the reports of its failure if it fails. -/
def Tells (reports : ε → List Raised) (code : ExceptT ε (StateM (σ × List Raised)) β) : Prop :=
  ∀ s told, match code.run.run (s, told) with
    | (.ok _, _, after) => after = told
    | (.error e, _, after) => after = told ++ reports e

namespace Tells

variable {reports : ε → List Raised}

theorem tapped (code : ExceptT Raised (StateM σ) β) : Tells (fun report => [report]) (tapped code) := by
  intro s told
  simp only [QuasiNewton.tapped, ExceptT.run, StateT.run]
  rcases code s with ⟨report | x, t⟩
  · rfl
  · rfl

theorem pure (x : β) : Tells reports (Pure.pure x : ExceptT ε (StateM (σ × List Raised)) β) :=
  fun _ _ => rfl

theorem throw {e : ε} (silent : reports e = []) :
    Tells reports (MonadExcept.throw e : ExceptT ε (StateM (σ × List Raised)) β) := by
  intro s told
  exact (silent ▸ (List.append_nil told).symm : told = told ++ reports e)

theorem bind {code : ExceptT ε (StateM (σ × List Raised)) β}
    {next : β → ExceptT ε (StateM (σ × List Raised)) γ} (first : Tells reports code)
    (second : ∀ x, Tells reports (next x)) : Tells reports (code >>= next) := by
  intro s told
  have before := first s told
  rw [run_bind]
  rcases run : code.run.run (s, told) with ⟨e | x, t, after⟩ <;> rw [run] at before
  · exact before
  · obtain rfl : after = told := before
    exact second x t after

theorem adapt {code : ExceptT ε (StateM (σ × List Raised)) β} (h : Tells reports code) {f : ε → δ}
    {reports' : δ → List Raised} (same : ∀ e, reports' (f e) = reports e) :
    Tells reports' (code.adapt f) := by
  intro s told
  have tells := h s told
  have adapted : (code.adapt f).run.run (s, told) =
      (((code.run.run (s, told)).1.mapError f), (code.run.run (s, told)).2) := rfl
  rw [adapted]
  rcases run : code.run.run (s, told) with ⟨e | x, t, after⟩ <;> rw [run] at tells
  · exact tells.trans (congrArg (told ++ ·) (same e).symm)
  · exact tells

theorem ofFnM {n : Nat} {code : Fin n → ExceptT ε (StateM (σ × List Raised)) β}
    (h : ∀ i, Tells reports (code i)) : Tells reports (Vector.ofFnM code) := by
  induction n with
  | zero =>
    rw [Vector.ofFnM_zero]
    exact pure _
  | succ n ih =>
    rw [Vector.ofFnM_succ]
    exact (ih fun i => h i.castSucc).bind fun xs => (h (Fin.last n)).bind fun x => pure _

end Tells

/-- The reports by which difference quotients fail. -/
def DifferenceFault.reports : DifferenceFault → List Raised
  | raised report => [report]
  | noRow _ _ => []
  | noAxis => []

/-- Central differences fail by the first report of the cost, or without one. -/
theorem Tells.gradient [Scalar α] {f : Dense α → ExceptT Raised (StateM (σ × List Raised)) α}
    (h : ∀ x, Tells (fun report => [report]) (f x)) (x : Dense α) (eps : α) :
    Tells DifferenceFault.reports (Differences.gradient f x eps) := by
  have side (z : Dense α) : Tells DifferenceFault.reports ((f z).adapt .raised) := (h z).adapt fun _ => rfl
  have quotient (i : Nat) : Tells DifferenceFault.reports (Differences.quotient f x eps i) :=
    (side _).bind fun upper => (side _).bind fun lower => pure _
  unfold Differences.gradient
  split
  · exact throw rfl
  · split
    · exact (ofFnM fun i => quotient i).bind fun _ => pure _
    · split
      · exact pure _
      · exact (ofFnM fun i => quotient i).bind fun _ => throw rfl

/-! ### Failures that pass reports on -/

/-- Of the reports, a failure passes on those of failed evaluations and no others. -/
def Fault.PassesOn (e : Fault α) (reports : List Raised) : Prop :=
  ∀ r, e = .raised r ↔ r ∈ reports ∧ r.kind = .evaluation

namespace Fault

theorem passesOn_nil {e : Fault α} (own : ∀ r, e ≠ .raised r) : e.PassesOn [] := by
  intro r
  simp [own r]

theorem passesOn_reported (report : Raised) (otherwise : String → EvaluationFault α) :
    (Evaluation.reported report otherwise).PassesOn [report] := by
  intro r
  unfold Evaluation.reported
  split
  case isTrue same =>
    rw [raised.injEq, List.mem_singleton]
    exact ⟨fun found => ⟨found.symm, found ▸ same⟩, fun found => found.1.symm⟩
  case isFalse other =>
    rw [List.mem_singleton]
    exact ⟨nofun, fun found => absurd (found.1 ▸ found.2) other⟩

end Fault

namespace Evaluation

/-- An evaluation that sees no report if it succeeds, and that passes the reports on that it has seen if it fails. -/
def Passes (a : Evaluation α (σ × List Raised) β) : Prop :=
  ∀ l, a.Ensures l (fun _ t => t.state.2 = l.state.2) fun e t =>
    ∃ reports, t.state.2 = l.state.2 ++ reports ∧ e.PassesOn reports

namespace Passes

theorem pure (x : β) : Passes (Pure.pure x : Evaluation α (σ × List Raised) β) := fun _ => rfl

theorem throw {e : Fault α} (own : ∀ r, e ≠ .raised r) :
    Passes (MonadExcept.throw e : Evaluation α (σ × List Raised) β) := by
  intro l
  exact ⟨[], (List.append_nil _).symm, Fault.passesOn_nil own⟩

theorem ofOperands (r : Except Mismatch β) :
    Passes (Attempt.ofOperands r : Evaluation α (σ × List Raised) β) := by
  cases r with
  | ok x => exact pure x
  | error cause => exact throw (by simp)

theorem change {f : Ledger (σ × List Raised) → Ledger (σ × List Raised)}
    (same : ∀ l, (f l).state = l.state) :
    Passes (modify f : Evaluation α (σ × List Raised) PUnit) := by
  intro l
  exact congrArg Prod.snd (same l)

theorem bind {a : Evaluation α (σ × List Raised) β} {next : β → Evaluation α (σ × List Raised) γ}
    (first : Passes a) (second : ∀ x, Passes (next x)) : Passes (a >>= next) := by
  intro l
  rw [ensures_bind]
  refine (first l).mono (fun x t same => ?_) fun _ _ => id
  rw [← same]
  exact second x t

theorem family (x : Tensor α) : Passes (family x : Evaluation α (σ × List Raised) Family) := by
  intro l
  unfold Ensures
  rw [outcome_family]
  rcases l.family? with _ | known
  · rcases found : Family.ofTensor x with fault | f
    · rw [Family.eq_of_ofTensor_error found]
      exact ⟨[], (List.append_nil _).symm, Fault.passesOn_nil (by simp)⟩
    · rfl
  · rfl

/-- What follows code passes on the reports by which the code fails. -/
theorem consult {reports : ε → List Raised} {code : ExceptT ε (StateM (σ × List Raised)) β}
    {next : Except ε β → Evaluation α (σ × List Raised) γ} (tells : Tells reports code)
    (success : ∀ x, Passes (next (.ok x)))
    (failure : ∀ e, ∃ fault : Fault α, next (.error e) = MonadExcept.throw fault ∧ fault.PassesOn (reports e)) :
    Passes (Evaluation.consult code >>= next) := by
  intro l
  have told := tells l.state.1 l.state.2
  rw [ensures_bind]
  refine ensures_of_ok (outcome_consult code l) ?_
  rcases run : code.run.run l.state with ⟨e | x, s, after⟩ <;> rw [run] at told
  · obtain ⟨fault, thrown, passed⟩ := failure e
    rw [thrown]
    exact ⟨reports e, told, passed⟩
  · have rest := success x { l with state := (s, after) }
    obtain rfl : after = l.state.2 := told
    exact rest

end Passes

end Evaluation

/-! ### Tapped problems -/

/-- The same problem, with all its reports added to a list. -/
def Problem.tapped (p : Problem α σ) : Problem α (σ × List Raised) where
  cost x := QuasiNewton.tapped (p.cost x)
  gradient? := p.gradient?.map fun code x => QuasiNewton.tapped (code x)

theorem Problem.tapped_twins (p : Problem α σ) : p.tapped.Twins (fun s t => s.1 = t) p :=
  .of_wrapped (fun x => tapped_twin (p.cost x)) fun code x => tapped_twin (code x)

/-- The same ledger with an empty list. -/
def Ledger.tapping (l : Ledger σ) : Ledger (σ × List Raised) := { l with state := (l.state, []) }

/-- What the tapped problem passes on, the problem passes on. -/
theorem Evaluation.Passes.ensures {a : Evaluation α (σ × List Raised) β} {b : Evaluation α σ β}
    (passes : Passes a) (same : a.Simulates (Ledger.SameCounts fun s t => s.1 = t) Eq b) (l : Ledger σ) :
    b.Ensures l (fun _ _ => (a.outcome l.tapping).2.state.2 = []) fun e _ =>
      e.PassesOn (a.outcome l.tapping).2.state.2 := by
  have answers := (same l.tapping l ⟨rfl, rfl, rfl, rfl⟩).2
  have told := passes l.tapping
  unfold Ensures at told ⊢
  rcases ha : a.outcome l.tapping with ⟨e | x, t⟩ <;> rcases hb : b.outcome l with ⟨e' | x', t'⟩ <;>
    rw [ha, hb] at answers <;> rw [ha] at told
  · obtain ⟨reports, seen, passed⟩ := told
    obtain rfl : e = e' := answers
    obtain rfl : t.state.2 = reports := seen
    exact passed
  · exact answers.elim
  · exact answers.elim
  · exact told

/-- The reports of the code of a problem while a query is answered, in the order in which they are made. -/
def Query.reports [Scalar α] (p : Problem α σ) (l : Ledger σ) (q : Query α) : List Raised :=
  (q.after p.tapped l.tapping).state.2

namespace Problem

open Evaluation

variable [Scalar α] {p : Problem α σ} {x : Tensor α} {f : Family}

theorem evaluateCost_passes (p : Problem α σ) (x : Tensor α) : Passes (p.tapped.evaluateCost x) := by
  refine (Passes.family x).bind fun _ => Passes.bind (.change fun _ => rfl) fun _ => ?_
  refine .consult (.tapped (p.cost x)) (fun cost => ?_) fun report => ?_
  · dsimp only
    split
    · exact .pure cost
    · exact .throw (by simp)
  · exact ⟨_, rfl, Fault.passesOn_reported report _⟩

theorem differentiate_passes (p : Problem α σ) (f : Family) (x : Tensor α) :
    Passes (p.tapped.differentiate f x) := by
  have tells := Tells.gradient (fun z => Tells.tapped (p.cost (f.adopt z x))) x.values
    (Differences.standardStep : α)
  refine .consult tells (fun gradient => ?_) fun fault => ?_
  · exact Passes.bind (.change fun _ => rfl) fun _ => .pure _
  · cases fault with
    | raised report => exact ⟨_, rfl, Fault.passesOn_reported report _⟩
    | noRow index count => exact ⟨_, rfl, Fault.passesOn_nil (by simp)⟩
    | noAxis => exact ⟨_, rfl, Fault.passesOn_nil (by simp)⟩

theorem askGradient_passes (p : Problem α σ) (f : Family) (x : Tensor α) :
    Passes (p.tapped.askGradient f x) := by
  unfold askGradient
  rcases own : p.gradient? with _ | code
  · simp only [tapped, own, Option.map_none]
    exact (p.differentiate_passes f x).bind fun gradient => .pure _
  · simp only [tapped, own, Option.map_some]
    refine Passes.bind (.change fun _ => rfl) fun _ => .consult (.tapped (code x)) Passes.pure fun report => ?_
    exact ⟨_, rfl, Fault.passesOn_reported report _⟩

theorem checkGradient_passes (f : Family) (x : Tensor α) (reply : Reply α) :
    Passes (checkGradient f x reply : Evaluation α (σ × List Raised) (Tensor α)) := by
  cases reply with
  | number => exact .throw (by simp)
  | tensor t =>
    simp only [checkGradient]
    refine (Passes.ofOperands _).bind fun found => (Passes.ofOperands _).bind fun expected => ?_
    by_cases same : found ≠ expected
    · rw [if_pos same]
      exact .throw (by simp)
    · rw [if_neg same]
      refine (Passes.ofOperands _).bind fun finite => ?_
      cases finite with
      | true => exact .pure _
      | false => exact .throw (by simp)

theorem evaluateGradient_passes (p : Problem α σ) (x : Tensor α) : Passes (p.tapped.evaluateGradient x) :=
  (Passes.family x).bind fun f => (p.askGradient_passes f x).bind (checkGradient_passes f x)

omit [Scalar α] in
/-- An array of numbers is computed with by its own family. -/
theorem ofTensor_home (array : x.family? = some f) (floating : x.entries.type ≠ .whole) :
    Family.ofTensor x = .ok f := by
  unfold Family.ofTensor
  rw [array, if_neg floating]
  cases f with
  | lenient => rfl
  | strict => rfl

/-- **Only checked values and failed evaluations leave the evaluations of a problem.** Let the gradient of a problem,
if it has one, answer arrays or lists, and let a point be an array of numbers of the family that the ledger knows.
After any queries, whether they were answered or not, the cost at the point is a finite number, or it fails by a
failed evaluation; and the gradient is an array of the shape of the point with finite entries, or it fails by a failed
evaluation. Nothing that the code reports is lost in an answer, and a failed evaluation that the code reports comes
out as it is, in place of any other failure. -/
theorem evaluations_validated (answers : p.AnswersArrays f) (array : x.family? = some f)
    (floating : x.entries.type ≠ .whole) (start : Ledger σ) (history : List (Query α))
    (known : ∀ g ∈ (ledgerAfter p start history).family?, g = f) :
    (p.evaluateCost x).Ensures (ledgerAfter p start history)
      (fun cost _ => Scalar.isFinite cost = true ∧
        Query.reports p (ledgerAfter p start history) (.cost x) = [])
      (fun e _ => e.ofEvaluation = true ∧
        e.PassesOn (Query.reports p (ledgerAfter p start history) (.cost x))) ∧
    (p.evaluateGradient x).Ensures (ledgerAfter p start history)
      (fun gradient _ => gradient.shape = .ok x.extent ∧ gradient.Finite ∧
        Query.reports p (ledgerAfter p start history) (.gradient x) = [])
      (fun e _ => e.ofEvaluation = true ∧
        e.PassesOn (Query.reports p (ledgerAfter p start history) (.gradient x))) := by
  generalize ledgerAfter p start history = l at known
  have found : Family.ofTensor x = .ok f := ofTensor_home array floating
  have home : l.family?.getD f = f := by
    rcases own : l.family? with _ | g
    · rfl
    · exact known g own
  have matching := Ledger.sameCounts_matching (σ := σ × List Raised) fun s t => s.1 = t
  constructor
  · have passed := (p.evaluateCost_passes x).ensures (p.tapped_twins.evaluateCost matching x) l
    have fails := evaluateCost_fails (p := p) (l := l) found
    refine ((ensures_outcome _ l).and (fails.and passed)).mono (fun cost t => ?_) fun _ _ => And.right
    rintro ⟨run, -, silent⟩
    exact ⟨isFinite_of_evaluateCost run, silent⟩
  · have passed := (p.evaluateGradient_passes x).ensures (p.tapped_twins.evaluateGradient matching x) l
    have fails := evaluateGradient_fails (l := l) found array (home.symm ▸ answers)
    refine ((ensures_outcome _ l).and (fails.and passed)).mono (fun gradient t => ?_) fun _ _ => And.right
    rintro ⟨run, -, silent⟩
    obtain ⟨⟨s, own, shape⟩, finite⟩ := checked_of_evaluateGradient run
    have same : x.shape = .ok x.extent := by simp only [Tensor.shape, array]
    exact ⟨shape.trans (own.symm.trans same), finite, silent⟩

/-- A problem without a gradient whose cost reports a failed evaluation in its third call. -/
def interrupted : Problem Float Nat where
  cost _ := do
    let calls ← get
    set (calls + 1)
    if calls = 2 then throw ⟨.evaluation, "interrupted"⟩ else return 0
  gradient? := none

/-- The second side of the differences is refused, and the refusal comes out as it is. -/
theorem interrupted_passes_on :
    let x : Tensor Float := .lenient (.vector #v[1])
    let ledger := ledgerAfter interrupted (.fresh none 0) [.cost x]
    (interrupted.AnswersArrays .lenient ∧ x.family? = some .lenient ∧ x.entries.type ≠ .whole ∧
      ∀ g ∈ ledger.family?, g = .lenient) ∧
    (interrupted.evaluateGradient x).Ensures ledger (fun _ _ => False)
      fun e _ => e = .raised ⟨.evaluation, "interrupted"⟩ := by
  intro x ledger
  have answers : interrupted.AnswersArrays .lenient := nofun
  have known : ∀ g ∈ ledger.family?, g = .lenient := by
    intro g same
    exact (Option.some.inj same).symm
  have reports : Query.reports interrupted ledger (.gradient x) = [⟨.evaluation, "interrupted"⟩] := by
    decide +kernel
  have floating : x.entries.type ≠ .whole := nofun
  refine ⟨⟨answers, rfl, floating, known⟩, ?_⟩
  refine (evaluations_validated answers rfl floating (.fresh none 0) [.cost x] known).2.mono
    (fun gradient t => ?_) fun e t => ?_
  · rintro ⟨-, -, silent⟩
    exact absurd (reports.symm.trans silent) (List.cons_ne_nil _ _)
  · rintro ⟨-, passed⟩
    exact (passed _).mpr ⟨reports ▸ List.mem_singleton_self _, rfl⟩

end Problem

end QuasiNewton
