import QuasiNewton.Proofs.Logging.Configured
import QuasiNewton.Proofs.RankOne.SideBySide
import QuasiNewton.Proofs.RankOne.Square
import QuasiNewton.Proofs.RankOne.Termination
import QuasiNewton.Proofs.Run.Watched

/-!
# Watching the rank-one solver

The rank-one solver asks for the definiteness of a corrected matrix only where the answer would be entered into
the journal. The matrix is square, so that the question has an answer, and a correction does the same whether it is
asked or not: `update_eq` gives the one entry it makes at any threshold. The parts of the solver therefore do the
same whatever the threshold is, and by `Plan.execute_watched` a whole run does. With loggers that are configured at
two levels this becomes a statement about the lines that are written: `run_ignores_watching`.
-/

set_option autoImplicit false

namespace QuasiNewton.RankOne

open Attempt Logging
open QuasiNewton.Decimal (NumberText)

variable {α σ : Type} [Scalar α]

/-- The search of a step hands out a point of the family it starts from. -/
theorem point_of_searchOf {r : RankOne α} {p : Problem α σ} {state : IterState α} {gradient : Tensor α}
    {family : Family} (held : family.Holds state.point) {l l' : Ledger σ} {found : Accepted α}
    (h : (r.searchOf p state gradient).outcome l = (.ok found, l')) : family.Holds found.point := by
  simp only [searchOf, bind_ok, ofOperands_ok] at h
  obtain ⟨direction, _, ⟨-, rfl⟩, searched⟩ := h
  obtain ⟨own, _, _, _, _, _, same, -, -, -, -, -, reached⟩ := LineSearch.run_parts rfl rfl searched
  obtain rfl := held.ofTensor_ok same
  exact held.scaledAdd_ok reached

variable [NumberText α] {n : Nat} {level : Severity} {family : Family}

/-- The entry about a correction: that it was skipped, or that it has cost the matrix its definiteness. -/
def Correction.entry? : Correction α → Option Entry
  | .skipped size threshold => some (skipEntry size threshold)
  | .made inverse =>
    match inverse.isDefinite Tensor.definitenessTolerance with
    | .ok false => some indefiniteEntry
    | _ => none

/-- **What a correction does**, at any threshold of the journal: the solver is corrected, and the entry about the
correction is made if it is severe enough. -/
theorem update_eq {w : Workspace (RankOne α) σ} {s y : Tensor α} {c : Correction α}
    (computed : w.solver.correction s y = .ok c) (examinable : c.Examinable) :
    (update s y).outcome w = (.ok c.isMade, { w with
      solver := w.solver.apply c, journal := c.entry?.elim w.journal w.journal.enter }) := by
  simp only [update, outcome_bind, outcome_get, computed, outcome_ofOperands_ok, outcome_modify]
  cases c with
  | skipped size threshold => rfl
  | made inverse =>
    obtain ⟨definite, asked⟩ := examinable inverse rfl
    simp only [outcome_bind, outcome_get, Correction.entry?, asked]
    by_cases entered : w.journal.enters .debug = true
    · simp only [entered, if_true, outcome_bind, outcome_ofOperands_ok]
      cases definite <;> rfl
    · -- nothing is asked here, and the entry would not have been made
      have silent : w.journal.enter indefiniteEntry = w.journal := if_neg entered
      simp only [entered]
      cases definite
      · rw [Option.elim_some, silent]
        rfl
      · rfl

theorem update_watched (s y : Tensor α) :
    (update s y : SolverM α (RankOne α) σ Bool).Corresponds
      (Workspace.Watched (fun r => r.inverse.Square False n) level) Eq Eq (update s y) := by
  intro w w' h
  rcases computed : w.solver.correction s y with cause | c
  · rw [update_fails computed, update_fails (by rwa [h.same.solver])]
    exact ⟨h, .error rfl⟩
  · have examinable : c.Examinable := fun inverse same =>
      (square_of_correction h.solver False.elim (same ▸ computed)).isDefinite _
    rw [update_eq computed examinable, update_eq (by rwa [h.same.solver]) examinable]
    refine ⟨⟨⟨h.same.ledger, by rw [h.same.solver], h.same.lifecycle⟩, ?_,
      square_apply h.solver False.elim computed⟩, .ok rfl⟩
    cases c.entry? with
    | none => exact h.journal
    | some e => exact h.journal.enter e

theorem stepFrom_watched (p : Problem α σ) {state : IterState α} (held : family.Holds state.point)
    (gradient : Tensor α) :
    (stepFrom p state gradient).Corresponds (Workspace.Watched (fun r => r.inverse.Square False n) level)
      (Iterate.SameIn family) Eq (stepFrom p state gradient) := by
  rw [stepFrom_eq]
  refine Corresponds.states.bind fun w w' h => ?_
  rw [h.same.solver]
  refine (SolverM.ofEvaluation_yields fun _ _ _ searched => point_of_searchOf held searched).bind
    fun _ found same => ?_
  obtain ⟨rfl, reached⟩ := same
  refine (SolverM.ofEvaluation_watched _).bind fun after _ same => same ▸ ?_
  refine (Corresponds.ofOperands (.of_eq rfl) fun _ => rfl).bind fun y _ same => same ▸ ?_
  refine (Corresponds.ofOperands (.of_eq rfl) fun _ => rfl).bind fun s _ same => same ▸ ?_
  exact (update_watched s y).bind fun _ _ _ => .pure ⟨rfl, reached⟩

/-- **The rank-one solver does the same whatever the threshold of the journal is.** -/
theorem solver_unwatched (family : Family) (p : Problem α σ) :
    (solver : Solver α (RankOne α) σ).Unwatched (fun r => r.inverse.Square False n) level family p where
  init state held := by
    refine (SolverM.requireStage_watched _ _).bind fun _ _ _ => ?_
    refine (SolverM.ofEvaluation_watched _).bind fun cost _ same => same ▸ ?_
    refine (SolverM.ofEvaluation_watched _).bind fun gradient _ same => same ▸ ?_
    exact (SolverM.enterStage_watched _).bind fun _ _ _ => .pure ⟨rfl, held⟩
  step state held := by
    refine (SolverM.requireStage_watched _ _).bind fun _ _ _ => ?_
    split
    · exact stepFrom_watched p held _
    · refine Corresponds.states.bind fun w w' h => ?_
      rw [h.same.solver]
      exact .throw rfl
  terminate state := by
    refine Corresponds.states.bind fun w w' h => ?_
    rw [h.same.solver]
    exact .ofOperands (.of_eq rfl) fun _ => rfl

/-! ### Runs at two levels -/

/-- A run with a solver that is made for it. -/
structure Job (α σ : Type) [Scalar α] where
  inverse : Tensor α
  search? : Option (LineSearch α)
  tolerances : Tolerances α
  run : RunOptions α
  problem : Problem α σ
  ledger : Ledger σ
  clock : Clock α

namespace Job

/-- The run with a threshold for the journal and with points kept or not: what it ends with, and what it works on
and the clock are like after it. It does not begin if the solver or the plan is refused. -/
def perform (job : Job α σ) (threshold : Severity) (history : Bool) :
    Except (Fault α) (Except (Fault α) (Outcome α) × Workspace (RankOne α) σ × Clock α) := do
  let made ← make job.inverse job.search? job.tolerances
  let plan ← Plan.ofOptions { job.run with history }
  return plan.execute solver job.problem ⟨job.ledger, made, {}, { threshold }⟩ job.clock

end Job

/-- **Logging and history only observe.** The loggers of all sources are configured at two levels, the first of
which is positive and not above the second. Then a run made from the same matrix, line search, tolerances, options,
problem, counted evaluations and clock does the same under both, whether it keeps its points or not: it is refused
with the same fault, or it fails with the same fault, or it returns the same outcome but for the points that were
kept. It leaves the same counted evaluations, the same solver in the same stage, and the clock read as often. The
lines written at the second level are those written at the first one whose severity reaches the second. -/
theorem run_ignores_watching {registry r₁ r₂ : Registry} (knows : registry.Knows) {c : Configuration}
    {request₁ request₂ : LevelRequest} {level₁ level₂ : Severity} (read₁ : request₁.level = .ok level₁)
    (read₂ : request₂.level = .ok level₂) (positive : 0 < level₁) (le : level₁ ≤ level₂)
    (done₁ : registry.configure { c with level := request₁ } = .ok r₁)
    (done₂ : registry.configure { c with level := request₂ } = .ok r₂) (job : Job α σ)
    (history₁ history₂ : Bool) :
    Agree (fun a b =>
        Agree Outcome.SameButHistory Eq a.1 b.1 ∧ a.2.1.Same b.2.1 ∧ b.2.2 = a.2.2 ∧
          r₂.transcript b.2.1.journal =
            (r₁.transcript a.2.1.journal).filter fun line => decide (level₂ ≤ line.1)) Eq
      (job.perform (r₁.threshold .run) history₁) (job.perform (r₂.threshold .run) history₂) := by
  -- both configurations have one template and the two levels
  obtain ⟨template, own₁, asked, known₁, configured₁⟩ := Registry.configured_of_configure done₁
  obtain ⟨template', own₂, asked', known₂, configured₂⟩ := Registry.configured_of_configure done₂
  obtain rfl : template = template' := Option.some.inj (asked.symm.trans asked')
  obtain rfl : own₁ = level₁ := Except.ok.inj (known₁.symm.trans read₁)
  obtain rfl : own₂ = level₂ := Except.ok.inj (known₂.symm.trans read₂)
  rw [Registry.threshold_eq configured₁ positive knows,
    Registry.threshold_eq configured₂ (positive.trans_le le) knows]
  unfold Job.perform
  rcases made : make job.inverse job.search? job.tolerances with e | r
  · exact .error rfl
  obtain ⟨n, square⟩ := square_of_make made
  refine (Plan.ofOptions_history job.run history₁ history₂).bind fun plan _ planned => ?_
  obtain ⟨rfl, start⟩ := planned
  have works : Workspace.Watched (fun r : RankOne α => r.inverse.Square False n) own₂
      ⟨job.ledger, r, {}, { threshold := own₁ }⟩ ⟨job.ledger, r, {}, { threshold := own₂ }⟩ :=
    ⟨⟨rfl, rfl, rfl⟩, .empty le, square⟩
  obtain ⟨ends, after, clock⟩ :=
    Plan.execute_watched (solver_unwatched plan.family job.problem) history₂ start works job.clock
  exact .ok ⟨ends, after.same, clock,
    Registry.transcript_filter configured₁ configured₂ knows positive le after.journal.entries⟩

/-! ### A short run at two levels -/

/-- A short run on half the square of the length, from the identity matrix. -/
noncomputable def shortJob : Job ℝ Unit where
  inverse := shortWork.solver.inverse
  search? := some shortWork.solver.search
  tolerances := {}
  run := ⟨(Plan.short false).start, (Plan.short false).maxSteps, none, false⟩
  problem := Quadratic.halfSquare.problem
  ledger := shortWork.ledger
  clock := .still

/-- With the usual level of the journal the run returns. -/
theorem shortJob_returns (history : Bool) :
    ∃ o w clock, shortJob.perform .info history = .ok (.ok o, w, clock) := by
  obtain ⟨o, w, clock, returned⟩ := short_returns history
  have made : make shortJob.inverse shortJob.search? shortJob.tolerances = .ok shortWork.solver := rfl
  have planned : Plan.ofOptions { shortJob.run with history } = .ok (.short history) :=
    Plan.short_planned history
  refine ⟨o, w, clock, ?_⟩
  rw [Job.perform, made, planned]
  exact congrArg Except.ok returned

/-- For instance, a short run that keeps its points and says what happens returns after as many steps as one that
keeps none and says only what fails. -/
theorem short_ignores_watching :
    ∃ r₁ r₂, Registry.initial.configure { level := .numbered .info } = .ok r₁ ∧
      Registry.initial.configure { level := .named "Error" } = .ok r₂ ∧
      ∃ o w clock o' w' clock', shortJob.perform (r₁.threshold .run) true = .ok (.ok o, w, clock) ∧
        shortJob.perform (r₂.threshold .run) false = .ok (.ok o', w', clock') ∧ o'.steps = o.steps ∧
        r₂.transcript w'.journal =
          (r₁.transcript w.journal).filter fun line => decide (Severity.error ≤ line.1) := by
  obtain ⟨r₁, done₁⟩ : ∃ r, Registry.initial.configure { level := .numbered .info } = .ok r := ⟨_, rfl⟩
  have read₂ : (LevelRequest.named "Error").level = .ok Severity.error := by decide +kernel
  obtain ⟨r₂, done₂⟩ : ∃ r, Registry.initial.configure { level := .named "Error" } = .ok r := by
    simp only [Registry.configure, read₂]
    exact ⟨_, rfl⟩
  have same := run_ignores_watching Registry.knows_initial (c := {}) rfl read₂ (by decide) (by decide) done₁ done₂
    shortJob true false
  have level : r₁.threshold .run = .info := by
    obtain ⟨_, own, -, known, configured⟩ := Registry.configured_of_configure done₁
    obtain rfl : own = .info := Except.ok.inj known.symm
    exact Registry.threshold_eq configured (by decide) Registry.knows_initial .run
  obtain ⟨o, w, clock, returned⟩ := shortJob_returns true
  rw [← level] at returned
  rcases second : shortJob.perform (r₂.threshold .run) false with e | ⟨result, w', clock'⟩ <;>
    rw [returned, second] at same <;> cases same
  next related =>
    obtain ⟨ends, -, -, lines⟩ := related
    rcases result with e | o' <;> cases ends
    next agree =>
      have steps : o'.steps = o.steps := by rw [show o' = { o with history := o'.history } from agree]
      exact ⟨r₁, r₂, done₁, done₂, o, w, clock, o', w', clock', returned, second, steps, lines⟩

end QuasiNewton.RankOne
