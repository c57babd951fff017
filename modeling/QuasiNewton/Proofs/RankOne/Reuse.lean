import QuasiNewton.Proofs.RankOne.Requests
import QuasiNewton.Proofs.RankOne.Termination
import QuasiNewton.Proofs.Run.Begun

/-!
# A solver is driven once

One solver may be handed to many runs, each with a problem, a plan, counted evaluations, a journal and a clock of
its own. A run that gets its first iterate leaves the solver in a later stage, however it ends, and from then on
every run is refused before anything is evaluated. A run that does not get its first iterate leaves the solver as it
was. `solver_runs_once` says both of every sequence of runs.
-/

set_option autoImplicit false

namespace QuasiNewton.RankOne

open Attempt Tensor
open QuasiNewton.Decimal (NumberText)

variable {α : Type} [Scalar α]

/-- A run that a solver is handed to, with all that it finds beside the solver. -/
structure Drive (α : Type) where
  σ : Type
  problem : Problem α σ
  plan : Plan α
  ledger : Ledger σ
  journal : Journal
  clock : Clock α

variable [NumberText α]

namespace Drive

variable (d : Drive α) (h : Held α)

/-- What the run works on with a solver. -/
def work : Workspace (RankOne α) d.σ := ⟨d.ledger, h.solver, h.lifecycle, d.journal⟩

/-- The run with a solver. -/
def execute : Except (Fault α) (Outcome α) × Workspace (RankOne α) d.σ × Clock α :=
  d.plan.execute solver d.problem (d.work h) d.clock

/-- What the run leaves of a solver. -/
def after : Held α := ⟨(d.execute h).2.1.solver, (d.execute h).2.1.lifecycle⟩

/-- The run gets its first iterate. -/
def Begins : Prop := d.plan.Begins solver d.problem (d.work h) d.clock

/-- The run fails for the stage of the solver, and leaves the solver and the counted evaluations as they are. -/
def Refused : Prop :=
  ∃ w clock, d.execute h = (.error (.stage name h.lifecycle.status), w, clock) ∧ (d.work h).Same w

end Drive

/-- The runs of a sequence, each with what the solver holds before it. -/
def Held.course : Held α → List (Drive α) → List (Drive α × Held α)
  | _, [] => []
  | h, d :: drives => (d, h) :: (d.after h).course drives

/-! ### One run -/

section Tasks

variable {σ : Type} {w : Workspace (RankOne α) σ} {n : Nat}

omit [NumberText α] in
theorem init_refused (started : w.lifecycle.status ≠ .notStarted) (p : Problem α σ) (state : IterState α) :
    (init p state).outcome w = (.error (.stage name w.lifecycle.status), w) := by
  have unlisted : [Status.notStarted].contains w.lifecycle.status = false := by simpa using started
  simp only [init, SolverM.requireStage, outcome_bind, outcome_get, unlisted, Bool.false_eq_true, if_false,
    outcome_throw]

/-- Once a solver with a square matrix is started, nothing that a run does undoes it. -/
theorem keeps_started (p : Problem α σ) : (solver : Solver α (RankOne α) σ).Keeps p fun w =>
    w.lifecycle.status ≠ .notStarted ∧ w.solver.inverse.Square False n where
  step state w held := (step_held held.2 False.elim p state).mono
    (fun _ t done => ⟨by rw [done.2.2.2]; exact held.1, done.2.2.1⟩)
    fun _ t same => by rw [same.1, same.2]; exact held
  terminate state w held := (terminate_held state).mono
    (fun _ t same => by rw [same.1, same.2]; exact held) fun _ t same => by rw [same.1, same.2]; exact held
  mark _ _ held := ⟨nofun, held.2⟩
  enter _ _ held := held

end Tasks

namespace Drive

variable {d : Drive α} {h : Held α} {n unknowns : Nat}

/-- **A run that gets its first iterate leaves a started solver**, whatever it ends with. -/
theorem started_of_begins (square : h.solver.inverse.Square False n) (begins : d.Begins h) :
    (d.after h).lifecycle.status ≠ .notStarted := by
  refine (Plan.execute_of_begun (keeps_started (n := n) d.problem) (fun w same => ?_) begins).1
  refine (init_held d.problem _).mono (fun _ t done => ?_) fun _ _ _ => trivial
  obtain ⟨-, solver, lifecycle⟩ := done
  rw [lifecycle, solver, same.solver]
  exact ⟨nofun, square⟩

/-- **A started solver refuses every run.** -/
theorem refused_of_started (axes : d.plan.start.length = .ok unknowns)
    (started : h.lifecycle.status ≠ .notStarted) : d.Refused h := by
  obtain ⟨startTime, r, opened⟩ := Plan.exists_opening solver (d.work h) d.clock axes
  obtain ⟨-, same, -⟩ := Plan.opening_ok opened
  have stage : r.work.lifecycle = h.lifecycle := same.lifecycle
  have refused := init_refused (w := r.work) (by rwa [stage]) d.problem r.state
  rw [stage] at refused
  obtain ⟨w, clock, failed, left⟩ := Plan.execute_of_refused opened refused
  exact ⟨w, clock, failed, same.trans left⟩

/-- **A run that does not get its first iterate leaves the solver as it was.** -/
theorem after_of_not_begins (axes : d.plan.start.length = .ok unknowns) (fails : ¬ d.Begins h) :
    d.after h = h := by
  obtain ⟨startTime, r, opened⟩ := Plan.exists_opening solver (d.work h) d.clock axes
  obtain ⟨-, same, -⟩ := Plan.opening_ok opened
  rcases init : (solver.init d.problem r.state).outcome r.work with ⟨e | first, w⟩
  · obtain ⟨sameSolver, sameLifecycle⟩ := (init_held d.problem r.state).of_error init
    obtain ⟨w', clock, failed, left⟩ := Plan.execute_of_refused opened init
    rw [after, execute, failed]
    dsimp only
    rw [left.solver, left.lifecycle, sameSolver, sameLifecycle, same.solver, same.lifecycle]
    rfl
  · exact absurd ⟨startTime, r, first, w, opened, init⟩ fails

end Drive

/-! ### Sequences of runs -/

section Course

variable {h : Held α} {drives : List (Drive α)} {n : Nat}

/-- A started solver refuses every run of a sequence, and stays started. -/
theorem Held.refused_of_started (axes : ∀ d ∈ drives, ∃ unknowns, d.plan.start.length = .ok unknowns)
    (started : h.lifecycle.status ≠ .notStarted) : ∀ e ∈ h.course drives, e.1.Refused e.2 := by
  induction drives generalizing h with
  | nil => exact fun e absent => absurd absent List.not_mem_nil
  | cons d drives ih =>
    obtain ⟨unknowns, first⟩ := axes d List.mem_cons_self
    have refused := Drive.refused_of_started first started
    have stays : (d.after h).lifecycle = h.lifecycle := by
      obtain ⟨w, clock, failed, same⟩ := refused
      rw [Drive.after, failed]
      exact same.lifecycle
    intro e found
    rcases List.mem_cons.mp found with rfl | later
    · exact refused
    · exact ih (fun d hd => axes d (List.mem_cons_of_mem _ hd)) (by rwa [stays]) e later

/-- Of two runs of a sequence the later one is refused if the earlier one has got its first iterate. -/
theorem Held.course_pairwise (square : h.solver.inverse.Square False n)
    (axes : ∀ d ∈ drives, ∃ unknowns, d.plan.start.length = .ok unknowns) :
    (h.course drives).Pairwise fun d e => d.1.Begins d.2 → e.1.Refused e.2 := by
  induction drives generalizing h with
  | nil => exact .nil
  | cons d drives ih =>
    obtain ⟨unknowns, first⟩ := axes d List.mem_cons_self
    have rest (d : Drive α) (hd : d ∈ drives) := axes d (List.mem_cons_of_mem _ hd)
    by_cases begins : d.Begins h
    · have refused := refused_of_started rest (Drive.started_of_begins square begins)
      exact .cons (fun e later _ => refused e later)
        (List.pairwise_of_forall_mem_list fun _ _ e later _ => refused e later)
    · have same := Drive.after_of_not_begins first begins
      refine .cons (fun e later begins' => absurd begins' begins) ?_
      rw [same]
      exact ih square rest

/-- As long as no run has got its first iterate the solver holds what it held in the beginning. -/
theorem Held.before_eq (axes : ∀ d ∈ drives, ∃ unknowns, d.plan.start.length = .ok unknowns)
    {earlier later : List (Drive α × Held α)} {e : Drive α × Held α}
    (split : h.course drives = earlier ++ e :: later) (fails : ∀ d ∈ earlier, ¬ d.1.Begins d.2) :
    e.2 = h := by
  induction drives generalizing h earlier with
  | nil => simp [course] at split
  | cons d drives ih =>
    obtain ⟨unknowns, first⟩ := axes d List.mem_cons_self
    rcases earlier with _ | ⟨d₀, earlier⟩
    · obtain ⟨rfl, -⟩ := List.cons.inj split
      rfl
    · obtain ⟨rfl, tail⟩ := List.cons.inj split
      have same := Drive.after_of_not_begins first (fails _ List.mem_cons_self)
      rw [List.append_eq, same] at tail
      exact ih (fun d hd => axes d (List.mem_cons_of_mem _ hd)) tail
        fun d hd => fails d (List.mem_cons_of_mem _ hd)

end Course

/-- **A used solver cannot be driven again.** In every sequence of runs that share a solver, from start points with
an axis: once one of them has got its first iterate, every later one fails for the stage of the solver, and leaves the
solver and the counted evaluations as they are. As long as none has got its first iterate, the next run is the run
with the solver as it was made. -/
theorem solver_runs_once {inverse : Tensor α} {search? : Option (LineSearch α)} {tolerances : Tolerances α}
    {r : RankOne α} (made : make inverse search? tolerances = .ok r) (drives : List (Drive α))
    (axes : ∀ d ∈ drives, ∃ unknowns, d.plan.start.length = .ok unknowns) :
    let course := (Held.mk r {}).course drives
    course.Pairwise (fun d e => d.1.Begins d.2 → e.1.Refused e.2) ∧
      ∀ earlier d h later, course = earlier ++ (d, h) :: later → (∀ e ∈ earlier, ¬ e.1.Begins e.2) →
        d.execute h = d.execute ⟨r, {}⟩ := by
  obtain ⟨n, square⟩ := square_of_make made
  refine ⟨Held.course_pairwise square axes, fun earlier d h later split fails => ?_⟩
  rw [show h = _ from Held.before_eq axes split fails]

/-! ### Three runs -/

/-- A short run, for which there is no problem. -/
noncomputable def idleDrive : Drive ℝ :=
  ⟨Unit, Problem.absent, .short false, shortWork.ledger, shortWork.journal, .still⟩

/-- A short run on half the square of the length. -/
noncomputable def shortDrive : Drive ℝ :=
  ⟨Unit, Quadratic.halfSquare.problem, .short false, shortWork.ledger, shortWork.journal, .still⟩

omit [NumberText α] in
/-- Without a problem there is no cost. -/
theorem absent_cost {σ : Type} {x : Tensor α} {l l' : Ledger σ} {cost : α} :
    ¬ (Problem.absent.evaluateCost x : Evaluation α σ α).outcome l = (.ok cost, l') := by
  simp only [Problem.evaluateCost, bind_ok, Evaluation.outcome_consult]
  rintro ⟨_, _, -, _, _, -, _, _, answered, thrown⟩
  obtain rfl := Except.ok.inj (Prod.mk.inj answered).1
  exact throw_ok thrown

theorem idleDrive_not_begins (h : Held ℝ) : ¬ idleDrive.Begins h := by
  rintro ⟨startTime, r, first, w, opened, init⟩
  obtain ⟨l, gradient, cost, -⟩ := init_ok init
  exact absent_cost cost

/-- For instance, of three runs the first one finds no problem, the second one returns as if it were the first, and
the third one is refused. -/
theorem short_runs_once :
    ∃ h k, (Held.mk shortWork.solver {}).course [idleDrive, shortDrive, shortDrive] =
        [(idleDrive, ⟨shortWork.solver, {}⟩), (shortDrive, h), (shortDrive, k)] ∧
      (∃ o w clock, shortDrive.execute h = (.ok o, w, clock)) ∧ shortDrive.Refused k := by
  let h : Held ℝ := idleDrive.after ⟨shortWork.solver, {}⟩
  have made : make shortWork.solver.inverse (some shortWork.solver.search) {} = .ok shortWork.solver := rfl
  have axes : ∀ d ∈ [idleDrive, shortDrive, shortDrive], ∃ unknowns, d.plan.start.length = .ok unknowns := by
    simp [idleDrive, shortDrive, Plan.short]
  obtain ⟨refused, fresh⟩ := solver_runs_once made [idleDrive, shortDrive, shortDrive] axes
  have second : shortDrive.execute h = shortDrive.execute ⟨shortWork.solver, {}⟩ :=
    fresh [_] shortDrive h [_] rfl fun e found => by
      obtain rfl := List.mem_singleton.mp found
      exact idleDrive_not_begins _
  obtain ⟨o, w, clock, returned⟩ := short_returns false
  have returns : shortDrive.execute h = (.ok o, w, clock) := second.trans returned
  refine ⟨h, shortDrive.after h, rfl, ⟨o, w, clock, returns⟩, ?_⟩
  have later := (List.pairwise_cons.mp (List.pairwise_cons.mp refused).2).1 _ (List.mem_singleton_self _)
  exact later (Plan.begins_of_execute returns)

end QuasiNewton.RankOne
