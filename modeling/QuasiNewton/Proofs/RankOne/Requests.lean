import QuasiNewton.Proofs.Exact.Vectors
import QuasiNewton.Proofs.RankOne.SideBySide
import QuasiNewton.Proofs.RankOne.Square

/-!
# The stages of a rank-one solver

A solver can be asked for anything at any time: for its first iterate, for steps, for corrections, whether
it would stop, and to be marked as stopped. Every request comes with a problem, counted evaluations and a
journal of its own, and it may fail. An event is a request with what the solver held before and after it.

Of every event it is shown which stages it leads from and to, and what it does to the matrix and the counts
(`Event.Lawful`). A failed request changes nothing. From there, by induction over the requests, the course
of a whole sequence follows: the solver is started once at most, and steps succeed only between its start
and the first mark.
-/

set_option autoImplicit false

namespace QuasiNewton

open Attempt Tensor
open QuasiNewton.Decimal (NumberText)

/-- The place of a stage among the three. -/
def Status.rank : Status → Nat
  | .notStarted => 0
  | .iterating => 1
  | .terminated => 2

namespace RankOne

variable {α : Type} [Scalar α]

/-! ### Requests -/

/-- What a solver is asked to do on a problem whose state is of type `σ`. -/
inductive Task (α σ : Type) where
  | init (p : Problem α σ) (state? : Option (IterState α))
  | step (p : Problem α σ) (state? : Option (IterState α))
  | update (s y : Tensor α)
  | terminate (state? : Option (IterState α))
  | mark (reason : Reason)

/-- The sort of a task. -/
inductive Operation where
  | init
  | step
  | update
  | terminate
  | mark
deriving DecidableEq, Repr

def Task.operation {σ : Type} : Task α σ → Operation
  | init _ _ => .init
  | step _ _ => .step
  | update _ _ => .update
  | terminate _ => .terminate
  | mark _ => .mark

/-- A task together with the evaluations and the journal it finds. -/
structure Request (α : Type) where
  σ : Type
  task : Task α σ
  ledger : Ledger σ
  journal : Journal

/-- What a solver holds between requests. -/
structure Held (α : Type) [Scalar α] where
  solver : RankOne α
  lifecycle : Lifecycle

/-- A request, whether it succeeded, and what the solver held before and after it. -/
structure Event (α : Type) [Scalar α] where
  request : Request α
  before : Held α
  result : Except (Fault α) Unit
  after : Held α

namespace Event

def operation (e : Event α) : Operation := e.request.task.operation

/-- Whether the event is a successful operation of a sort. -/
def Does (e : Event α) (operation : Operation) : Prop := e.operation = operation ∧ e.result = .ok ()

end Event

variable [NumberText α]

/-- What a task attempts; its result is dropped. -/
def Task.attempt {σ : Type} : Task α σ → SolverM α (RankOne α) σ Unit
  | init p state? => do let _ ← withState [.notStarted] (RankOne.init p) state?
  | step p state? => do let _ ← withState [.iterating] (RankOne.step p) state?
  | update s y => do let _ ← RankOne.update s y
  | terminate state? => do
    let _ ← withState [.notStarted, .iterating, .terminated] RankOne.terminate state?
  | mark reason => SolverM.markTerminated reason

namespace Held

/-- The workspace in which a request is carried out. -/
def workspace (h : Held α) (r : Request α) : Workspace (RankOne α) r.σ :=
  ⟨r.ledger, h.solver, h.lifecycle, r.journal⟩

def perform (h : Held α) (r : Request α) : Event α :=
  let (result, after) := r.task.attempt.outcome (h.workspace r)
  ⟨r, h, result, after.solver, after.lifecycle⟩

/-- The events of a sequence of requests. -/
def events : Held α → List (Request α) → List (Event α)
  | _, [] => []
  | h, r :: requests => h.perform r :: (h.perform r).after.events requests

end Held

/-! ### What one request does -/

/-- One correction has been made, which changed the matrix, or skipped, which did not. -/
def CorrectedOnce (r r' : RankOne α) : Prop :=
  r'.updates = r.updates + 1 ∧ r'.skips = r.skips ∨
    r'.updates = r.updates ∧ r'.skips = r.skips + 1 ∧ r'.inverse = r.inverse

/-- What holds of every event. -/
structure Event.Lawful (e : Event α) : Prop where
  /-- A failed request changes nothing. -/
  atomic : ∀ fault, e.result = .error fault → e.after = e.before
  start : e.Does .init → e.before.lifecycle.status = .notStarted ∧
    e.after.lifecycle = { e.before.lifecycle with status := .iterating }
  advance : e.Does .step → e.before.lifecycle.status = .iterating
  corrected : e.Does .step ∨ e.Does .update → CorrectedOnce e.before.solver e.after.solver
  kept : ¬ e.Does .step → ¬ e.Does .update → e.after.solver = e.before.solver
  marked : e.operation = .mark → e.after.lifecycle.status = .terminated
  stays : ¬ e.Does .init → e.operation ≠ .mark → e.after.lifecycle = e.before.lifecycle

omit [NumberText α] in
theorem correctedOnce_apply (r : RankOne α) (c : Correction α) : CorrectedOnce r (r.apply c) := by
  cases c with
  | skipped size threshold => exact .inr ⟨rfl, rfl, rfl⟩
  | made inverse => exact .inl ⟨rfl, rfl⟩

section Tasks

variable {σ : Type} {w : Workspace (RankOne α) σ} {R : Prop} {n : Nat}

/-- The solver and its stage are those of a workspace. -/
def SameHeld (w t : Workspace (RankOne α) σ) : Prop := t.solver = w.solver ∧ t.lifecycle = w.lifecycle

omit [NumberText α]

theorem requireStage_held (allowed : List Status) :
    (SolverM.requireStage name allowed : SolverM α (RankOne α) σ Unit).Ensures w
      (fun _ t => t = w ∧ w.lifecycle.status ∈ allowed) fun _ t => t = w := by
  unfold SolverM.requireStage
  rw [ensures_bind, ensures_get]
  dsimp only
  split
  · next listed => exact ⟨rfl, by simpa using listed⟩
  · exact rfl

theorem ofEvaluation_held {β : Type} (e : Evaluation α σ β) :
    (SolverM.ofEvaluation e : SolverM α (RankOne α) σ β).Ensures w
      (fun _ t => SameHeld w t) fun _ t => SameHeld w t := by
  unfold SolverM.ofEvaluation
  rw [ensures_onPart]
  unfold Ensures
  split <;> exact ⟨rfl, rfl⟩

theorem withState_held {β : Type} {allowed : List Status}
    {task : IterState α → SolverM α (RankOne α) σ β} {P : β → Workspace (RankOne α) σ → Prop}
    (h : ∀ state, (task state).Ensures w P fun _ t => SameHeld w t) (state? : Option (IterState α)) :
    (withState allowed task state?).Ensures w P fun _ t => SameHeld w t := by
  cases state? with
  | some state => exact h state
  | none =>
    unfold withState
    rw [ensures_bind]
    refine (requireStage_held allowed).mono (fun _ t required => ?_) fun _ t same => ?_
    · obtain ⟨rfl, -⟩ := required
      exact ⟨rfl, rfl⟩
    · rw [same]
      exact ⟨rfl, rfl⟩

theorem init_held (p : Problem α σ) (state : IterState α) :
    (init p state).Ensures w
      (fun _ t => w.lifecycle.status = .notStarted ∧ t.solver = w.solver ∧
        t.lifecycle = { w.lifecycle with status := .iterating })
      fun _ t => SameHeld w t := by
  unfold init
  rw [ensures_bind]
  refine (requireStage_held _).mono (fun _ t required => ?_) fun _ t same => by
    rw [same]; exact ⟨rfl, rfl⟩
  obtain ⟨rfl, fresh⟩ := required
  rw [ensures_bind]
  refine (ofEvaluation_held _).mono (fun cost u hu => ?_) fun _ _ same => same
  rw [ensures_bind]
  refine (ofEvaluation_held _).mono (fun gradient v hv => ?_) fun _ _ same => ?_
  · have same : v.lifecycle = t.lifecycle := hv.2.trans hu.2
    exact ⟨by simpa using fresh, hv.1.trans hu.1, congrArg (fun l => { l with status := .iterating }) same⟩
  · exact ⟨same.1.trans hu.1, same.2.trans hu.2⟩

theorem terminate_held (state : IterState α) :
    (terminate state).Ensures w (fun _ t => SameHeld w t) fun _ t => SameHeld w t := by
  unfold terminate
  rw [ensures_bind, ensures_get]
  rcases w.solver.stopReason state with cause | reason <;> exact ⟨rfl, rfl⟩

/-- **A step corrects the matrix once or changes nothing.** -/
theorem stepFrom_held [NumberText α] (held : w.solver.inverse.Square R n)
    (commute : R → ∀ x y : α, x * y = y * x) (p : Problem α σ) (state : IterState α) (g : Tensor α) :
    (stepFrom p state g).Ensures w
      (fun _ t => CorrectedOnce w.solver t.solver ∧ t.solver.inverse.Square R n ∧
        t.lifecycle = w.lifecycle)
      fun _ t => SameHeld w t := by
  rw [stepFrom_eq, ensures_bind, ensures_get, ensures_bind]
  refine (ofEvaluation_held _).mono (fun found u hu => ?_) fun _ _ same => same
  rw [ensures_bind]
  refine (ofEvaluation_held _).mono (fun gradient v hv => ?_) fun _ _ same =>
    ⟨same.1.trans hu.1, same.2.trans hu.2⟩
  have unchanged : SameHeld w v := ⟨hv.1.trans hu.1, hv.2.trans hu.2⟩
  rw [ensures_bind]
  rcases gradient.sub g with cause | y
  · exact unchanged
  rw [ofOperands_of_ok, ensures_pure, ensures_bind]
  rcases found.point.sub state.point with cause | s
  · exact unchanged
  rw [ofOperands_of_ok, ensures_pure, ensures_bind]
  have square : v.solver.inverse.Square R n := by rwa [unchanged.1]
  refine (update_ensures square commute s y).mono (fun _ t done => ?_) fun _ t same =>
    ⟨same.1.trans unchanged.1, same.2.trans unchanged.2⟩
  obtain ⟨⟨c, -, applied⟩, square, lifecycle⟩ := done
  refine ⟨?_, square, lifecycle.trans unchanged.2⟩
  rw [applied, unchanged.1]
  exact correctedOnce_apply w.solver c

theorem step_held [NumberText α] (held : w.solver.inverse.Square R n)
    (commute : R → ∀ x y : α, x * y = y * x) (p : Problem α σ) (state : IterState α) :
    (step p state).Ensures w
      (fun _ t => w.lifecycle.status = .iterating ∧ CorrectedOnce w.solver t.solver ∧
        t.solver.inverse.Square R n ∧ t.lifecycle = w.lifecycle)
      fun _ t => SameHeld w t := by
  unfold step
  rw [ensures_bind]
  refine (requireStage_held _).mono (fun _ t required => ?_) fun _ t same => by
    rw [same]; exact ⟨rfl, rfl⟩
  obtain ⟨rfl, iterating⟩ := required
  rcases state.gradient? with _ | g
  · rw [ensures_bind, ensures_get]
    exact ⟨rfl, rfl⟩
  · exact (stepFrom_held held commute p state g).mono
      (fun _ t done => ⟨by simpa using iterating, done⟩) fun _ _ same => same

end Tasks

/-! ### Events -/

section Events

variable {R : Prop} {n : Nat}

omit [NumberText α] in
/-- A failed request that changes nothing is lawful. -/
theorem Event.lawful_of_error {e : Event α} {fault : Fault α} (failed : e.result = .error fault)
    (unmarked : e.operation ≠ .mark) (same : e.after = e.before) : e.Lawful where
  atomic _ _ := same
  start does := absurd (failed.symm.trans does.2) nofun
  advance does := absurd (failed.symm.trans does.2) nofun
  corrected does := does.elim (fun d => absurd (failed.symm.trans d.2) nofun) fun d =>
    absurd (failed.symm.trans d.2) nofun
  kept _ _ := congrArg Held.solver same
  marked mark := absurd mark unmarked
  stays _ _ := congrArg Held.lifecycle same

/-- What an operation changes where it succeeds. -/
def Operation.Changes : Operation → Held α → Held α → Prop
  | init, h, k => h.lifecycle.status = .notStarted ∧ k.solver = h.solver ∧
      k.lifecycle = { h.lifecycle with status := .iterating }
  | step, h, k => h.lifecycle.status = .iterating ∧ CorrectedOnce h.solver k.solver ∧
      k.lifecycle = h.lifecycle
  | update, h, k => CorrectedOnce h.solver k.solver ∧ k.lifecycle = h.lifecycle
  | terminate, h, k => k.solver = h.solver ∧ k.lifecycle = h.lifecycle
  | mark, h, k => k.solver = h.solver ∧ k.lifecycle.status = .terminated

omit [NumberText α] in
/-- A successful request that changes what its operation may change is lawful. -/
theorem Event.lawful_of_changes {e : Event α} (succeeded : e.result = .ok ())
    (changes : e.operation.Changes e.before e.after) : e.Lawful where
  atomic fault failed := absurd (failed.symm.trans succeeded) nofun
  start does := by
    rw [does.1] at changes
    exact ⟨changes.1, changes.2.2⟩
  advance does := by
    rw [does.1] at changes
    exact changes.1
  corrected := by
    rintro (does | does) <;> rw [does.1] at changes
    · exact changes.2.1
    · exact changes.1
  kept noStep noUpdate := by
    cases operation : e.operation <;> rw [operation] at changes
    case init => exact changes.2.1
    case step => exact absurd ⟨operation, succeeded⟩ noStep
    case update => exact absurd ⟨operation, succeeded⟩ noUpdate
    case terminate => exact changes.1
    case mark => exact changes.1
  marked mark := by
    rw [mark] at changes
    exact changes.2
  stays noInit noMark := by
    cases operation : e.operation <;> rw [operation] at changes
    case init => exact absurd ⟨operation, succeeded⟩ noInit
    case step => exact changes.2.2
    case update => exact changes.2
    case terminate => exact changes.2
    case mark => exact absurd operation noMark

/-- An event is lawful if the request changes what its operation may change where it succeeds, and nothing
where it fails. -/
theorem Held.perform_lawful_of {h : Held α} (held : h.solver.inverse.Square R n) {r : Request α}
    (unmarked : r.task.operation ≠ .mark)
    (ensures : r.task.attempt.Ensures (h.workspace r)
      (fun _ t => r.task.operation.Changes h ⟨t.solver, t.lifecycle⟩ ∧ t.solver.inverse.Square R n)
      fun _ t => SameHeld (h.workspace r) t) :
    (h.perform r).Lawful ∧ (h.perform r).after.solver.inverse.Square R n := by
  unfold perform
  rcases run : r.task.attempt.outcome (h.workspace r) with ⟨fault | ⟨⟩, t⟩
  · obtain ⟨solver, lifecycle⟩ := ensures.of_error run
    have same : Held.mk t.solver t.lifecycle = h := by rw [solver, lifecycle]; rfl
    refine ⟨Event.lawful_of_error rfl unmarked same, ?_⟩
    dsimp only
    rwa [solver]
  · obtain ⟨changes, square⟩ := ensures.of_ok run
    exact ⟨Event.lawful_of_changes rfl changes, square⟩

omit [NumberText α] in
theorem drop_ensures {σ β : Type} {a : SolverM α (RankOne α) σ β} {w : Workspace (RankOne α) σ}
    {P Q : Workspace (RankOne α) σ → Prop} {E : Fault α → Workspace (RankOne α) σ → Prop}
    (h : a.Ensures w (fun _ t => P t) E) (weaker : ∀ t, P t → Q t) :
    (do let _ ← a : SolverM α (RankOne α) σ Unit).Ensures w (fun _ t => Q t) E :=
  ensures_bind.mpr (h.mono (fun _ t done => ensures_pure.mpr (weaker t done)) fun _ _ failed => failed)

/-- **Every event is lawful**, and it leaves a square matrix. -/
theorem Held.perform_lawful {h : Held α} (held : h.solver.inverse.Square R n)
    (commute : R → ∀ x y : α, x * y = y * x) (r : Request α) :
    (h.perform r).Lawful ∧ (h.perform r).after.solver.inverse.Square R n := by
  obtain ⟨σ, task, ledger, journal⟩ := r
  cases task with
  | init p state? =>
    refine perform_lawful_of held nofun
      (drop_ensures (withState_held (fun state => init_held p state) state?) fun t done => ?_)
    obtain ⟨fresh, solver, lifecycle⟩ := done
    exact ⟨⟨fresh, solver, lifecycle⟩, by rwa [solver]⟩
  | step p state? =>
    refine perform_lawful_of held nofun
      (drop_ensures (withState_held (fun state => step_held held commute p state) state?) fun t done => ?_)
    obtain ⟨iterating, corrected, square, lifecycle⟩ := done
    exact ⟨⟨iterating, corrected, lifecycle⟩, square⟩
  | update s y =>
    refine perform_lawful_of held nofun (ensures_bind.mpr
      ((update_ensures held commute s y).mono (fun _ t done => ?_) fun _ _ same => same))
    obtain ⟨⟨c, -, applied⟩, square, lifecycle⟩ := done
    have corrected : CorrectedOnce h.solver t.solver := by
      rw [applied]
      exact correctedOnce_apply h.solver c
    exact ⟨⟨corrected, lifecycle⟩, square⟩
  | terminate state? =>
    refine perform_lawful_of held nofun
      (drop_ensures (withState_held (fun state => terminate_held state) state?) fun t done => ?_)
    obtain ⟨solver, lifecycle⟩ := done
    exact ⟨⟨solver, lifecycle⟩, by rwa [solver]⟩
  | mark reason => exact ⟨Event.lawful_of_changes rfl ⟨rfl, rfl⟩, held⟩

/-! ### The course of the requests -/

namespace Event.Lawful

variable {e : Event α}

omit [NumberText α]

/-- The stages are passed through in one direction only. -/
theorem forward (h : e.Lawful) :
    e.before.lifecycle.status.rank ≤ e.after.lifecycle.status.rank := by
  by_cases mark : e.operation = .mark
  · rw [h.marked mark]
    cases e.before.lifecycle.status <;> decide
  · by_cases started : e.Does .init
    · obtain ⟨fresh, after⟩ := h.start started
      rw [fresh, after]
      exact Nat.zero_le 1
    · rw [h.stays started mark]

end Event.Lawful

/-- All events of a solver with a square matrix are lawful, and they leave square matrices. -/
theorem Held.events_lawful {h : Held α} (held : h.solver.inverse.Square R n)
    (commute : R → ∀ x y : α, x * y = y * x) (requests : List (Request α)) :
    ∀ e ∈ h.events requests, e.Lawful ∧ e.after.solver.inverse.Square R n := by
  induction requests generalizing h with
  | nil => exact fun e absent => absurd absent List.not_mem_nil
  | cons r requests ih =>
    obtain ⟨lawful, square⟩ := perform_lawful held commute r
    intro e found
    rcases List.mem_cons.mp found with rfl | later
    · exact ⟨lawful, square⟩
    · exact ih square e later

section Course

variable {h : Held α} {requests : List (Request α)}

/-- What is held before an event is in no earlier stage than what was held at first. -/
theorem Held.rank_le_of_mem (lawful : ∀ e ∈ h.events requests, e.Lawful) :
    ∀ e ∈ h.events requests, h.lifecycle.status.rank ≤ e.before.lifecycle.status.rank := by
  induction requests generalizing h with
  | nil => exact fun e absent => absurd absent List.not_mem_nil
  | cons r requests ih =>
    intro e found
    rcases List.mem_cons.mp found with rfl | later
    · exact le_rfl
    · have first := (lawful _ List.mem_cons_self).forward
      have rest := ih (fun e he => lawful e (List.mem_cons_of_mem _ he)) e later
      exact first.trans rest

/-- Two events cannot both start the solver. -/
theorem Held.start_pairwise (lawful : ∀ e ∈ h.events requests, e.Lawful) :
    (h.events requests).Pairwise fun e e' => ¬ (e.Does .init ∧ e'.Does .init) := by
  induction requests generalizing h with
  | nil => exact .nil
  | cons r requests ih =>
    have rest (e : Event α) (he : e ∈ (h.perform r).after.events requests) : e.Lawful :=
      lawful e (List.mem_cons_of_mem _ he)
    refine .cons (fun e later => ?_) (ih rest)
    rintro ⟨first, second⟩
    have started := congrArg Lifecycle.status ((lawful _ List.mem_cons_self).start first).2
    have fresh := ((rest e later).start second).1
    have order := rank_le_of_mem rest e later
    rw [started, fresh] at order
    exact absurd order (by simp [Status.rank])

/-- A step succeeds only after the solver has been started, and before it is marked. -/
theorem Held.start_before_step (lawful : ∀ e ∈ h.events requests, e.Lawful)
    {earlier later : List (Event α)} {e : Event α} (split : h.events requests = earlier ++ e :: later)
    (does : e.Does .step) :
    (h.lifecycle.status = .iterating ∨ ∃ start ∈ earlier, start.Does .init) ∧
      ∀ other ∈ earlier, other.operation ≠ .mark := by
  induction requests generalizing h earlier with
  | nil =>
    rw [events] at split
    simp at split
  | cons r requests ih =>
    have first := lawful _ List.mem_cons_self
    have rest (e : Event α) (he : e ∈ (h.perform r).after.events requests) : e.Lawful :=
      lawful e (List.mem_cons_of_mem _ he)
    rcases earlier with _ | ⟨e₀, earlier⟩
    · obtain ⟨rfl, -⟩ := List.cons.inj split
      exact ⟨.inl (first.advance does), fun _ absent => absurd absent List.not_mem_nil⟩
    · obtain ⟨rfl, tail⟩ := List.cons.inj split
      replace tail : (h.perform r).after.events requests = earlier ++ e :: later := tail
      obtain ⟨started, unmarked⟩ := ih rest tail
      have found : e ∈ (h.perform r).after.events requests := by
        rw [tail]
        exact List.mem_append_right _ List.mem_cons_self
      refine ⟨?_, fun other there => ?_⟩
      · rcases started with iterating | ⟨start, there, begins⟩
        · by_cases begins : (h.perform r).Does .init
          · exact .inr ⟨_, List.mem_cons_self, begins⟩
          · by_cases mark : (h.perform r).operation = .mark
            · exact absurd (iterating.symm.trans (first.marked mark)) nofun
            · rw [first.stays begins mark] at iterating
              exact .inl iterating
        · exact .inr ⟨start, List.mem_cons_of_mem _ there, begins⟩
      · rcases List.mem_cons.mp there with rfl | there
        · intro mark
          have order := rank_le_of_mem rest e found
          rw [first.marked mark, (rest e found).advance does] at order
          exact absurd order (by simp [Status.rank])
        · exact unmarked other there

end Course

/-- **The life cycle of a solver.** Whatever a solver that has been made is asked for, on whatever problems:
every event is lawful and leads forward, and the matrix keeps its shape; the solver is started once at
most; a step succeeds only after that and before the solver is marked; and where products commute, a
matrix that was symmetric at first stays so. -/
theorem requests_keep_laws {inverse : Tensor α} {search? : Option (LineSearch α)}
    {tolerances : Tolerances α} {solver : RankOne α}
    (made : make inverse search? tolerances = .ok solver) (requests : List (Request α)) :
    ∃ n, solver.inverse.extent = [n, n] ∧
      let events := (Held.mk solver {}).events requests
      (∀ e ∈ events, e.Lawful ∧
        e.before.lifecycle.status.rank ≤ e.after.lifecycle.status.rank ∧
        e.after.solver.inverse.extent = [n, n]) ∧
      events.Pairwise (fun e e' => ¬ (e.Does .init ∧ e'.Does .init)) ∧
      (∀ earlier e later, events = earlier ++ e :: later → e.Does .step →
        (∃ start ∈ earlier, start.Does .init) ∧ ∀ other ∈ earlier, other.operation ≠ .mark) ∧
      ((∀ x y : α, x * y = y * x) → solver.inverse.transpose = .ok solver.inverse →
        ∀ e ∈ events, e.after.solver.inverse.transpose = .ok e.after.solver.inverse) := by
  obtain ⟨n, square⟩ := square_of_make made
  have events := Held.events_lawful (h := ⟨solver, {}⟩) square False.elim requests
  have lawful : ∀ e ∈ (Held.mk solver {}).events requests, e.Lawful := fun e he => (events e he).1
  refine ⟨n, square.extent, fun e he => ⟨lawful e he, (lawful e he).forward, (events e he).2.extent⟩,
    Held.start_pairwise lawful, fun earlier e later split does => ?_, fun commute symmetric e he => ?_⟩
  · obtain ⟨started, unmarked⟩ := Held.start_before_step lawful split does
    exact ⟨started.resolve_left nofun, unmarked⟩
  · have kept := Held.events_lawful (h := ⟨solver, {}⟩)
      (Tensor.square_of_transpose square fun _ : True => symmetric) (fun _ => commute) requests
    exact (kept e he).2.transpose_eq trivial

end Events

/-- For instance, a solver with the identity is corrected once and then marked. -/
theorem identity_keeps_laws :
    let solver : RankOne ℝ := ⟨.lenient, ofMatrix .lenient (1 : Matrix (Fin 2) (Fin 2) ℝ),
      { method := .backtracking ⟨1, 1 / 2, 1 / 4, 50⟩ }, {}, 0, 0⟩
    let correct : Request ℝ := ⟨Unit, .update (ofVector .lenient ![1, 0]) (ofVector .lenient ![2, 0]),
      .fresh none (), { threshold := .info }⟩
    let mark : Request ℝ := ⟨Unit, .mark .timeout, .fresh none (), { threshold := .info }⟩
    make solver.inverse (some solver.search) {} = .ok solver ∧
      ∀ e ∈ (Held.mk solver {}).events [correct, mark],
        e.Lawful ∧ e.after.solver.inverse.transpose = .ok e.after.solver.inverse := by
  intro solver correct mark
  have made : make solver.inverse (some solver.search) {} = .ok solver := rfl
  have square : solver.inverse.Square True 2 :=
    ⟨⟨.lenient, rfl⟩, _, rfl, fun _ i j => (Matrix.isSymm_one.apply i j).symm⟩
  obtain ⟨n, -, lawful, -, -, symmetry⟩ := requests_keep_laws made [correct, mark]
  exact ⟨made, fun e he => ⟨(lawful e he).1, symmetry mul_comm (square.transpose_eq trivial) e he⟩⟩

end RankOne

end QuasiNewton
