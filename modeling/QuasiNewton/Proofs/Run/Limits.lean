import QuasiNewton.Proofs.Run.Contract

/-!
# Runs with different limits

Two runs of one solver from one workspace that differ in the permitted number of steps take the same course
up to the smaller limit: their checks coincide (`Plan.checkpoint_limited`). A run is decided by the check at
which it stops or by the step at which it fails (`Plan.execute_of_stop`, `Plan.execute_of_failure`), and so
the run with the smaller limit ends as the other one does, or it is cut short at its limit (`Plan.cut_of_goesOn`),
unless its family has no norm for the gradient there (`Plan.refused_of_goesOn`). All this holds for any solver.
-/

set_option autoImplicit false

namespace QuasiNewton

open Attempt
open QuasiNewton.Decimal (NumberText)

variable {α ς σ β γ : Type} [Scalar α]

/-- The same plan with another limit on the number of steps. -/
def Plan.limited (plan : Plan α) (limit : Nat) : Plan α := { plan with maxSteps := limit }

namespace Plan

variable {plan : Plan α} {solver : Solver α ς σ} {p : Problem α σ} {work : Workspace ς σ}
  {clock : Clock α}

/-! ### Checks -/

/-- With steps left a check decides alike under both limits. -/
theorem verdict_limited {m M k : Nat} (fewer : m ≤ M) (later : k < m) (startTime : α) :
    (plan.limited m).verdict solver startTime (m - k) =
      (plan.limited M).verdict solver startTime (M - k) := by
  have some : m - k ≠ 0 := by omega
  have some' : M - k ≠ 0 := by omega
  unfold verdict
  simp only [some, some', if_false]
  rfl

section Course

variable [NumberText α]

/-- **The checks of two runs with different limits coincide** up to the smaller one. -/
theorem checkpoint_limited {m M k : Nat} (fewer : m ≤ M) (within : k ≤ m) :
    (plan.limited m).checkpoint solver p work clock k =
      (plan.limited M).checkpoint solver p work clock k := by
  induction k with
  | zero => rfl
  | succ k ih =>
    have next (c : Checkpoint α ς σ) :
        (plan.limited m).nextCheckpoint solver p clock.read.1 (m - k) c =
          (plan.limited M).nextCheckpoint solver p clock.read.1 (M - k) c := by
      unfold nextCheckpoint
      rw [verdict_limited fewer within]
      rfl
    simp only [checkpoint, ih (Nat.le_of_succ_le within)]
    exact congrArg _ (funext next)

/-- A run goes on from each of its checks. -/
theorem iterate_of_checkpoint {c₀ c : Checkpoint α ς σ} {k : Nat}
    (first : plan.checkpoint solver p work clock 0 = some c₀)
    (reached : plan.checkpoint solver p work clock k = some c) :
    (plan.iterate solver p clock.read.1 plan.maxSteps c₀.last).outcome c₀.run =
      (plan.iterate solver p clock.read.1 (plan.maxSteps - k) c.last).outcome c.run := by
  induction k generalizing c with
  | zero =>
    obtain rfl := Option.some.inj (first.symm.trans reached)
    rfl
  | succ k ih =>
    obtain ⟨b, r, before, checked, advanced⟩ := goesOn_of_checkpoint reached
    have left : plan.maxSteps - k = (plan.maxSteps - (k + 1)) + 1 := by
      have within := le_maxSteps reached
      omega
    rw [left] at checked
    rw [ih before, left]
    simp only [iterate, outcome_bind, checked, Reason.terminated, Bool.false_eq_true, if_false,
      advanced]

/-- A run is pursued from each of its checks; the handler sees the faults from there. -/
theorem pursue_of_checkpoint {c : Checkpoint α ς σ} {k : Nat}
    (reached : plan.checkpoint solver p work clock k = some c) :
    ∃ r, (plan.opening solver).outcome (plan.initial work clock) = (.ok clock.read.1, r) ∧
      (plan.pursue solver p clock.read.1).outcome r =
        (tryCatch (plan.iterate solver p clock.read.1 (plan.maxSteps - k) c.last) fun fault => do
          if fault.ofOptimization then
            RunM.report .error (solver.name ++ " failed at iteration " ++
              toString (← get).state.steps ++ ": " ++ fault.message.getD "")
          throw fault).outcome c.run := by
  obtain ⟨c₀, first⟩ := exists_checkpoint_of_le (Nat.zero_le k) reached
  obtain ⟨startTime, r, opened, prepared⟩ := begins_of_checkpoint first
  obtain ⟨rfl, -⟩ := opening_ok opened
  refine ⟨r, opened, ?_⟩
  have body : (do plan.iterate solver p clock.read.1 plan.maxSteps (← plan.prepare solver p) :
      RunM α ς σ _).outcome r =
        (plan.iterate solver p clock.read.1 (plan.maxSteps - k) c.last).outcome c.run := by
    rw [outcome_bind, prepared]
    exact iterate_of_checkpoint first reached
  rw [pursue, outcome_tryCatch, outcome_tryCatch, body]

/-- **A run ends at the check at which it stops.** -/
theorem execute_of_stop {c : Checkpoint α ς σ} {k : Nat} {reason : Reason} {r r' : RunState α ς σ}
    {result : Except (Fault α) (Outcome α)}
    (reached : plan.checkpoint solver p work clock k = some c)
    (checked : (plan.verdict solver clock.read.1 (plan.maxSteps - k)).outcome c.run = (.ok reason, r))
    (stops : reason.terminated = true)
    (closed : (plan.closing solver reason c.last).outcome r = (result, r')) :
    plan.execute solver p work clock = (result, r'.work, r'.clock) := by
  obtain ⟨r₀, opened, pursued⟩ := pursue_of_checkpoint reached
  have ended : (plan.iterate solver p clock.read.1 (plan.maxSteps - k) c.last).outcome c.run =
      (.ok (reason, c.last), r) := by
    rcases left : plan.maxSteps - k with _ | left' <;> rw [left] at checked
    · simp only [iterate, outcome_bind, checked, outcome_pure]
    · simp only [iterate, outcome_bind, checked, stops, if_true, outcome_pure]
  rw [outcome_tryCatch, ended] at pursued
  have run : (plan.run solver p).outcome (plan.initial work clock) = (result, r') := by
    simp only [Plan.run, outcome_bind, opened, pursued, closed]
  rw [execute, ← initial, run]

/-- **A run fails in the step that fails**, and what it leaves but for its journal is what the step has
left. -/
theorem execute_of_failure {c : Checkpoint α ς σ} {k : Nat} {e : Fault α} {r r' : RunState α ς σ}
    (reached : plan.checkpoint solver p work clock k = some c)
    (checked : (plan.verdict solver clock.read.1 (plan.maxSteps - k)).outcome c.run =
      (.ok .notTerminated, r))
    (failed : (plan.advance solver p).outcome r = (.error e, r')) :
    ∃ w clock', plan.execute solver p work clock = (.error e, w, clock') ∧ Workspace.Same r'.work w := by
  obtain ⟨r₀, opened, pursued⟩ := pursue_of_checkpoint reached
  have ended : (plan.iterate solver p clock.read.1 (plan.maxSteps - k) c.last).outcome c.run =
      (.error e, r') := by
    rcases left : plan.maxSteps - k with _ | left' <;> rw [left] at checked
    · exact absurd (verdict_ok checked).terminated nofun
    · simp only [iterate, outcome_bind, checked, Reason.terminated, Bool.false_eq_true, if_false, failed]
  rw [outcome_tryCatch, ended] at pursued
  -- the handler at most enters the fault into the journal before it throws it again
  obtain ⟨t, thrown, same⟩ : ∃ t, (plan.pursue solver p clock.read.1).outcome r₀ = (.error e, t) ∧
      Workspace.Same r'.work t.work := by
    rw [pursued]
    by_cases entered : e.ofOptimization = true
    · simp only [entered, if_true, RunM.report, RunM.ofSolver, SolverM.report, outcome_bind,
        outcome_get, outcome_onPart, outcome_modify, outcome_throw]
      exact ⟨_, rfl, rfl, rfl, rfl⟩
    · simp only [entered]
      exact ⟨r', rfl, rfl, rfl, rfl⟩
  have run : (plan.run solver p).outcome (plan.initial work clock) = (.error e, t) := by
    simp only [Plan.run, outcome_bind, opened, thrown]
  exact ⟨t.work, t.clock, by rw [execute, ← initial, run], same⟩

end Course

/-! ### What checks tell of each other -/

section Checks

variable [NumberText α]

/-- The history at a check is that of a later check as far as it goes. -/
theorem history_prefix {k m : Nat} (h : k ≤ m) {c c' : Checkpoint α ς σ}
    (reached : plan.checkpoint solver p work clock k = some c)
    (reached' : plan.checkpoint solver p work clock m = some c') :
    ∃ rest, c'.run.history = c.run.history ++ rest := by
  induction h generalizing c' with
  | refl =>
    obtain rfl := Option.some.inj (reached.symm.trans reached')
    exact ⟨#[], Array.append_empty.symm⟩
  | step _ ih =>
    obtain ⟨b, r, before, checked, advanced⟩ := checkpoint_succ reached'
    obtain ⟨rest, same⟩ := ih before
    rw [← checked.history] at same
    by_cases on : plan.history = true
    · obtain ⟨copy, -, pushed⟩ := advanced.kept.on on
      exact ⟨rest.push copy, by rw [pushed, same, Array.append_push]⟩
    · exact ⟨rest, by rw [advanced.kept.off (by simpa using on), same]⟩

/-- The history at a check consists of the first points of any later history. -/
theorem history_take {k m : Nat} (h : k ≤ m) {c c' : Checkpoint α ς σ}
    (reached : plan.checkpoint solver p work clock k = some c)
    (reached' : plan.checkpoint solver p work clock m = some c') :
    c.run.history.toList = c'.run.history.toList.take (k + 1) := by
  obtain ⟨rest, same⟩ := history_prefix h reached reached'
  have size := history_of_checkpoint reached
  have size' := history_of_checkpoint reached'
  by_cases on : plan.history = true
  · rw [if_pos on] at size
    rw [same, Array.toList_append, ← size, ← Array.length_toList, List.take_left]
  · rw [if_neg on] at size size'
    rw [Array.size_eq_zero_iff.mp size, Array.size_eq_zero_iff.mp size']
    rfl

/-- A step of a run has computed the norm of the gradient. -/
theorem norm_of_advance {r r' : RunState α ς σ} {next : Iterate α}
    (h : (plan.advance solver p).outcome r = (.ok next, r')) :
    ∃ gradient norm, next.gradient? = some gradient ∧ plan.family.norm gradient = .ok norm := by
  simp only [advance, bind_ok, pure_ok] at h
  obtain ⟨_, _, -, _, _, -, _, _, -, _, _, -, norm, _, computed, _, _, -, rfl, -⟩ := h
  obtain ⟨gradient, known, found, -⟩ := gradientNorm_ok computed
  exact ⟨gradient, norm, known, found⟩

end Checks

/-! ### Ends -/

section Ends

variable [NumberText α]

section Definitions

variable (plan solver p work clock)

/-- At the check after `k` steps there is no reason to stop. -/
def GoesOn (k : Nat) (c : Checkpoint α ς σ) (r : RunState α ς σ) : Prop :=
  plan.checkpoint solver p work clock k = some c ∧
    (plan.verdict solver clock.read.1 (plan.maxSteps - k)).outcome c.run = (.ok .notTerminated, r)

/-- The run fails after the check after `k` steps and before the next check. -/
def FailsAfter (k : Nat) (e : Fault α) : Prop :=
  ∃ c r r', plan.GoesOn solver p work clock k c r ∧ (plan.advance solver p).outcome r = (.error e, r')

/-- The step of the solver after the check after `k` steps fails. -/
def StepFails (k : Nat) (e : Fault α) : Prop :=
  ∃ c r w, plan.GoesOn solver p work clock k c r ∧
    (solver.step p r.state).outcome r.work = (.error e, w)

/-- An outcome after `m` steps, because no more are permitted. -/
structure Cut (m : Nat) (c : Checkpoint α ς σ) (o : Outcome α) : Prop where
  steps : o.steps = m
  reason : o.reason = .maxIterations
  point : o.point = c.last.point
  cost : o.cost = c.last.cost
  history : o.history = c.run.history

end Definitions

/-- A step of a run in which the solver fails, fails. -/
theorem advance_of_stepFails {r : RunState α ς σ} {e : Fault α} {w : Workspace ς σ}
    (failed : (solver.step p r.state).outcome r.work = (.error e, w)) :
    (plan.advance solver p).outcome r = (.error e, { r with work := w }) := by
  simp only [advance, RunM.ofSolver, outcome_bind, outcome_get, outcome_onPart, failed]

/-- A run that reaches a later check goes on at every earlier one. -/
theorem goesOn_of_lt {k m : Nat} (h : k < m) {c : Checkpoint α ς σ}
    (reached : plan.checkpoint solver p work clock m = some c) :
    ∃ b r, plan.GoesOn solver p work clock k b r := by
  obtain ⟨b, next⟩ := exists_checkpoint_of_le (Nat.succ_le_of_lt h) reached
  obtain ⟨b, r, before, checked, -⟩ := goesOn_of_checkpoint next
  exact ⟨b, r, before, checked⟩

/-- Between two checks of a run there is one step. -/
theorem advance_of_goesOn {k : Nat} {c c' : Checkpoint α ς σ} {r : RunState α ς σ}
    (goesOn : plan.GoesOn solver p work clock k c r)
    (next : plan.checkpoint solver p work clock (k + 1) = some c') :
    (plan.advance solver p).outcome r = (.ok c'.last, c'.run) := by
  obtain ⟨b, s, before, checked, advanced⟩ := goesOn_of_checkpoint next
  obtain rfl := Option.some.inj (before.symm.trans goesOn.1)
  obtain ⟨-, rfl⟩ := Prod.mk.inj (checked.symm.trans goesOn.2)
  exact advanced

/-- A run that gets past a check returns after more steps. -/
theorem lt_steps_of_checkpoint {k m : Nat} (h : k < m) {c : Checkpoint α ς σ}
    (reached : plan.checkpoint solver p work clock m = some c) {o : Outcome α} {w : Workspace ς σ}
    {clock' : Clock α} (ended : plan.execute solver p work clock = (.ok o, w, clock')) : k < o.steps := by
  obtain ⟨N, c', r, r', reached', checked, stops, closed, -, -⟩ := execute_stops ended
  have steps : o.steps = N := by
    rw [(closing_ok closed).2.steps, (verdict_ok checked).state, steps_of_checkpoint reached']
  by_contra within
  obtain ⟨b, s, before, goesOn⟩ := goesOn_of_lt (show N < m by omega) reached
  obtain rfl := Option.some.inj (before.symm.trans reached')
  have notYet : Reason.notTerminated = o.reason :=
    Except.ok.inj (congrArg Prod.fst (goesOn.symm.trans checked))
  rw [← notYet] at stops
  cases stops

/-- Where a run goes on, the run with a limit there comes to its end. -/
theorem execute_of_goesOn {m M : Nat} (fewer : m ≤ M) {c : Checkpoint α ς σ} {r : RunState α ς σ}
    (goesOn : (plan.limited M).GoesOn solver p work clock m c r) :
    ∃ s : RunState α ς σ, s.work = r.work ∧ s.state = c.run.state ∧ s.history = c.run.history ∧
      ∀ result s', (plan.closing solver .maxIterations c.last).outcome s = (result, s') →
        (plan.limited m).execute solver p work clock = (result, s'.work, s'.clock) := by
  obtain ⟨reached, checked⟩ := goesOn
  have sameCheck := (checkpoint_limited fewer le_rfl).trans reached
  obtain ⟨own, asked, decided⟩ := (verdict_ok checked).decided
  have none : own.terminated = false := by
    rcases decided with ⟨stops, same⟩ | ⟨none, -⟩
    · rw [← same] at stops
      cases stops
    · exact none
  let s : RunState α ς σ := { c.run with
    work := r.work, clock := c.run.clock.later ((plan.limited m).readings own 0) }
  have stopped : ((plan.limited m).verdict solver clock.read.1 ((plan.limited m).maxSteps - m)).outcome
      c.run = (.ok .maxIterations, s) := by
    have zero : (plan.limited m).maxSteps - m = 0 := Nat.sub_self m
    rw [zero, outcome_verdict asked]
    simp only [judge, none, Bool.false_eq_true, if_false, if_true, s]
  exact ⟨s, rfl, rfl, rfl, fun result s' closed => execute_of_stop sameCheck stopped rfl closed⟩

/-- If the gradient there has a norm, then the run is cut short. -/
theorem cut_of_goesOn {m M : Nat} (fewer : m ≤ M) {c : Checkpoint α ς σ} {r : RunState α ς σ}
    (goesOn : (plan.limited M).GoesOn solver p work clock m c r)
    (normed : ∃ gradient norm, c.last.gradient? = some gradient ∧ plan.family.norm gradient = .ok norm) :
    ∃ o w clock', (plan.limited m).execute solver p work clock = (.ok o, w, clock') ∧
      Cut m c o ∧ w.solver = r.work.solver := by
  obtain ⟨s, sameWork, sameState, sameHistory, ends⟩ := execute_of_goesOn fewer goesOn
  obtain ⟨o, t, closed, -⟩ := (closing_ensures normed .maxIterations s).exists_ok
  obtain ⟨reason, reported⟩ := closing_ok closed
  have steps : o.steps = m := by
    rw [reported.steps, sameState, steps_of_checkpoint goesOn.1]
  refine ⟨o, t.work, t.clock, ends _ _ closed, ⟨steps, reason, reported.point, reported.cost, ?_⟩, ?_⟩
  · rw [reported.history, sameHistory]
  · rw [reported.work.solver, sameWork]

/-- If the family of the run has no norm for it, then the run fails for that, and leaves the solver as it is. -/
theorem refused_of_goesOn {m M : Nat} (fewer : m ≤ M) {c : Checkpoint α ς σ} {r : RunState α ς σ}
    (goesOn : (plan.limited M).GoesOn solver p work clock m c r) {gradient : Tensor α} {why : Mismatch}
    (known : c.last.gradient? = some gradient) (refused : plan.family.norm gradient = .error why) :
    ∃ w clock', (plan.limited m).execute solver p work clock = (.error (.mismatch why), w, clock') ∧
      w.solver = r.work.solver := by
  obtain ⟨s, sameWork, -, -, ends⟩ := execute_of_goesOn fewer goesOn
  have closed : (plan.closing solver .maxIterations c.last).outcome s =
      (.error (.mismatch why), { s with work.lifecycle := ⟨.terminated, .maxIterations⟩ }) := by
    simp only [closing, RunM.ofSolver, SolverM.markTerminated, gradientNorm, known, refused, outcome_bind,
      outcome_onPart, outcome_modify, outcome_ofOperands_error]
  refine ⟨_, _, ends _ _ closed, ?_⟩
  rw [sameWork]

variable (unlimited : plan.maxTime? = none)

include unlimited in
/-- A run that returns within a smaller limit returns the same with it. -/
theorem execute_of_le {m M N : Nat} (fewer : m ≤ M) {o : Outcome α} {w : Workspace ς σ}
    {clock' : Clock α}
    (ended : (plan.limited M).execute solver p work clock = (.ok o, w, clock')) (steps : o.steps = N)
    (within : N ≤ m) : (plan.limited m).execute solver p work clock = (.ok o, w, clock') := by
  obtain ⟨k, c, r, r', reached, checked, stops, closed, rfl, rfl⟩ := execute_stops ended
  have counted := (closing_ok closed).2.steps
  rw [(verdict_ok checked).state, steps_of_checkpoint reached, steps] at counted
  obtain rfl : N = k := by exact_mod_cast counted
  have sameCheck := (checkpoint_limited fewer within).trans reached
  refine execute_of_stop sameCheck ?_ stops closed
  obtain ⟨own, asked, decided⟩ := (verdict_ok checked).decided
  rcases decided with ⟨own', -⟩ | ⟨-, ⟨spent, -⟩ | ⟨-, ⟨limited, -⟩ | going⟩⟩
  · have known := checked
    rw [outcome_verdict asked] at known ⊢
    simpa only [judge, readings, own', if_true, true_or] using known
  · -- without a step left the two limits are the same
    obtain rfl : m = M := by
      have spent : M - N = 0 := spent
      omega
    exact checked
  · exact absurd unlimited limited
  · rw [going] at stops
    cases stops

include unlimited in
/-- **Runs with different limits.** If the run with the larger limit returns after `N` steps, then a run with
a limit of at least `N` returns the same, and past a smaller limit the larger run goes on to one more check. -/
theorem limited_of_return {m M : Nat} (fewer : m ≤ M) {o : Outcome α} {w : Workspace ς σ}
    {clock' : Clock α}
    (ended : (plan.limited M).execute solver p work clock = (.ok o, w, clock')) :
    ∃ N : Nat, o.steps = N ∧
      (N ≤ m → (plan.limited m).execute solver p work clock = (.ok o, w, clock')) ∧
      (m < N → ∃ c c' r, (plan.limited M).GoesOn solver p work clock m c r ∧
        (plan.limited M).checkpoint solver p work clock (m + 1) = some c' ∧
        c.run.history.toList = o.history.toList.take (m + 1)) := by
  obtain ⟨N, c, r, r', reached, checked, -, closed, -, -⟩ := execute_stops ended
  have reported := (closing_ok closed).2
  have steps : o.steps = N := by
    rw [reported.steps, (verdict_ok checked).state, steps_of_checkpoint reached]
  refine ⟨N, steps, execute_of_le unlimited fewer ended steps, fun later => ?_⟩
  obtain ⟨b, s, goesOn⟩ := goesOn_of_lt later reached
  obtain ⟨b', next⟩ := exists_checkpoint_of_le (Nat.succ_le_of_lt later) reached
  refine ⟨b, b', s, goesOn, next, ?_⟩
  rw [reported.history, (verdict_ok checked).history]
  exact history_take later.le goesOn.1 reached

/-- **Runs with different limits, across a failure.** If the run with the larger limit fails after `k`
steps, then a run with a limit above `k` fails as well, and past a smaller limit the larger run goes on. -/
theorem limited_of_failure {m M k : Nat} (fewer : m ≤ M) {e : Fault α}
    (fails : (plan.limited M).FailsAfter solver p work clock k e) :
    ((plan.limited M).execute solver p work clock).1 = .error e ∧
      (k < m → ((plan.limited m).execute solver p work clock).1 = .error e) ∧
      (m ≤ k → ∃ c r, (plan.limited M).GoesOn solver p work clock m c r ∧
        (m < k → ∃ c', (plan.limited M).checkpoint solver p work clock (m + 1) = some c')) := by
  obtain ⟨c, r, r', ⟨reached, checked⟩, failed⟩ := fails
  refine ⟨?_, fun later => ?_, fun earlier => ?_⟩
  · obtain ⟨w, clock', ended, -⟩ := execute_of_failure reached checked failed
    rw [ended]
  · have sameCheck := (checkpoint_limited fewer later.le).trans reached
    have sameVerdict : ((plan.limited m).verdict solver clock.read.1 (m - k)).outcome c.run =
        (.ok .notTerminated, r) := by
      rw [verdict_limited fewer later]
      exact checked
    obtain ⟨w, clock', ended, -⟩ := execute_of_failure sameCheck sameVerdict failed
    rw [ended]
  · rcases earlier.eq_or_lt with rfl | before
    · exact ⟨c, r, ⟨reached, checked⟩, fun before => absurd before (lt_irrefl _)⟩
    · obtain ⟨b, s, goesOn⟩ := goesOn_of_lt before reached
      exact ⟨b, s, goesOn, fun _ => exists_checkpoint_of_le (Nat.succ_le_of_lt before) reached⟩

end Ends

end Plan

end QuasiNewton
