import QuasiNewton.Proofs.LineSearch.Contract

/-!
# The first acceptable step

Backtracking makes its trials at the step lengths `firstStep * shrink ^ k`, one after the other, until one of them
decides: it is accepted, or it cannot be evaluated. A `Backtracking.Row` is all that such a search depends on. As
the costs may change with the state, a trial is what the line answers once the trials before have been made,
whatever they answered (`Row.answer`); the search is nothing but the row up to the trial that decides
(`Row.search_decided`).

Over the extended numbers a trial whose cost is not finite has failed, so the numbers of a row are real ones.
-/

set_option autoImplicit false

namespace QuasiNewton

open Attempt
open Extended (finite)

variable {σ : Type}

namespace Backtracking

/-- Whether a cost is accepted is decided in the real numbers. -/
theorem accepts_extended (s : Backtracking ℝ) (startCost startSlope alpha cost : ℝ) :
    s.extended.accepts (finite startCost) (finite startSlope) (finite alpha) (finite cost) = true ↔
      cost ≤ startCost + s.decrease * alpha * startSlope := decide_eq_true_iff

/-- The trials of a backtracking search from a state. -/
structure Row (σ : Type) where
  settings : Backtracking ℝ
  line : Line Extended σ
  startCost : ℝ
  startSlope : ℝ
  start : σ

namespace Row

variable (r : Row σ)

/-- The step length of a trial; the first one has the number zero. -/
def alpha (k : ℕ) : ℝ := r.settings.firstStep * r.settings.shrink ^ k

/-- How high the cost of a trial may be. -/
def bound (k : ℕ) : ℝ := r.startCost + r.settings.decrease * r.alpha k * r.startSlope

/-- The state that a number of trials leaves, whatever they answer. -/
def state (r : Row σ) : ℕ → σ
  | 0 => r.start
  | k + 1 => ((r.line.cost (finite (r.alpha k))).outcome (r.state k)).2

/-- What a trial answers. -/
def answer (k : ℕ) : Except (Fault Extended) Extended :=
  ((r.line.cost (finite (r.alpha k))).outcome (r.state k)).1

/-- A trial that could be evaluated and has a low cost. -/
def Accepts (k : ℕ) : Prop := ∃ cost, r.answer k = .ok (finite cost) ∧ cost ≤ r.bound k

/-- A trial that could be evaluated and whose cost is too high. -/
def Rejects (k : ℕ) : Prop := ∃ cost, r.answer k = .ok (finite cost) ∧ r.bound k < cost

/-- A row whose answers are finite costs. -/
def Finite : Prop := ∀ k c, r.answer k = .ok c → Scalar.isFinite c = true

/-- The search with `left` trials left, the next one of which has the number `k`. -/
noncomputable def searchFrom (left k : ℕ) : Except (Fault Extended) (Step Extended) × σ :=
  (r.settings.extended.searchFrom r.line (finite r.startCost) (finite r.startSlope) left
    (finite (r.alpha k))).outcome (r.state k)

/-- The search through the row. -/
noncomputable def search : Except (Fault Extended) (Step Extended) × σ :=
  (r.settings.extended.search r.line (finite r.startCost) (finite r.startSlope)).outcome r.start

theorem search_eq : r.search = r.searchFrom r.settings.trials 0 := by
  have first : r.alpha 0 = r.settings.firstStep := by rw [alpha, pow_zero, mul_one]
  rw [searchFrom, first]
  rfl

theorem outcome_trial (k : ℕ) :
    (r.line.cost (finite (r.alpha k))).outcome (r.state k) = (r.answer k, r.state (k + 1)) := rfl

theorem alpha_succ (k : ℕ) : finite (r.alpha k) * finite r.settings.shrink = finite (r.alpha (k + 1)) := by
  rw [Extended.mul_finite, alpha, alpha, pow_succ, mul_assoc]

variable {r} {k : ℕ}

/-! ### One trial -/

theorem searchFrom_of_rejects (rejects : r.Rejects k) (left : ℕ) :
    r.searchFrom (left + 1) k = r.searchFrom left (k + 1) := by
  obtain ⟨cost, answered, high⟩ := rejects
  have rejected : ¬ r.settings.extended.accepts (finite r.startCost) (finite r.startSlope)
      (finite (r.alpha k)) (finite cost) = true :=
    mt (r.settings.accepts_extended _ _ _ _).mp (not_le.mpr high)
  rw [searchFrom, Backtracking.searchFrom, outcome_bind, outcome_trial, answered]
  dsimp only
  rw [if_neg rejected]
  exact congrArg (fun alpha => outcome (Backtracking.searchFrom _ _ _ _ left alpha) _) (r.alpha_succ k)

theorem searchFrom_of_accepts {cost : ℝ} (answered : r.answer k = .ok (finite cost)) (low : cost ≤ r.bound k)
    (left : ℕ) : r.searchFrom (left + 1) k =
      (.ok ⟨finite (r.alpha k), finite cost, r.settings.trials - left⟩, r.state (k + 1)) := by
  rw [searchFrom, Backtracking.searchFrom, outcome_bind, outcome_trial, answered]
  dsimp only
  rw [if_pos ((r.settings.accepts_extended _ _ _ _).mpr low)]
  rfl

theorem searchFrom_of_fails {e : Fault Extended} (failed : r.answer k = .error e) (left : ℕ) :
    r.searchFrom (left + 1) k = (.error e, r.state (k + 1)) := by
  rw [searchFrom, Backtracking.searchFrom, outcome_bind, outcome_trial, failed]

/-! ### All trials -/

/-- After trials that were rejected the search goes on with the next one. The induction is on their number. -/
theorem search_of_rejects_before (within : k ≤ r.settings.trials) (before : ∀ j < k, r.Rejects j) :
    r.search = r.searchFrom (r.settings.trials - k) k := by
  induction k with
  | zero => exact r.search_eq
  | succ k ih =>
    have left : r.settings.trials - k = r.settings.trials - (k + 1) + 1 := by omega
    rw [ih (by omega) fun j earlier => before j (by omega), left,
      searchFrom_of_rejects (before k k.lt_succ_self)]

/-- An acceptable trial after trials that were rejected is taken. -/
theorem search_of_accepts (within : k < r.settings.trials) (before : ∀ j < k, r.Rejects j) {cost : ℝ}
    (answered : r.answer k = .ok (finite cost)) (low : cost ≤ r.bound k) :
    r.search = (.ok ⟨finite (r.alpha k), finite cost, k + 1⟩, r.state (k + 1)) := by
  obtain ⟨left, count⟩ := Nat.exists_eq_succ_of_ne_zero (Nat.sub_ne_zero_of_lt within)
  have made : r.settings.trials - left = k + 1 := by omega
  rw [search_of_rejects_before within.le before, count, searchFrom_of_accepts answered low, made]

/-- A trial that fails after trials that were rejected ends the search. -/
theorem search_of_fails (within : k < r.settings.trials) (before : ∀ j < k, r.Rejects j) {e : Fault Extended}
    (failed : r.answer k = .error e) : r.search = (.error e, r.state (k + 1)) := by
  obtain ⟨left, count⟩ := Nat.exists_eq_succ_of_ne_zero (Nat.sub_ne_zero_of_lt within)
  rw [search_of_rejects_before within.le before, count, searchFrom_of_fails failed]

/-- Without an acceptable trial the search fails after the last one. -/
theorem search_of_rejects (all : ∀ k < r.settings.trials, r.Rejects k) :
    r.search = (.error (.search (.armijoExhausted r.settings.trials)), r.state r.settings.trials) := by
  rw [search_of_rejects_before le_rfl all, Nat.sub_self]
  rfl

/-- The ways in which a search can end: at its first trial that is not rejected, or after its last one. -/
inductive Decided (r : Row σ) : Except (Fault Extended) (Step Extended) × σ → Prop
  | accepted {k : ℕ} {cost : ℝ} (within : k < r.settings.trials) (before : ∀ j < k, r.Rejects j)
    (answered : r.answer k = .ok (finite cost)) (low : cost ≤ r.bound k) :
    r.Decided (.ok ⟨finite (r.alpha k), finite cost, k + 1⟩, r.state (k + 1))
  | failed {k : ℕ} {e : Fault Extended} (within : k < r.settings.trials) (before : ∀ j < k, r.Rejects j)
    (answered : r.answer k = .error e) : r.Decided (.error e, r.state (k + 1))
  | exhausted (all : ∀ k < r.settings.trials, r.Rejects k) :
    r.Decided (.error (.search (.armijoExhausted r.settings.trials)), r.state r.settings.trials)

/-- The induction is on the trials that are left once the first ones have been rejected. -/
theorem decided_of_rejects_before (known : r.Finite) (left : ℕ) (count : k + left = r.settings.trials)
    (before : ∀ j < k, r.Rejects j) : r.Decided r.search := by
  induction left generalizing k with
  | zero =>
    have all : ∀ j < r.settings.trials, r.Rejects j := count ▸ before
    rw [search_of_rejects all]
    exact .exhausted all
  | succ left ih =>
    have within : k < r.settings.trials := by omega
    rcases answered : r.answer k with e | c
    · rw [search_of_fails within before answered]
      exact .failed within before answered
    · obtain ⟨cost, rfl⟩ := Extended.isFinite_iff.mp (known k c answered)
      rcases le_or_gt cost (r.bound k) with low | high
      · rw [search_of_accepts within before answered low]
        exact .accepted within before answered low
      · have more : ∀ j < k + 1, r.Rejects j := by
          intro j earlier
          rcases Nat.lt_succ_iff_lt_or_eq.mp earlier with less | rfl
          · exact before j less
          · exact ⟨cost, answered, high⟩
        exact ih (by omega) more

/-- **A search is decided by its first trial that is not rejected.** -/
theorem search_decided (known : r.Finite) : r.Decided r.search :=
  decided_of_rejects_before known r.settings.trials (Nat.zero_add _) fun _ earlier =>
    absurd earlier (Nat.not_lt_zero _)

end Row

end Backtracking

/-! ### Runs -/

namespace Problem

variable {α : Type} [Scalar α] {p : Problem α σ} {family : Family} {x d z : Tensor α} {alpha : α}

theorem line_cost_eq (reached : family.scaledAdd x (.real alpha) d = .ok z) :
    (p.line family x d).cost alpha = p.evaluateCost z := by
  simp only [line, pointAt, reached, ofOperands_of_ok, pure_bind]

end Problem

namespace Backtracking.Row

/-- The row of a run. The start is known or has been evaluated, which has left the ledger in which the row starts;
the cost falls along the direction, and each trial leads to a point of the family of the start. -/
structure OfRun (r : Row (Ledger σ)) (s : LineSearch Extended) (p : Problem Extended σ) (family : Family)
    (x d : Tensor Extended) (l : Ledger σ) : Prop where
  method : s.method = .backtracking r.settings.extended
  point : s.start.point? = some x
  direction : s.start.direction? = some d
  found : Family.ofTensor x = .ok family
  started : ∃ gradient t, (s.startGradient p x).outcome l = (.ok gradient, t) ∧
    (s.startCost p x).outcome t = (.ok (finite r.startCost), r.start) ∧
    family.dot gradient d = .ok (finite r.startSlope)
  fall : r.startSlope < 0
  line : r.line = p.line family x d
  reaches : ∀ k < r.settings.trials, ∃ z, family.scaledAdd x (.real (finite (r.alpha k))) d = .ok z ∧
    Family.ofTensor z = .ok family

/-- The ways in which a run can end. -/
inductive Ended (r : Row (Ledger σ)) (family : Family) (x d : Tensor Extended) :
    Except (Fault Extended) (Accepted Extended) × Ledger σ → Prop
  | accepted {k : ℕ} {cost : ℝ} {z : Tensor Extended} (within : k < r.settings.trials)
    (before : ∀ j < k, r.Rejects j) (answered : r.answer k = .ok (finite cost)) (low : cost ≤ r.bound k)
    (reached : family.scaledAdd x (.real (finite (r.alpha k))) d = .ok z) :
    r.Ended family x d (.ok ⟨z, finite cost, finite (r.alpha k), k + 1⟩, r.state (k + 1))
  | failed {k : ℕ} {e : Fault Extended} (within : k < r.settings.trials) (before : ∀ j < k, r.Rejects j)
    (answered : r.answer k = .error e) (failed : e.ofEvaluation = true) :
    r.Ended family x d (.error e, r.state (k + 1))
  | exhausted (all : ∀ k < r.settings.trials, r.Rejects k) :
    r.Ended family x d (.error (.search (.armijoExhausted r.settings.trials)), r.state r.settings.trials)

namespace Ended

variable {r : Row (Ledger σ)} {family : Family} {x d : Tensor Extended}
  {o : Except (Fault Extended) (Accepted Extended) × Ledger σ} (ended : r.Ended family x d o)

include ended

/-- What is returned belongs to a trial that is accepted, after trials that are rejected. -/
theorem takes {a : Accepted Extended} (run : o.1 = .ok a) :
    ∃ k < r.settings.trials, a.alpha = finite (r.alpha k) ∧ a.trials = k + 1 ∧ (∀ j < k, r.Rejects j) ∧
      r.Accepts k ∧ r.answer k = .ok a.cost ∧ family.scaledAdd x (.real a.alpha) d = .ok a.point ∧
      o.2 = r.state (k + 1) := by
  cases ended with
  | accepted within before answered low reached =>
    obtain rfl := Except.ok.inj run
    exact ⟨_, within, rfl, rfl, before, ⟨_, answered, low⟩, answered, reached, rfl⟩
  | failed => cases run
  | exhausted => cases run

/-- A run fails as a search after all trials only. -/
theorem rejects_of_search {cause : SearchFault Extended} (run : o.1 = .error (.search cause)) :
    ∀ k < r.settings.trials, r.Rejects k := by
  cases ended with
  | accepted => cases run
  | failed _ _ _ failed =>
    obtain rfl := Except.error.inj run
    cases failed
  | exhausted all => exact all

end Ended

namespace OfRun

variable {r : Row (Ledger σ)} {s : LineSearch Extended} {p : Problem Extended σ} {family : Family}
  {x d : Tensor Extended} {l : Ledger σ} {k : ℕ} (h : r.OfRun s p family x d l)

include h

theorem finite_answers : r.Finite := by
  intro k c answered
  have run := r.outcome_trial k
  rw [answered, h.line] at run
  exact Problem.isFinite_of_line_cost run

/-- A trial is one evaluation of the cost, at a point of the family of the start. -/
theorem exists_trial (within : k < r.settings.trials) :
    ∃ z, family.scaledAdd x (.real (finite (r.alpha k))) d = .ok z ∧ Family.ofTensor z = .ok family ∧
      (p.evaluateCost z).outcome (r.state k) = (r.answer k, r.state (k + 1)) := by
  obtain ⟨z, reached, found⟩ := h.reaches k within
  have run := r.outcome_trial k
  rw [h.line, Problem.line_cost_eq reached] at run
  exact ⟨z, reached, found, run⟩

theorem answered (within : k < r.settings.trials) : (∃ cost, r.answer k = .ok (finite cost)) ∨
    ∃ e, r.answer k = .error e ∧ e.ofEvaluation = true := by
  obtain ⟨z, -, found, run⟩ := h.exists_trial within
  rcases answered : r.answer k with e | c <;> rw [answered] at run
  · exact .inr ⟨e, rfl, (Problem.evaluateCost_fails found).of_error run⟩
  · obtain ⟨cost, rfl⟩ := Extended.isFinite_iff.mp (Problem.isFinite_of_evaluateCost run)
    exact .inl ⟨cost, rfl⟩

/-- A trial is counted once. -/
theorem counted_succ (within : k < r.settings.trials) :
    (r.state (k + 1)).costCalls = (r.state k).costCalls + 1 ∧
      (r.state (k + 1)).gradientCalls = (r.state k).gradientCalls := by
  obtain ⟨z, -, found, run⟩ := h.exists_trial within
  have counted := p.evaluateCost_counted found (r.state k)
  rcases answered : r.answer k with e | c <;> rw [answered] at run
  · exact (counted.of_error run).2
  · exact counted.of_ok run

theorem counted (within : k ≤ r.settings.trials) : (r.state k).costCalls = r.start.costCalls + k ∧
    (r.state k).gradientCalls = r.start.gradientCalls := by
  induction k with
  | zero => exact ⟨rfl, rfl⟩
  | succ k ih =>
    obtain ⟨costs, gradients⟩ := ih (by omega)
    obtain ⟨more, same⟩ := h.counted_succ within
    exact ⟨by omega, by omega⟩

/-- A run is the search through its row, and then the point at the step length found. -/
theorem run_eq : (s.run p).outcome l = match r.search with
    | (.ok step, after) => (do
        return ⟨← Problem.pointAt family x d step.alpha, step.cost, step.alpha, step.trials⟩ :
          Evaluation Extended σ (Accepted Extended)).outcome after
    | (.error e, after) => (.error e, after) := by
  obtain ⟨gradient, t, first, second, product⟩ := h.started
  have fall : finite r.startSlope < 0 := (Extended.lt_finite _ _).mpr h.fall
  have searched : (s.method.search (p.line family x d) (finite r.startCost) (finite r.startSlope)).outcome
      r.start = r.search := by
    rw [h.method, ← h.line]
    rfl
  rw [LineSearch.run_of_fall h.point h.direction h.found first second product fall, outcome_bind, searched]
  rcases r.search with ⟨e | step, after⟩ <;> rfl

theorem run_of_search_error {e : Fault Extended} {after : Ledger σ} (searched : r.search = (.error e, after)) :
    (s.run p).outcome l = (.error e, after) := by
  rw [h.run_eq, searched]

theorem run_of_search_ok (within : k < r.settings.trials) {cost : ℝ}
    (searched : r.search = (.ok ⟨finite (r.alpha k), finite cost, k + 1⟩, r.state (k + 1))) :
    ∃ z, family.scaledAdd x (.real (finite (r.alpha k))) d = .ok z ∧
      (s.run p).outcome l = (.ok ⟨z, finite cost, finite (r.alpha k), k + 1⟩, r.state (k + 1)) := by
  obtain ⟨z, reached, -⟩ := h.reaches k within
  refine ⟨z, reached, ?_⟩
  rw [h.run_eq, searched]
  simp only [Problem.pointAt, reached, ofOperands_of_ok, pure_bind, outcome_pure]

/-- A run ends as the search through its row does. -/
theorem run_ended : r.Ended family x d ((s.run p).outcome l) := by
  have decided := r.search_decided h.finite_answers
  generalize searched : r.search = o at decided
  cases decided with
  | accepted within before answered low =>
    obtain ⟨z, reached, run⟩ := h.run_of_search_ok within searched
    rw [run]
    exact .accepted within before answered low reached
  | @failed k e within before answered =>
    have failed : e.ofEvaluation = true := by
      rcases h.answered within with ⟨cost, other⟩ | ⟨e', same, failed⟩
      · exact absurd (answered.symm.trans other) nofun
      · exact Except.error.inj (answered.symm.trans same) ▸ failed
    rw [h.run_of_search_error searched]
    exact .failed within before answered failed
  | exhausted all =>
    rw [h.run_of_search_error searched]
    exact .exhausted all

end OfRun

/-- How a run goes that takes the first acceptable trial of its row. Every trial has a finite cost or is a failed
evaluation; each of them is counted once, and the run leaves the state after its last trial. -/
structure Governs (r : Row (Ledger σ)) (family : Family) (x d : Tensor Extended)
    (o : Except (Fault Extended) (Accepted Extended) × Ledger σ) : Prop where
  answered : ∀ k < r.settings.trials, (∃ cost, r.answer k = .ok (finite cost)) ∨
    ∃ e, r.answer k = .error e ∧ e.ofEvaluation = true
  counted : ∀ k ≤ r.settings.trials, (r.state k).costCalls = r.start.costCalls + k ∧
    (r.state k).gradientCalls = r.start.gradientCalls
  accepted_iff : ∀ k < r.settings.trials,
    (∃ a, o.1 = .ok a ∧ a.alpha = finite (r.alpha k) ∧ a.trials = k + 1) ↔
      (∀ j < k, r.Rejects j) ∧ r.Accepts k
  accepted : ∀ a, o.1 = .ok a → ∃ k < r.settings.trials, a.alpha = finite (r.alpha k) ∧ a.trials = k + 1 ∧
    r.answer k = .ok a.cost ∧ family.scaledAdd x (.real a.alpha) d = .ok a.point ∧ o.2 = r.state (k + 1)
  failed : ∀ k < r.settings.trials, ∀ e, (∀ j < k, r.Rejects j) → r.answer k = .error e →
    o = (.error e, r.state (k + 1))
  exhausted_iff : (∃ cause, o.1 = .error (.search cause)) ↔ ∀ k < r.settings.trials, r.Rejects k
  exhausted : (∀ k < r.settings.trials, r.Rejects k) →
    o = (.error (.search (.armijoExhausted r.settings.trials)), r.state r.settings.trials)

end Backtracking.Row

/-- **A run takes the first acceptable step.** It returns the step length of a trial exactly if that trial could be
evaluated and is acceptable and all trials before could be evaluated and are not. It fails as the first trial that
cannot be evaluated, if no trial before is acceptable; and it fails as a search exactly if all trials could be
evaluated and none is acceptable. Up to the trial that decides each trial is one evaluation of the cost, and there
is none after it. -/
theorem LineSearch.run_takes_first_acceptable {r : Backtracking.Row (Ledger σ)} {s : LineSearch Extended}
    {p : Problem Extended σ} {family : Family} {x d : Tensor Extended} {l : Ledger σ}
    (h : r.OfRun s p family x d l) : r.Governs family x d ((s.run p).outcome l) := by
  have ended := h.run_ended
  constructor
  case answered => exact fun k within => h.answered within
  case counted => exact fun k within => h.counted within
  case failed =>
    intro k within e before failed
    exact h.run_of_search_error (r.search_of_fails within before failed)
  case exhausted => exact fun all => h.run_of_search_error (r.search_of_rejects all)
  case accepted_iff =>
    intro k within
    constructor
    · rintro ⟨a, run, -, trials⟩
      obtain ⟨j, -, -, trials', before, accepts, -⟩ := ended.takes run
      obtain rfl : j = k := Nat.succ.inj (trials'.symm.trans trials)
      exact ⟨before, accepts⟩
    · rintro ⟨before, cost, answered, low⟩
      obtain ⟨z, -, run⟩ := h.run_of_search_ok within (r.search_of_accepts within before answered low)
      exact ⟨_, congrArg Prod.fst run, rfl, rfl⟩
  case accepted =>
    intro a run
    obtain ⟨k, within, length, trials, -, -, answered, reached, after⟩ := ended.takes run
    exact ⟨k, within, length, trials, answered, reached, after⟩
  case exhausted_iff =>
    constructor
    · rintro ⟨cause, run⟩
      exact ended.rejects_of_search run
    · intro all
      exact ⟨_, congrArg Prod.fst (h.run_of_search_error (r.search_of_rejects all))⟩

/-- The square of the first entry of a point is the cost, and there is no gradient. -/
noncomputable def squareEntry : Problem Extended Unit where
  cost x := pure (x.values.getD 0 0 * x.values.getD 0 0)
  gradient? := none

theorem squareEntry_answers (y : ℝ) (l : Ledger Unit) :
    ((squareEntry.evaluateCost (scalarPoint y)).outcome l).1 = .ok (finite (y * y)) := by
  obtain ⟨_ | f, costs, gradients, _⟩ := l <;> rfl

/-- The search with two trials, downwards from one half with a first step that is twice too long. -/
noncomputable def overshooting : LineSearch Extended :=
  ⟨.backtracking ⟨finite 1, finite 0.5, finite 0.25, 2⟩,
    ⟨some (scalarPoint 0.5), some (scalarPoint 1), some (finite 0.25), some (scalarPoint (-1))⟩⟩

/-- The two trials of this search. -/
noncomputable def overshootingRow : Backtracking.Row (Ledger Unit) :=
  ⟨⟨1, 0.5, 0.25, 2⟩, squareEntry.line .lenient (scalarPoint 0.5) (scalarPoint (-1)), 0.25, -1, .fresh none ()⟩

theorem overshooting_reaches (alpha : ℝ) :
    Family.lenient.scaledAdd (scalarPoint 0.5) (.real (finite alpha)) (scalarPoint (-1)) =
      .ok (scalarPoint (0.5 + alpha * -1)) := by
  rw [scalarPoint, scalarPoint, Family.scaledAdd_point, Extended.mul_finite, Extended.add_finite, scalarPoint]

/-- Along the ray the costs are those of a parabola. -/
theorem overshooting_line (alpha : ℝ) (l : Ledger Unit) :
    ((overshootingRow.line.cost (finite alpha)).outcome l).1 =
      .ok (finite ((0.5 + alpha * -1) * (0.5 + alpha * -1))) := by
  have trial : overshootingRow.line.cost (finite alpha) =
      squareEntry.evaluateCost (scalarPoint (0.5 + alpha * -1)) :=
    Problem.line_cost_eq (overshooting_reaches alpha)
  rw [trial, squareEntry_answers]

theorem overshootingRow_ofRun : overshootingRow.OfRun overshooting squareEntry .lenient (scalarPoint 0.5)
    (scalarPoint (-1)) (.fresh none ()) where
  method := rfl
  point := rfl
  direction := rfl
  found := rfl
  started := by
    have product : Family.lenient.dot (scalarPoint 1) (scalarPoint (-1)) = .ok (finite (1 * -1)) := rfl
    have slope : (1 * -1 : ℝ) = overshootingRow.startSlope := by norm_num [overshootingRow]
    exact ⟨scalarPoint 1, .fresh none (), rfl, rfl, slope ▸ product⟩
  fall := by norm_num [overshootingRow]
  line := rfl
  reaches _ _ := ⟨_, overshooting_reaches _, rfl⟩

theorem overshooting_rejects : ∀ j < 1, overshootingRow.Rejects j := by
  intro j first
  obtain rfl := Nat.lt_one_iff.mp first
  refine ⟨_, overshooting_line _ _, ?_⟩
  norm_num [Backtracking.Row.bound, Backtracking.Row.alpha, overshootingRow]

theorem overshooting_accepts : overshootingRow.Accepts 1 := by
  refine ⟨_, overshooting_line _ _, ?_⟩
  norm_num [Backtracking.Row.bound, Backtracking.Row.alpha, overshootingRow]

/-- For instance, the search with the first step that is too long takes its second trial, and it has evaluated the
cost twice. -/
theorem overshooting_takes_second : ∃ a after,
    (overshooting.run squareEntry).outcome (.fresh none ()) = (.ok a, after) ∧ a.trials = 2 ∧
      after.costCalls = 2 := by
  have governs := LineSearch.run_takes_first_acceptable overshootingRow_ofRun
  obtain ⟨a, run, -, trials⟩ :=
    (governs.accepted_iff 1 one_lt_two).mpr ⟨overshooting_rejects, overshooting_accepts⟩
  obtain ⟨k, within, -, trials', -, -, after⟩ := governs.accepted a run
  obtain rfl : 1 = k := Nat.succ.inj (trials.symm.trans trials')
  exact ⟨a, overshootingRow.state 2, Prod.ext run after, trials, (governs.counted 2 le_rfl).1⟩

end QuasiNewton
