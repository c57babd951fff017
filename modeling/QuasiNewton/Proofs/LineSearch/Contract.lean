import QuasiNewton.Proofs.LineSearch.Represented
import QuasiNewton.Proofs.LineSearch.Start
import QuasiNewton.Proofs.Objective.Checked
import QuasiNewton.Proofs.Objective.Steady

/-!
# The contract of a line search

What every search keeps to, with each of the three methods and whatever of its start is given: it is refused
before its first trial unless the cost falls along the direction, and a result lies ahead of the start and
has a cost that does not exceed the cost at the start (`LineSearch.run_lowers_or_refuses`). A given cost that
is not finite counts as missing. To say so in exact arithmetic takes numbers that are not finite, so the
contract is stated over the extended numbers; all settings are real numbers.
-/

set_option autoImplicit false

namespace QuasiNewton

open Attempt
open Extended (finite)

variable {α σ : Type}

/-! ### Methods and their settings -/

namespace Method

/-- What a method is asked for. -/
inductive Options (α : Type) [Scalar α] where
  | backtracking (o : BacktrackingOptions α)
  | wolfe (o : WolfeOptions α)
  | secant (o : SecantOptions α)

namespace Options

/-- The method with these settings, if they are in their ranges. -/
def make [Scalar α] : Options α → Except (Fault α) (Method α)
  | backtracking o => return .backtracking (← Backtracking.ofOptions o)
  | wolfe o => return .wolfe (← Wolfe.ofOptions o)
  | secant o => return .secant (← Secant.ofOptions o)

/-- The settings read in the extended numbers. -/
noncomputable def extended : Options ℝ → Options Extended
  | backtracking o =>
    backtracking ⟨finite o.firstStep, finite o.shrink, finite o.decrease, finite o.trials⟩
  | wolfe o =>
    wolfe ⟨finite o.firstStep, finite o.decrease, finite o.curvature, finite o.trials, finite o.halvings⟩
  | secant o => secant ⟨finite o.firstStep, finite o.tolerance, finite o.trials⟩

/-- The limits permit a trial of each sort. -/
def PermitTrials : Options ℝ → Prop
  | backtracking o => 1 ≤ o.trials
  | wolfe o => 1 ≤ o.trials ∧ 1 ≤ o.halvings
  | secant o => 1 ≤ o.trials

/-- A real number stands for the same count in the extended numbers. -/
theorem countOf_extended {x : ℝ} {n : ℕ} (h : (countOf (finite x) : Except (Fault Extended) ℕ) = .ok n) :
    (countOf x : Except (Fault ℝ) ℕ) = .ok n := congrArg Except.ok (Except.ok.inj h)

/-- A method made in the extended numbers is one made in the real numbers, and it may be run if its limits
permit trials. -/
theorem exists_of_make {o : Options ℝ} {method : Method Extended} (made : o.extended.make = .ok method)
    (permit : o.PermitTrials) : ∃ m : Method ℝ, method = m.extended ∧ m.Admissible := by
  cases o with
  | backtracking o =>
    simp only [extended, make, except_bind_ok, Backtracking.ofOptions, require_ok] at made
    obtain ⟨s, ⟨_, decrease, _, shrink, _, firstStep, _, trials, n, count, made⟩, same⟩ := made
    obtain rfl := Except.ok.inj made
    obtain rfl := Except.ok.inj same
    have real : Backtracking.ofOptions o = .ok ⟨o.firstStep, o.shrink, o.decrease, n⟩ := by
      simp only [Backtracking.ofOptions, except_bind_ok, require_ok]
      exact ⟨(), decrease, (), shrink, (), firstStep, (), trials, n, countOf_extended count, rfl⟩
    exact ⟨.backtracking _, rfl, Backtracking.admissible_of_ofOptions real permit⟩
  | wolfe o =>
    simp only [extended, make, except_bind_ok, Wolfe.ofOptions, require_ok] at made
    obtain ⟨s, ⟨_, constants, _, firstStep, _, limits, n, count, k, halvings, made⟩, same⟩ := made
    obtain rfl := Except.ok.inj made
    obtain rfl := Except.ok.inj same
    have real : Wolfe.ofOptions o = .ok ⟨o.firstStep, o.decrease, o.curvature, n, k⟩ := by
      simp only [Wolfe.ofOptions, except_bind_ok, require_ok]
      exact ⟨(), constants, (), firstStep, (), limits, n, countOf_extended count, k,
        countOf_extended halvings, rfl⟩
    exact ⟨.wolfe _, rfl, Wolfe.admissible_of_ofOptions real permit.1 permit.2⟩
  | secant o =>
    simp only [extended, make, except_bind_ok, Secant.ofOptions, require_ok] at made
    obtain ⟨s, ⟨_, firstStep, _, tolerance, _, trials, n, count, made⟩, same⟩ := made
    obtain rfl := Except.ok.inj made
    obtain rfl := Except.ok.inj same
    have real : Secant.ofOptions o = .ok ⟨o.firstStep, o.tolerance, n⟩ := by
      simp only [Secant.ofOptions, except_bind_ok, require_ok]
      exact ⟨(), firstStep, (), tolerance, (), trials, n, countOf_extended count, rfl⟩
    exact ⟨.secant _, rfl, Secant.admissible_of_ofOptions real permit⟩

end Options

end Method

/-! ### Answers along a ray -/

namespace Problem

/-- Seen along a ray, a steady problem answers the costs of the points there. -/
theorem Steady.line_costs [Scalar α] {p : Problem α σ} (h : p.Steady) (family : Family) (x d : Tensor α) :
    (p.line family x d).Answers (fun _ => True)
      (fun alpha cost => ∃ point, family.scaledAdd x (.real alpha) d = .ok point ∧ p.CostAt point cost)
      (fun _ _ => True) (fun _ => True) where
  cost alpha _ l _ := by
    simp only [line, pointAt, ensures_bind]
    rcases found : family.scaledAdd x (.real alpha) d with cause | point
    · exact ⟨trivial, trivial⟩
    · refine (h.cost_ensures point l).mono (fun cost t => ?_) fun _ _ _ => ⟨trivial, trivial⟩
      rintro ⟨-, -, -, answered⟩
      exact ⟨⟨point, rfl, answered⟩, trivial⟩
  slope alpha _ l _ := by
    unfold Ensures
    split <;> exact ⟨trivial, trivial⟩

/-- Whatever is answered for a cost along a ray is finite. -/
theorem isFinite_of_line_cost {p : Problem Extended σ} {family : Family} {x d : Tensor Extended}
    {alpha cost : Extended} {l l' : Ledger σ}
    (h : ((p.line family x d).cost alpha).outcome l = (.ok cost, l')) : Scalar.isFinite cost = true := by
  simp only [line, bind_ok] at h
  obtain ⟨point, _, -, asked⟩ := h
  exact isFinite_of_evaluateCost asked

/-- Along a finite direction all answers are finite. -/
theorem line_finite (p : Problem Extended σ) (family : Family) (x : Tensor Extended) {d : Tensor Extended}
    (hd : d.Finite) : (p.line family x d).Finite where
  cost alpha l := by
    rcases run : ((p.line family x d).cost (finite alpha)).outcome l with ⟨e | cost, t⟩
    · simp only [Ensures, run]
    · exact ensures_of_ok run (isFinite_of_line_cost run)
  slope alpha l := by
    rcases run : ((p.line family x d).slope (finite alpha)).outcome l with ⟨e | slope, t⟩
    · simp only [Ensures, run]
    · have parts := run
      simp only [line, bind_ok, ofOperands_ok] at parts
      obtain ⟨point, _, -, gradient, _, asked, product, -⟩ := parts
      obtain ⟨r, rfl⟩ := Family.dot_finite (finite_of_evaluateGradient asked) hd product
      exact ensures_of_ok run rfl

end Problem

/-! ### Points without axes -/

section Points

variable {ε δ : Type}

theorem Dense.map_point (f : ε → δ) (x : ε) : (point x).map f = point (f x) := by
  have entries : Vector.map f (#v[x] : Vector ε 1) = #v[f x] := by simp
  exact congrArg (Dense.mk []) entries

theorem Dense.all_point (f : ε → Bool) (x : ε) : (point x).all f = f x := by
  have entries : (#v[x] : Vector ε 1).all f = f x := by simp
  exact entries

theorem Dense.combine_point (ar : Arithmetic ε) (f : ε → ε → ε) (x y : ε) :
    combine ar f (point x) (point y) = some (point (f x y)) := by
  have entries : Vector.zipWith f (#v[x] : Vector ε 1) #v[y] = #v[f x y] := by simp
  rw [combine, dif_pos (show (point y).shape = (point x).shape from rfl)]
  exact congrArg (fun xs => some (Dense.mk [] xs)) entries

variable [Scalar α]

/-- Without axes, points are moved as the numbers that they hold. -/
theorem Family.scaledAdd_point (x d alpha : α) :
    lenient.scaledAdd (.lenient (.point x)) (.real alpha) (.lenient (.point d)) =
      .ok (.lenient (.point (x + alpha * d))) := by
  have scaled : (Tensor.lenient (.point d)).scale (.real alpha) = .ok (.lenient (.point (alpha * d))) :=
    congrArg (fun xs => Except.ok (Tensor.lenient xs)) (Dense.map_point _ d)
  have combined : Entries.combine (.real .double) (fun ε ar => Dense.combine ar ar.add)
      (.real .double (.point x)) (.real .double (.point (alpha * d))) =
      some (.real .double (.point (x + alpha * d))) :=
    congrArg (Option.map (Entries.real .double)) (Dense.combine_point (.real .double) _ x (alpha * d))
  have added : (Tensor.lenient (.point x)).add (.lenient (.point (alpha * d))) =
      .ok (.lenient (.point (x + alpha * d))) := by
    simp only [Tensor.add, Tensor.zipWith, Tensor.meet, Tensor.lenient, Tensor.meetingType, Entries.type,
      ElementType.joinLenient, Precision.join, bind, Except.bind, combined]
  exact (congrArg (fun r => r >>= fun b => Tensor.add _ b) scaled).trans added

end Points

/-! ### The start -/

/-- What is given of a start is exact: the direction and a given gradient have finite entries. A given cost
may be anything. -/
structure Start.Exact (s : Start Extended) : Prop where
  gradient : ∀ g ∈ s.gradient?, g.Finite
  direction : ∀ d ∈ s.direction?, d.Finite

/-- The cost at the start: the given one if it is finite, and what the problem answers there otherwise. -/
def Start.HasCost (s : Start Extended) (p : Problem Extended σ) (x : Tensor Extended) (cost : ℝ) : Prop :=
  s.cost? = some (finite cost) ∨ (∀ c ∈ s.cost?, Scalar.isFinite c = false) ∧ p.CostAt x (finite cost)

namespace LineSearch

section Start

variable {p : Problem Extended σ} {s : LineSearch Extended} {x : Tensor Extended} {l l' : Ledger σ}

theorem startGradient_finite (hs : s.start.Exact) {gradient : Tensor Extended}
    (h : (s.startGradient p x).outcome l = (.ok gradient, l')) : gradient.Finite := by
  unfold startGradient at h
  rcases given : s.start.gradient? with _ | g <;> rw [given] at h
  · exact Problem.finite_of_evaluateGradient h
  · obtain ⟨rfl, -⟩ := pure_ok.mp h
    exact hs.gradient g given

/-- A given cost is taken if it is finite, and the cost is evaluated otherwise. -/
theorem startCost_cases (s : LineSearch Extended) (p : Problem Extended σ) (x : Tensor Extended) :
    (∃ start, s.start.cost? = some (finite start) ∧ s.startCost p x = pure (finite start)) ∨
      (∀ c ∈ s.start.cost?, Scalar.isFinite c = false) ∧ s.startCost p x = p.evaluateCost x := by
  unfold startCost
  rcases s.start.cost? with _ | c
  · exact .inr ⟨nofun, rfl⟩
  · cases c with
    | finite start => exact .inl ⟨start, rfl, rfl⟩
    | infinite n => exact .inr ⟨fun _ given => Option.some.inj given ▸ rfl, rfl⟩
    | undefined => exact .inr ⟨fun _ given => Option.some.inj given ▸ rfl, rfl⟩

/-- Of a steady problem, a search starts from the cost at the start. -/
theorem startCost_eq (steady : p.Steady) {cost : Extended}
    (h : (s.startCost p x).outcome l = (.ok cost, l')) :
    ∃ start, cost = finite start ∧ s.start.HasCost p x start := by
  rcases s.startCost_cases p x with ⟨start, given, same⟩ | ⟨unusable, same⟩ <;> rw [same] at h
  · obtain ⟨rfl, -⟩ := pure_ok.mp h
    exact ⟨start, rfl, .inl given⟩
  · obtain ⟨start, rfl⟩ := Extended.isFinite_iff.mp (Problem.isFinite_of_evaluateCost h)
    obtain ⟨-, -, -, answered⟩ := (steady.cost_ensures x l).of_ok h
    exact ⟨start, rfl, .inr ⟨unusable, answered⟩⟩

theorem startGradient_fails {family : Family} (found : Family.ofTensor x = .ok family)
    (array : x.family?.isSome) (answers : p.AnswersArrays (l.family?.getD family)) {e : Fault Extended}
    (h : (s.startGradient p x).outcome l = (.error e, l')) : e.ofEvaluation = true := by
  obtain ⟨home, array⟩ := Option.isSome_iff_exists.mp array
  unfold startGradient at h
  rcases given : s.start.gradient? with _ | gradient <;> rw [given] at h
  · exact (Problem.evaluateGradient_fails found array answers).of_error h
  · exact absurd h nofun

theorem startCost_fails {family : Family} (found : Family.ofTensor x = .ok family) {e : Fault Extended}
    (h : (s.startCost p x).outcome l = (.error e, l')) : e.ofEvaluation = true := by
  rcases s.startCost_cases p x with ⟨start, -, same⟩ | ⟨-, same⟩ <;> rw [same] at h
  · exact absurd h nofun
  · exact (Problem.evaluateCost_fails found).of_error h

end Start

section Courses

variable [Scalar α] {s : LineSearch α} {p : Problem α σ} {x d gradient : Tensor α} {family : Family}
  {l t u : Ledger σ} (point : s.start.point? = some x) (direction : s.start.direction? = some d)
  (found : Family.ofTensor x = .ok family)

include point direction found

theorem run_of_gradient_fails {e : Fault α} (first : (s.startGradient p x).outcome l = (.error e, t)) :
    (s.run p).outcome l = (.error e, t) := by
  simp only [run, point, direction, outcome_bind, outcome_ofExcept, found, first]

theorem run_of_cost_fails {e : Fault α} (first : (s.startGradient p x).outcome l = (.ok gradient, t))
    (second : (s.startCost p x).outcome t = (.error e, u)) : (s.run p).outcome l = (.error e, u) := by
  simp only [run, point, direction, outcome_bind, outcome_ofExcept, found, first, second]

/-- Where the cost does not fall along the direction, a search is refused before its first trial. -/
theorem run_of_ascent (first : (s.startGradient p x).outcome l = (.ok gradient, t)) {cost slope : α}
    (second : (s.startCost p x).outcome t = (.ok cost, u)) (product : family.dot gradient d = .ok slope)
    (ascent : ¬ slope < 0) : (s.run p).outcome l = (.error (.search (.notDescent slope)), u) := by
  simp only [run, point, direction, outcome_bind, outcome_ofExcept, found, first, second, product,
    outcome_ofOperands_ok, if_neg ascent, outcome_throw]

/-- Where the cost falls along the direction, a run is the search of its method from the start. -/
theorem run_of_fall (first : (s.startGradient p x).outcome l = (.ok gradient, t)) {cost slope : α}
    (second : (s.startCost p x).outcome t = (.ok cost, u)) (product : family.dot gradient d = .ok slope)
    (fall : slope < 0) :
    (s.run p).outcome l = (do
      let step ← s.method.search (p.line family x d) cost slope
      return ⟨← Problem.pointAt family x d step.alpha, step.cost, step.alpha, step.trials⟩ :
        Evaluation α σ (Accepted α)).outcome u := by
  simp only [run, point, direction, outcome_bind, outcome_ofExcept, found, first, second, product,
    outcome_ofOperands_ok, if_pos fall]

end Courses

/-- What a search delivers: a point ahead of the start, with the cost that the problem answers there, which
does not exceed the cost at the start. Only the secant method may return to the cost at the start. -/
structure Lowers (s : LineSearch Extended) (p : Problem Extended σ) (x d : Tensor Extended)
    (a : Accepted Extended) (alpha cost startCost : ℝ) : Prop where
  alpha_eq : a.alpha = finite alpha
  ahead : 0 < alpha
  point : ∃ family, Family.ofTensor x = .ok family ∧ family.scaledAdd x (.real (finite alpha)) d = .ok a.point
  cost_eq : a.cost = finite cost
  answered : p.CostAt a.point (finite cost)
  start : s.start.HasCost p x startCost
  low : cost ≤ startCost
  lower : (∀ settings, s.method ≠ .secant settings) → cost < startCost

/-- **A search lowers the cost or is refused.** Whatever the problem answers, as long as its answers depend
on the point only, a search that succeeds delivers a lower cost. If the gradient or the cost at the start is
missing and cannot be evaluated, the search fails as the evaluation does. If both are known and the cost does
not fall along the direction, it is refused with the ledger that the evaluations at the start have left, so
that no trial has been evaluated. -/
theorem run_lowers_or_refuses {p : Problem Extended σ} (steady : p.Steady) {s : LineSearch Extended}
    {o : Method.Options ℝ} (made : o.extended.make = .ok s.method) (permit : o.PermitTrials)
    (hs : s.start.Exact) {x d : Tensor Extended} (point : s.start.point? = some x)
    (direction : s.start.direction? = some d) (l : Ledger σ) :
    (∀ a l', (s.run p).outcome l = (.ok a, l') → ∃ alpha cost start, s.Lowers p x d a alpha cost start) ∧
    ∀ family, Family.ofTensor x = .ok family →
      (∀ e t, (s.startGradient p x).outcome l = (.error e, t) →
        (s.run p).outcome l = (.error e, t) ∧
        (x.family?.isSome → p.AnswersArrays (l.family?.getD family) → e.ofEvaluation = true)) ∧
      ∀ gradient t, (s.startGradient p x).outcome l = (.ok gradient, t) →
        (∀ e u, (s.startCost p x).outcome t = (.error e, u) →
          (s.run p).outcome l = (.error e, u) ∧ e.ofEvaluation = true) ∧
        ∀ cost u slope, (s.startCost p x).outcome t = (.ok cost, u) → family.dot gradient d = .ok slope →
          ¬ slope < 0 → (s.run p).outcome l = (.error (.search (.notDescent slope)), u) := by
  refine ⟨fun a l' run => ?_, fun family found => ⟨fun e t first => ?_, fun gradient t first =>
    ⟨fun e u second => ?_, fun cost u slope second => run_of_ascent point direction found first second⟩⟩⟩
  · obtain ⟨m, method, admissible⟩ := Method.Options.exists_of_make made permit
    obtain ⟨family, gradient, t, cost, u, slope, found, first, second, product, descent, searched, moved⟩ :=
      run_parts point direction run
    obtain ⟨fall, rfl⟩ :=
      Family.dot_finite (startGradient_finite hs first) (hs.direction d direction) product
    obtain ⟨start, rfl, given⟩ := startCost_eq steady second
    rw [method] at searched
    obtain ⟨step, same, ahead, ⟨reached, moved', answered⟩, low, lower⟩ :=
      (Method.search_extended (steady.line_costs family x d)
        (p.line_finite family x (hs.direction d direction)) admissible descent trivial).of_ok searched
    obtain ⟨alpha_eq, cost_eq, -⟩ := Step.mk.inj same
    obtain rfl : reached = a.point := Except.ok.inj (moved'.symm.trans moved)
    have strict (other : ∀ settings, s.method ≠ .secant settings) : m.Strict := by
      cases m with
      | backtracking => exact trivial
      | wolfe => exact trivial
      | secant settings => exact absurd method (other settings.extended)
    exact ⟨step.alpha, step.cost, start, alpha_eq, ahead, ⟨family, found, alpha_eq ▸ moved⟩, cost_eq,
      cost_eq ▸ answered, given, low, fun other => lower (strict other)⟩
  · exact ⟨run_of_gradient_fails point direction found first, fun array answers =>
      startGradient_fails found array answers first⟩
  · exact ⟨run_of_cost_fails point direction found first second, startCost_fails found second⟩

end LineSearch

/-- The first entry of a point is the cost, and there is no gradient. -/
noncomputable def firstEntry : Problem Extended Unit where
  cost x := pure (x.values.getD 0 0)
  gradient? := none

theorem firstEntry_steady : firstEntry.Steady where
  cost _ := .pure _
  gradient _ given := nomatch given

/-- The point without axes that holds a number. -/
noncomputable def scalarPoint (x : ℝ) : Tensor Extended := .lenient (.point (finite x))

theorem scalarPoint_finite (x : ℝ) : (scalarPoint x).Finite := Dense.all_point Scalar.isFinite (finite x)

/-- The search with one trial, downwards from zero with the slope one and an infinite cost. -/
noncomputable def downwards : LineSearch Extended :=
  ⟨.backtracking ⟨finite 1, finite 0.5, finite 0.25, 1⟩,
    ⟨some (scalarPoint 0), some (scalarPoint 1), some (.infinite false), some (scalarPoint (-1))⟩⟩

theorem downwards_made :
    (Method.Options.backtracking ⟨1, 0.5, 0.25, 1⟩).extended.make = .ok downwards.method := by
  have count : (countOf (finite 1) : Except (Fault Extended) ℕ) = .ok 1 := by
    have real := Exact.countOf_of_nonneg (zero_le_one' ℝ)
    rw [Nat.floor_one] at real
    exact congrArg Except.ok (Except.ok.inj real)
  have one : (1 : Extended) = finite 1 := rfl
  simp only [Method.Options.extended, Method.Options.make, except_bind_ok, Backtracking.ofOptions,
    require_ok, one, Extended.zero_eq, Extended.lt_finite, Extended.le_finite]
  exact ⟨_, ⟨(), by norm_num, (), by norm_num, (), by norm_num, (), by norm_num, 1, count, rfl⟩, rfl⟩

theorem downwards_exact : downwards.start.Exact where
  gradient _ given := Option.some.inj given ▸ scalarPoint_finite 1
  direction _ given := Option.some.inj given ▸ scalarPoint_finite (-1)

/-- The infinite cost is replaced by the cost at the start, and the only trial is taken. -/
theorem downwards_run : (downwards.run firstEntry).outcome (.fresh none ()) =
    (.ok ⟨scalarPoint (-1), finite (-1), finite 1, 1⟩, ⟨some .lenient, 2, 0, ()⟩) := by
  have asked : (downwards.startCost firstEntry (scalarPoint 0)).outcome (.fresh none ()) =
      (.ok (finite 0), ⟨some .lenient, 1, 0, ()⟩) := rfl
  have slope : Family.lenient.dot (scalarPoint 1) (scalarPoint (-1)) = .ok (finite (-1)) := by
    have product : Family.lenient.dot (scalarPoint 1) (scalarPoint (-1)) = .ok (finite (1 * -1)) := rfl
    rw [product, one_mul]
  have descent : finite (-1) < 0 := (Extended.lt_finite _ _).mpr neg_one_lt_zero
  have moved : Family.lenient.scaledAdd (scalarPoint 0) (.real (finite 1)) (scalarPoint (-1)) =
      .ok (scalarPoint (-1)) := by
    have sum := Family.scaledAdd_point (finite 0) (finite (-1)) (finite 1)
    rw [Extended.mul_finite, Extended.add_finite, one_mul, zero_add] at sum
    exact sum
  have answered : (firstEntry.evaluateCost (scalarPoint (-1))).outcome ⟨some .lenient, 1, 0, ()⟩ =
      (.ok (finite (-1)), ⟨some .lenient, 2, 0, ()⟩) := rfl
  have accepted : finite (-1) ≤ finite 0 + finite 0.25 * finite 1 * finite (-1) := by
    rw [Extended.mul_finite, Extended.mul_finite, Extended.add_finite, Extended.le_finite]
    norm_num
  have searched : (downwards.method.search (firstEntry.line .lenient (scalarPoint 0) (scalarPoint (-1)))
      (finite 0) (finite (-1))).outcome ⟨some .lenient, 1, 0, ()⟩ =
      (.ok ⟨finite 1, finite (-1), 1⟩, ⟨some .lenient, 2, 0, ()⟩) := by
    simp only [downwards, Method.search, Backtracking.search, Backtracking.searchFrom, Problem.line,
      Problem.pointAt, moved, ofOperands_of_ok, pure_bind, outcome_bind, answered, Backtracking.accepts,
      accepted, decide_true, if_true, outcome_pure]
  have start : downwards.startGradient firstEntry (scalarPoint 0) = pure (scalarPoint 1) := rfl
  have family : Family.ofTensor (scalarPoint 0) = .ok .lenient := rfl
  have point : downwards.start.point? = some (scalarPoint 0) := rfl
  have direction : downwards.start.direction? = some (scalarPoint (-1)) := rfl
  simp only [LineSearch.run, point, direction, start, family, ofExcept_of_ok, pure_bind, outcome_bind, asked,
    slope, ofOperands_of_ok, descent, if_true, searched, Problem.pointAt, moved, outcome_pure]

/-- For instance, the search downwards from an infinite cost takes a step with a cost below zero, which is
the cost that the problem answers at the start. -/
theorem downwards_lowers :
    ∃ a l', (downwards.run firstEntry).outcome (.fresh none ()) = (.ok a, l') ∧
      ∃ alpha cost, a.alpha = finite alpha ∧ 0 < alpha ∧ a.cost = finite cost ∧ cost < 0 := by
  have permit : (Method.Options.backtracking ⟨1, 0.5, 0.25, 1⟩).PermitTrials := le_refl (1 : ℝ)
  obtain ⟨alpha, cost, start, lowers⟩ :=
    (LineSearch.run_lowers_or_refuses firstEntry_steady downwards_made permit downwards_exact rfl rfl
      (.fresh none ())).1 _ _ downwards_run
  have zero : start = 0 := by
    rcases lowers.start with given | ⟨-, answered⟩
    · exact absurd given nofun
    · have same : (Except.ok (finite 0) : Except Raised Extended) = .ok (finite start) := answered ()
      exact (Extended.finite.inj (Except.ok.inj same)).symm
  exact ⟨_, _, downwards_run, alpha, cost, lowers.alpha_eq, lowers.ahead, lowers.cost_eq,
    zero ▸ lowers.lower nofun⟩

end QuasiNewton
