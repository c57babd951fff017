import QuasiNewton.Proofs.Binary64.Counts
import QuasiNewton.Proofs.LineSearch.Budget
import QuasiNewton.Proofs.LineSearch.Contract
import QuasiNewton.Proofs.Objective.Counting

/-!
# Settings that are accepted

The settings of a search are checked as they are asked for, and the limits among them lose their fraction afterwards.
What is made of settings that pass the checks has its step length, its fractions and its tolerance in their ranges, and
every limit is positive as it is asked for. As it is kept, it is at least one exactly if it was at least one before
(`made_search_is_backed`): a limit between zero and one passes and permits nothing. Then backtracking and the search
for the strong Wolfe conditions fail whenever they are run, while the secant method hands out its first step length
without having asked for a slope (`fractional_limit_untested`).
-/

set_option autoImplicit false

namespace QuasiNewton

open Attempt

variable {α σ : Type} [Scalar α]

namespace Method

/-- The first step length, the fractions and the tolerance of a method are in their ranges. -/
def InRange : Method α → Prop
  | backtracking s => 0 < s.firstStep ∧ (0 < s.shrink ∧ s.shrink < 1) ∧ 0 < s.decrease ∧ s.decrease < 1
  | wolfe s => 0 < s.firstStep ∧ 0 < s.decrease ∧ s.decrease < s.curvature ∧ s.curvature < 1
  | secant s => 0 < s.firstStep ∧ 0 < s.tolerance

/-- How many trials of each sort a method may make. -/
def limits : Method α → List ℕ
  | backtracking s => [s.trials]
  | wolfe s => [s.trials, s.halvings]
  | secant s => [s.trials]

namespace Options

/-- The limits as they are asked for. -/
def limits : Options α → List α
  | backtracking o => [o.trials]
  | wolfe o => [o.trials, o.halvings]
  | secant o => [o.trials]

/-- The settings that need only be positive. -/
def lengths : Options α → List α
  | backtracking o => [o.firstStep]
  | wolfe o => [o.firstStep]
  | secant o => [o.firstStep, o.tolerance]

/-- What is made of settings, in every number system. -/
theorem make_settings {o : Options α} {m : Method α} (made : o.make = .ok m) :
    (∀ x ∈ o.lengths, ¬ x ≤ 0) ∧ ((∀ x ∈ o.lengths, 0 < x) → m.InRange) ∧
      List.Forall₂ (fun asked kept => ¬ asked ≤ 0 ∧ (countOf asked : Except (Fault α) ℕ) = .ok kept)
        o.limits m.limits := by
  cases o with
  | backtracking o =>
    simp only [make, except_bind_ok, Backtracking.ofOptions, require_ok] at made
    obtain ⟨s, ⟨_, decrease, _, shrink, _, firstStep, _, trials, n, count, kept⟩, same⟩ := made
    obtain rfl := Except.ok.inj kept
    obtain rfl := Except.ok.inj same
    refine ⟨by simpa [lengths] using firstStep, fun positive => ?_, ?_⟩
    · exact ⟨positive _ (List.mem_singleton_self _), of_decide_eq_true shrink, of_decide_eq_true decrease⟩
    · exact .cons ⟨by simpa using trials, count⟩ .nil
  | wolfe o =>
    simp only [make, except_bind_ok, Wolfe.ofOptions, require_ok] at made
    obtain ⟨s, ⟨_, constants, _, firstStep, _, limits, n, count, k, count', kept⟩, same⟩ := made
    obtain rfl := Except.ok.inj kept
    obtain rfl := Except.ok.inj same
    have checked : ¬ o.trials ≤ 0 ∧ ¬ o.halvings ≤ 0 := by simpa using limits
    refine ⟨by simpa [lengths] using firstStep, fun positive => ?_, ?_⟩
    · exact ⟨positive _ (List.mem_singleton_self _), of_decide_eq_true constants⟩
    · exact .cons ⟨checked.1, count⟩ (.cons ⟨checked.2, count'⟩ .nil)
  | secant o =>
    simp only [make, except_bind_ok, Secant.ofOptions, require_ok] at made
    obtain ⟨s, ⟨_, firstStep, _, tolerance, _, trials, n, count, kept⟩, same⟩ := made
    obtain rfl := Except.ok.inj kept
    obtain rfl := Except.ok.inj same
    have checked : ¬ o.firstStep ≤ 0 ∧ ¬ o.tolerance ≤ 0 := ⟨by simpa using firstStep, by simpa using tolerance⟩
    refine ⟨by simpa [lengths] using checked, fun positive => ?_, ?_⟩
    · exact ⟨positive _ List.mem_cons_self, positive _ (List.mem_cons_of_mem _ (List.mem_singleton_self _))⟩
    · exact .cons ⟨by simpa using trials, count⟩ .nil

end Options

end Method

/-! ### Counted answers -/

namespace Line

/-- The line that also counts its answers: of costs, and of slopes. -/
def counted (line : Line α σ) : Line α (σ × Invocations) where
  cost alpha := do
    let cost ← onPart Prod.fst (fun state s => (state, s.2)) (line.cost alpha)
    modify fun s => (s.1, s.2.noteCost)
    return cost
  slope alpha := do
    let slope ← onPart Prod.fst (fun state s => (state, s.2)) (line.slope alpha)
    modify fun s => (s.1, s.2.noteGradient)
    return slope

omit [Scalar α] in
/-- A line answers the same whether its answers are counted or not. -/
theorem counted_simulates (line : Line α σ) : line.counted.Simulates (fun s state => s.1 = state) line where
  cost alpha := by
    have noted := (line.cost alpha).noting_simulates fun _ => Invocations.noteCost
    exact noted
  slope alpha := by
    have noted := (line.slope alpha).noting_simulates fun _ => Invocations.noteGradient
    exact noted

omit [Scalar α] in
theorem counted_metered (line : Line α σ) :
    line.counted.Metered (fun s => s.2.cost) (fun s => s.2.gradient) fun _ => True where
  cost alpha s := by
    simp only [counted, ensures_bind, ensures_onPart, ensures_modify, ensures_pure]
    exact (ensures_outcome (line.cost alpha) s.1).mono (fun _ _ _ => ⟨rfl, rfl, trivial⟩) fun _ _ _ => trivial
  slope alpha s := by
    simp only [counted, ensures_bind, ensures_onPart, ensures_modify, ensures_pure]
    exact (ensures_outcome (line.slope alpha) s.1).mono (fun _ _ _ => ⟨rfl, rfl⟩) fun _ _ _ => trivial

end Line

/-! ### Results -/

/-- A result is backed by its trials: it is that of the method along a falling ray from the start, and the method
reports what it has been answered. -/
def LineSearch.Backed (s : LineSearch α) (p : Problem α σ) (a : Accepted α) (after : Ledger σ) : Prop :=
  ∃ x d family cost slope before made, s.start.point? = some x ∧ s.start.direction? = some d ∧
    Family.ofTensor x = .ok family ∧ slope < 0 ∧
    (s.method.search (p.line family x d).counted cost slope).outcome (before, .zero) =
      (.ok ⟨a.alpha, a.cost, a.trials⟩, (after, made)) ∧
    s.method.Spends a.trials made.cost made.gradient

/-- Where nothing is less than itself, every result is backed by its trials. -/
theorem LineSearch.run_backed (irrefl : ¬ (0 : α) < 0) {s : LineSearch α} {p : Problem α σ} {a : Accepted α}
    {l after : Ledger σ} (h : (s.run p).outcome l = (.ok a, after)) : s.Backed p a after := by
  rcases point : s.start.point? with _ | x
  · simp only [run, point] at h
    exact absurd h throw_ok
  rcases direction : s.start.direction? with _ | d
  · simp only [run, point, direction] at h
    exact absurd h throw_ok
  obtain ⟨family, _, _, cost, before, slope, found, -, -, -, fall, searched, -⟩ := run_parts point direction h
  have same := (Method.search_simulates (p.line family x d).counted_simulates s.method cost slope).outcome_eq
    (before, .zero)
  rw [searched] at same
  rcases counted : (s.method.search (p.line family x d).counted cost slope).outcome (before, .zero) with
    ⟨result, after', made⟩
  rw [counted] at same
  obtain ⟨rfl, rfl⟩ := Prod.mk.inj same
  obtain ⟨-, costs, slopes, spent, spent', spends⟩ :=
    (Method.search_spends s.method irrefl (p.line family x d).counted_metered trivial).of_ok counted
  have costs_eq : made.cost = costs := spent.trans (Nat.zero_add costs)
  have slopes_eq : made.gradient = slopes := spent'.trans (Nat.zero_add slopes)
  refine ⟨x, d, family, cost, slope, before, made, point, direction, found, fall, counted, ?_⟩
  rw [costs_eq, slopes_eq]
  exact spends

omit [Scalar α] in
/-- A method that may make a trial of each sort has made one. -/
theorem Method.Spends.one_le {m : Method α} {trials costs slopes : ℕ} (h : m.Spends trials costs slopes)
    (may : ∀ n ∈ m.limits, 1 ≤ n) : 1 ≤ trials := by
  cases m with
  | backtracking s => exact h.2.2.1
  | wolfe s => exact h.2.2.1
  | secant s => exact h.2.2.1 (may s.trials (List.mem_singleton_self _))

open Binary64 in
/-- **What is made of accepted settings, and what its results are backed by.** In double precision, a method made of
settings among which no length is undefined has them in their ranges. Every limit that is accepted is positive, and the
limit that is kept is at least one exactly if the limit asked for is at least one. Every result of the method, from any
start and on any problem, is backed by as many answers as it reports trials; where all limits that are kept are at
least one, it reports one or more. -/
theorem made_search_is_backed {o : Method.Options Float} {m : Method Float} (made : o.make = .ok m) :
    ((∀ x ∈ o.lengths, x.isNaN = false) → m.InRange) ∧
    List.Forall₂ (fun asked kept => 0 < asked ∧ (1 ≤ kept ↔ 1 ≤ asked)) o.limits m.limits ∧
    ∀ {σ : Type} (p : Problem Float σ) (start : Start Float) (l after : Ledger σ) (a : Accepted Float),
      ((LineSearch.mk m start).run p).outcome l = (.ok a, after) →
        (LineSearch.mk m start).Backed p a after ∧ ((∀ n ∈ m.limits, 1 ≤ n) → 1 ≤ a.trials) := by
  obtain ⟨checked, ranges, limits⟩ := Method.Options.make_settings made
  refine ⟨fun defined => ranges fun x mem => ?_, limits.imp fun asked kept count => ?_,
    fun p start l after a run => ?_⟩
  · by_contra other
    exact checked x mem ((le_iff_not_lt rfl (defined x mem)).mpr other)
  · have positive : 0 < asked := pos_of_countOf count.1 count.2
    exact ⟨positive, one_le_countOf_iff positive count.2⟩
  · have irrefl : ¬ (0 : Float) < 0 := by decide +kernel
    have backed := LineSearch.run_backed irrefl run
    refine ⟨backed, fun may => ?_⟩
    obtain ⟨_, _, _, _, _, _, made, -, -, -, -, -, spends⟩ := backed
    exact spends.one_le may

/-- The secant method with a limit of three halves is kept with a limit of one. -/
theorem secant_of_three_halves :
    (Method.Options.secant (⟨1, 1e-10, 1.5⟩ : SecantOptions Float)).make = .ok (.secant ⟨1, 1e-10, 1⟩) ∧
      (Method.secant (⟨1, 1e-10, 1⟩ : Secant Float)).InRange ∧ ((1 : ℕ) ≤ 1 ↔ (1 : Float) ≤ 1.5) := by
  have made : (Method.Options.secant (⟨1, 1e-10, 1.5⟩ : SecantOptions Float)).make =
      .ok (.secant ⟨1, 1e-10, 1⟩) := by
    decide +kernel
  obtain ⟨ranges, limits, -⟩ := made_search_is_backed made
  have defined : ∀ x ∈ (Method.Options.secant (⟨1, 1e-10, 1.5⟩ : SecantOptions Float)).lengths,
      x.isNaN = false := by
    decide +kernel
  cases limits with
  | cons kept _ => exact ⟨made, ranges defined, kept.2⟩

/-- The secant method with a limit of one half. -/
def halfTrial : SecantOptions Float := ⟨1, 1e-10, 0.5⟩

/-- The sum of the squares of two entries, with its minimum at the origin. -/
def sumOfTwoSquares : Quadratic Float 2 where
  matrix := #v[2, 0, 0, 2]
  linear := #v[0, 0]
  constant := 0

/-- A start from which the secant method goes down to the origin and beyond. -/
def downhill : Start Float where
  point? := some (.lenient (.vector #v[1, -2]))
  gradient? := some (.lenient (.vector #v[2, -4]))
  cost? := some 5
  direction? := some (.lenient (.vector #v[-2, 4]))

/-- The limit of one half is accepted, nothing is left of it, and the search hands out its first step length without
having made a trial. -/
theorem fractional_limit_untested :
    ∃ m : Method Float, (Method.Options.secant halfTrial).make = .ok m ∧ m.limits = [0] ∧
      ∃ a after, ((LineSearch.mk m downhill).run (sumOfTwoSquares.problem (σ := Unit))).outcome (.fresh none ()) =
        (.ok a, after) ∧ a.trials = 0 ∧ a.alpha = 1 ∧ after.gradientCalls = 0 := by
  refine ⟨.secant ⟨1, 1e-10, 0⟩, by decide +kernel, rfl, ?_⟩
  have ran : (((LineSearch.mk (.secant ⟨1, 1e-10, 0⟩) downhill).run
      (sumOfTwoSquares.problem (σ := Unit))).outcome (.fresh none ())).1.toOption.map
        (fun a => (a.trials, a.alpha)) = some (0, 1) := by
    decide +kernel
  have counted : (((LineSearch.mk (.secant ⟨1, 1e-10, 0⟩) downhill).run
      (sumOfTwoSquares.problem (σ := Unit))).outcome (.fresh none ())).2.gradientCalls = 0 := by
    decide +kernel
  rcases run : ((LineSearch.mk (.secant ⟨1, 1e-10, 0⟩) downhill).run
      (sumOfTwoSquares.problem (σ := Unit))).outcome (.fresh none ()) with ⟨e | a, after⟩
  · rw [run] at ran
    cases ran
  · rw [run] at ran counted
    obtain ⟨trials, alpha⟩ := Prod.mk.inj (Option.some.inj ran)
    exact ⟨a, after, rfl, trials, alpha, counted⟩

end QuasiNewton
