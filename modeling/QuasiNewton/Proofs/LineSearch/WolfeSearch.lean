import QuasiNewton.Proofs.LineSearch.BestTrial
import QuasiNewton.Proofs.LineSearch.Start
import QuasiNewton.Proofs.Objective.Analytic

/-!
# What a Wolfe search returns

On a line whose costs and slopes can be computed at all step lengths ahead of the start, a search for
the strong Wolfe conditions fails exactly if none of its trials is acceptable, and takes the best of its
trials otherwise (`run_takes_best_trial`). Where a line answers the values of two functions, its trials are those of
the functions themselves (`pursue_of_functions`), so that a search can be followed from trial to trial.
-/

set_option autoImplicit false

namespace QuasiNewton

open Attempt Matrix Tensor

variable {σ : Type}

/-- A line whose costs and slopes ahead of the start, where they can be evaluated, are the values of `φ`
and of `ψ`. -/
def Line.Computes (line : Line ℝ σ) (I : σ → Prop) (φ ψ : ℝ → ℝ) : Prop :=
  line.Answers I (fun alpha cost => cost = φ alpha) (fun alpha slope => slope = ψ alpha) fun _ => True

theorem Line.Answers.computes {line : Line ℝ σ} {I : σ → Prop} {φ ψ : ℝ → ℝ} {E : Fault ℝ → Prop}
    (h : line.Answers I (fun alpha cost => cost = φ alpha) (fun alpha slope => slope = ψ alpha) E) :
    line.Computes I φ ψ where
  cost alpha positive s hs :=
    (h.cost alpha positive s hs).mono (fun _ _ answer => answer) fun _ _ ⟨_, kept⟩ => ⟨trivial, kept⟩
  slope alpha positive s hs :=
    (h.slope alpha positive s hs).mono (fun _ _ answer => answer) fun _ _ ⟨_, kept⟩ => ⟨trivial, kept⟩

/-- Where a cost along a ray has been evaluated, there is a point on the ray. -/
theorem Line.Computes.with_points {p : Problem ℝ σ} {family : Family} {x d : Tensor ℝ}
    {I : Ledger σ → Prop} {φ ψ : ℝ → ℝ} (h : (p.line family x d).Computes I φ ψ) :
    (p.line family x d).Answers I
      (fun alpha cost => cost = φ alpha ∧ ∃ point, family.scaledAdd x (.real alpha) d = .ok point)
      (fun alpha slope => slope = ψ alpha) fun _ => True where
  cost alpha positive l hl := by
    have answer := h.cost alpha positive l hl
    simp only [Problem.line, Problem.pointAt, ensures_bind] at answer ⊢
    rcases found : family.scaledAdd x (.real alpha) d with cause | point
    · rw [found] at answer
      exact answer
    · rw [found, ofOperands_of_ok, ensures_pure] at answer
      rw [ofOperands_of_ok, ensures_pure]
      exact answer.mono (fun _ _ kept => ⟨⟨kept.1, point, rfl⟩, kept.2⟩) fun _ _ failed => failed
  slope := h.slope

/-- The line of two functions, which has no state. -/
def Line.ofFunctions (φ ψ : ℝ → ℝ) : Line ℝ Unit := ⟨fun alpha => pure (φ alpha), fun alpha => pure (ψ alpha)⟩

/-- An attempt that always succeeds with one value is as good as the value. -/
theorem Attempt.simulates_pure {β : Type} {a : Attempt ℝ σ β} {x : β} {I : σ → Prop}
    (h : ∀ s, I s → a.Ensures s (fun y t => y = x ∧ I t) fun _ _ => False) :
    a.Simulates (fun s (_ : Unit) => I s) Eq (pure x) := by
  intro s _ hs
  obtain ⟨y, t, run, rfl, kept⟩ := (h s hs).exists_ok
  rw [run]
  exact ⟨kept, rfl⟩

/-- Along a ray a problem answers like the line of its functions on the ray. -/
theorem Problem.Computes.line_simulates {n : ℕ} {p : Problem ℝ σ} {family : Family} {f : (Fin n → ℝ) → ℝ}
    {g : (Fin n → ℝ) → Fin n → ℝ} (h : p.Computes family f g) (x d : Fin n → ℝ) :
    (p.line family (ofVector family x) (ofVector family d)).Simulates (fun l _ => l.Fits family)
      (.ofFunctions (fun alpha => f (x + alpha • d)) fun alpha => g (x + alpha • d) ⬝ᵥ d) where
  cost alpha := simulates_pure fun _ fits => h.line_cost_ensures fits x d alpha
  slope alpha := simulates_pure fun _ fits => h.line_slope_ensures fits x d alpha

namespace Wolfe

variable {s : Wolfe ℝ} {o : Origin ℝ} {line : Line ℝ σ} {I : σ → Prop} {Φ Ψ : ℝ → ℝ → Prop}

theorem pursue_recorded (h : line.Answers I Φ Ψ fun _ => True) (hs : s.Admissible)
    (descent : o.slope < 0) {state : σ} (hI : I state)
    (evaluated : ∀ fault, ((s.pursue line o).outcome state).1 ≠ .error fault) :
    ∃ ending trials after,
      (s.pursue line.recorded o).outcome (state, []) = (.ok (ending, trials.length), (after, trials)) ∧
      Line.Recorded I Φ (after, trials) ∧ trials.length ≤ s.trials + s.halvings ∧
      ending.Concludes s o Ψ trials := by
  have ensures := pursue_ensures h hs descent hI
  have plain := (s.pursue_simulates o line.recorded_simulates).outcome_eq (state, [])
  rcases run : (s.pursue line.recorded o).outcome (state, []) with ⟨fault | ⟨ending, count⟩, after, trials⟩
  · rw [run] at plain
    exact absurd (congrArg Prod.fst plain) (evaluated fault)
  · obtain ⟨recorded, rfl, bound, concludes⟩ := ensures.of_ok run
    exact ⟨ending, trials, after, rfl, recorded, bound, concludes⟩

/-- The trials of a recorded search are those of the search itself, which ends the same way. -/
theorem outcome_pursue {state after : σ} {trials : List (Trial ℝ)} {r : Ending ℝ × ℕ}
    (h : (s.pursue line.recorded o).outcome (state, []) = (.ok r, (after, trials))) :
    (s.pursue line o).outcome state = (.ok r, after) := by
  rw [(s.pursue_simulates o line.recorded_simulates).outcome_eq (state, []), h]

/-- A search along a line that answers the values of two functions makes the trials of the line of the functions. -/
theorem pursue_of_functions {φ ψ : ℝ → ℝ} (lines : line.Simulates (fun state _ => I state) (.ofFunctions φ ψ))
    {state : σ} (hI : I state) {r : Ending ℝ × ℕ} {trials : List (Trial ℝ)}
    (computed : (s.pursue (Line.ofFunctions φ ψ).recorded o).outcome ((), []) = (.ok r, ((), trials))) :
    ∃ after, (s.pursue line.recorded o).outcome (state, []) = (.ok r, (after, trials)) := by
  have pursued := s.pursue_simulates o lines.recorded
  have answers := pursued.answer_eq (s := (state, [])) (t := ((), [])) ⟨hI, rfl⟩
  have same := (pursued (state, []) ((), []) ⟨hI, rfl⟩).1.2
  rw [computed] at answers same
  exact ⟨_, Prod.ext answers (Prod.ext rfl same)⟩

/-- **A Wolfe search returns its best acceptable trial, and fails only where there is none.** The list
`trials` holds the step lengths at which the cost was asked for, in order, with the costs found. A
search that does not end by giving up, neither with the last doubling nor with the end `low` of its
interval, ends at a slope of the permitted size. -/
theorem run_takes_best_trial (p : Problem ℝ σ) (s : Wolfe ℝ) (hs : s.Admissible) (family : Family)
    (x g d : Tensor ℝ) (startCost startSlope : ℝ) (hfamily : Family.ofTensor x = .ok family)
    (hslope : family.dot g d = .ok startSlope) (descent : startSlope < 0) (φ ψ : ℝ → ℝ)
    (I : Ledger σ → Prop) (computes : (p.line family x d).Computes I φ ψ) (ledger : Ledger σ)
    (hI : I ledger)
    (evaluated : ∀ fault,
      ((s.pursue (p.line family x d) ⟨startCost, startSlope⟩).outcome ledger).1 ≠ .error fault) :
    let o : Origin ℝ := ⟨startCost, startSlope⟩
    let search : LineSearch ℝ := ⟨.wolfe s, ⟨some x, some g, some startCost, some d⟩⟩
    ∃ ending trials after,
      (s.pursue (p.line family x d).recorded o).outcome (ledger, []) =
        (.ok (ending, trials.length), (after, trials)) ∧
      ((search.run p).outcome ledger).2 = after ∧
      (∀ t ∈ trials, 0 < t.alpha ∧ t.cost = φ t.alpha) ∧
      trials.length ≤ s.trials + s.halvings ∧
      ((∃ cause, ((search.run p).outcome ledger).1 = .error (.search cause)) ↔
        ∀ t ∈ trials, ¬ t.cost ≤ startCost + s.decrease * t.alpha * startSlope) ∧
      ((∃ t ∈ trials, t.cost ≤ startCost + s.decrease * t.alpha * startSlope) →
        ∃ found : Accepted ℝ, ((search.run p).outcome ledger).1 = .ok found ∧
          0 < found.alpha ∧ ⟨found.alpha, found.cost⟩ ∈ trials ∧ found.cost = φ found.alpha ∧
          family.scaledAdd x (.real found.alpha) d = .ok found.point ∧
          found.cost ≤ startCost + s.decrease * found.alpha * startSlope ∧
          (∀ t ∈ trials, t.cost ≤ startCost + s.decrease * t.alpha * startSlope →
            found.cost ≤ t.cost) ∧
          found.trials = trials.length ∧
          ((∀ alpha cost, ending ≠ .exhausted alpha cost) → (∀ i, ending ≠ .narrowed i) →
            |ψ found.alpha| ≤ s.curvature * |startSlope|)) := by
  intro o search
  obtain ⟨ending, trials, after, run, recorded, bound, concludes⟩ :=
    pursue_recorded computes.with_points hs (o := o) descent hI evaluated
  have plain := outcome_pursue run
  have whole : (search.run p).outcome ledger = ((do
      let step ← Attempt.ofExcept ((ending.step s trials.length).mapError .search)
      return ⟨← Problem.pointAt family x d step.alpha, step.cost, step.alpha, step.trials⟩ :
        Evaluation ℝ σ (Accepted ℝ))).outcome after := by
    rw [LineSearch.run_of_descent (.wolfe s) hfamily hslope descent]
    simp only [Method.search, Wolfe.search, bind_assoc]
    rw [outcome_bind, plain]
  have answered (t : Trial ℝ) (ht : t ∈ trials) : 0 < t.alpha ∧ t.cost = φ t.alpha :=
    ⟨recorded.positive t ht, (recorded.answered t ht).1⟩
  refine ⟨ending, trials, after, run, ?_⟩
  rcases Ending.Concludes.step_cases concludes trials.length with
    ⟨⟨cause, failed⟩, none⟩ | ⟨t, best, taken, flat⟩
  · have fails : (search.run p).outcome ledger = (.error (.search cause), after) := by
      rw [whole, failed]
      rfl
    exact ⟨by rw [fails], answered, bound, iff_of_true ⟨cause, by rw [fails]⟩ none,
      fun ⟨t, ht, acceptable⟩ => absurd acceptable (none t ht)⟩
  · obtain ⟨-, point, hpoint⟩ := recorded.answered t best.mem
    have succeeds : (search.run p).outcome ledger =
        (.ok ⟨point, t.cost, t.alpha, trials.length⟩, after) := by
      rw [whole, taken]
      simp [mapError_of_ok, ofExcept_of_ok, Problem.pointAt, hpoint, ofOperands_of_ok]
    refine ⟨by rw [succeeds], answered, bound,
      iff_of_false (by simp [succeeds]) fun none => none t best.mem best.acceptable, fun _ =>
      ⟨⟨point, t.cost, t.alpha, trials.length⟩, by rw [succeeds], best.positive, best.mem,
        (answered t best.mem).2, hpoint, best.acceptable, best.least, rfl,
        fun doubled narrowed => ?_⟩⟩
    obtain ⟨_, rfl, small⟩ := flat doubled narrowed
    simpa [abs_of_neg descent] using small

/-- The search with the usual settings. -/
noncomputable def usual : Wolfe ℝ := ⟨1, 1e-4, 0.9, 40, 32⟩

/-- A search that leaves little of the slope, with at most two trials before it halves an interval. -/
noncomputable def careful (halvings : ℕ) : Wolfe ℝ := ⟨14, 1e-4, 0.04, 2, halvings⟩

theorem careful_admissible {halvings : ℕ} (permitted : 0 < halvings) : (careful halvings).Admissible := by
  constructor <;> norm_num [careful, permitted]

/-- The trials of the search along half the square of the distance to `20`: after two halvings it is left with an
interval, and the third one finds a flat midpoint. -/
theorem careful_course :
    let line := (Line.ofFunctions (fun a => (20 - a) ^ 2 / 2) fun a => a - 20).recorded
    ((careful 2).pursue line ⟨200, -20⟩).outcome ((), []) =
      (.ok (.narrowed ⟨21, 35 / 2, 1 / 2⟩, 4), ((), [⟨14, 18⟩, ⟨28, 32⟩, ⟨21, 1 / 2⟩, ⟨35 / 2, 25 / 8⟩])) ∧
    ((careful 3).pursue line ⟨200, -20⟩).outcome ((), []) =
      (.ok (.flat (77 / 4) (9 / 32), 5),
        ((), [⟨14, 18⟩, ⟨28, 32⟩, ⟨21, 1 / 2⟩, ⟨35 / 2, 25 / 8⟩, ⟨77 / 4, 9 / 32⟩])) := by
  constructor <;>
    norm_num [pursue, bracket, zoom, halve, Line.recorded, Line.ofFunctions, tooHigh, flat, careful,
      Interval.middle, Interval.short, Interval.cut, Interval.move, outcome_bind, -bind_pure_comp, -map_pure]

/-- For instance, on half the square of the length such a search from `(20, 0)` doubles its step length once and then
halves the interval. If it may halve it twice it takes its third trial, which is better than the fourth one, and if it
may go on it takes the fifth one, which is flat. -/
theorem careful_takes_best_trial :
    let answer (halvings : ℕ) := ((LineSearch.run ⟨.wolfe (careful halvings), ⟨some (ofVector .lenient ![20, 0]),
      some (ofVector .lenient ![20, 0]), some 200, some (ofVector .lenient ![-1, 0])⟩⟩
      Quadratic.halfSquare.problem).outcome (.fresh (some .lenient) ())).1
    (∃ found, answer 2 = .ok found ∧ found.alpha = 21 ∧ found.cost = 1 / 2 ∧ found.trials = 4) ∧
      ∃ found, answer 3 = .ok found ∧ found.alpha = 77 / 4 ∧ found.cost = 9 / 32 ∧ found.trials = 5 := by
  intro answer
  let x : Fin 2 → ℝ := ![20, 0]
  let d : Fin 2 → ℝ := ![-1, 0]
  have startCost : Quadratic.value 1 0 0 x = 200 := by
    norm_num [Quadratic.value, x, dotProduct, Fin.sum_univ_two]
  have startSlope : ((1 : Matrix (Fin 2) (Fin 2) ℝ) *ᵥ x - 0) ⬝ᵥ d = -20 := by
    norm_num [x, d, dotProduct, Fin.sum_univ_two]
  have curvature : d ⬝ᵥ (1 : Matrix (Fin 2) (Fin 2) ℝ) *ᵥ d = 1 := by
    norm_num [d, dotProduct, Fin.sum_univ_two]
  have costs : (fun alpha : ℝ => Quadratic.value 1 0 0 (x + alpha • d)) = fun alpha => (20 - alpha) ^ 2 / 2 := by
    funext alpha
    rw [Quadratic.value_ray 1 0 0 isSymm_one, startCost, startSlope, curvature]
    ring
  have slopes : (fun alpha : ℝ => ((1 : Matrix (Fin 2) (Fin 2) ℝ) *ᵥ (x + alpha • d) - 0) ⬝ᵥ d) =
      fun alpha => alpha - 20 := by
    funext alpha
    rw [Quadratic.slope_ray, startSlope, curvature]
    ring
  have lines := (Quadratic.halfSquare_computes (σ := Unit) .lenient).line_simulates x d
  have computes := ((Quadratic.halfSquare_computes (σ := Unit) .lenient).line_answers x d).computes
  rw [costs, slopes] at lines computes
  have slope : Family.lenient.dot (ofVector .lenient x) (ofVector .lenient d) = .ok (-20 : ℝ) := by
    rw [Family.dot_ofVector]
    norm_num [x, d, dotProduct, Fin.sum_univ_two]
  have fits : (Ledger.fresh (some .lenient) ()).Fits .lenient := Ledger.fits_of_eq rfl
  have best {halvings : ℕ} (permitted : 0 < halvings) {r : Ending ℝ × ℕ} {trials : List (Trial ℝ)}
      (computed : ((careful halvings).pursue
        (Line.ofFunctions (fun a => (20 - a) ^ 2 / 2) fun a => a - 20).recorded ⟨200, -20⟩).outcome ((), []) =
        (.ok r, ((), trials)))
      {t : Trial ℝ} (mem : t ∈ trials) (acceptable : t.cost ≤ 200 + 1e-4 * t.alpha * -20)
      (least : ∀ u ∈ trials, u ≠ t → t.cost < u.cost) :
      ∃ found, answer halvings = .ok found ∧ found.alpha = t.alpha ∧ found.cost = t.cost ∧
        found.trials = trials.length := by
    obtain ⟨after, run⟩ := pursue_of_functions lines fits computed
    have plain := outcome_pursue run
    obtain ⟨ending, trials', after', run', -, -, -, -, taken⟩ :=
      run_takes_best_trial Quadratic.halfSquare.problem (careful halvings) (careful_admissible permitted) .lenient
        (ofVector .lenient x) (ofVector .lenient x) (ofVector .lenient d) 200 (-20) rfl slope (by norm_num) _ _ _
        computes (.fresh (some .lenient) ()) fits fun fault failed => by
          rw [plain] at failed
          cases failed
    obtain rfl : trials = trials' := congrArg (fun result => result.2.2) (run.symm.trans run')
    obtain ⟨found, succeeds, -, mem', -, -, -, best, count, -⟩ := taken ⟨t, mem, acceptable⟩
    obtain same : ⟨found.alpha, found.cost⟩ = t := by
      by_contra other
      exact absurd (least _ mem' other) (not_lt.mpr (best t mem acceptable))
    exact ⟨found, succeeds, congrArg Trial.alpha same, congrArg Trial.cost same, count⟩
  obtain ⟨two, three⟩ := careful_course
  constructor
  · exact best two_pos two (t := ⟨21, 1 / 2⟩) (by simp) (by norm_num) (by norm_num)
  · exact best three_pos three (t := ⟨77 / 4, 9 / 32⟩) (by simp) (by norm_num) (by norm_num)

end Wolfe

end QuasiNewton
