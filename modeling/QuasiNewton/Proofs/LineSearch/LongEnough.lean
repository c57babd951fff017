import QuasiNewton.Proofs.LineSearch.FirstAcceptable

/-!
# Steps that are long enough

Where the cost along a ray stays below a parabola with the slope at the start, all short steps are acceptable:
those up to a length that depends on the bend of the parabola, the slope and the demanded decrease
(`Backtracking.Row.safeStep`). So a trial that is rejected was longer than that (`safeStep_lt_of_rejects`), the
trial after it is longer than this length shrunk once, and a row whose last trial is short enough is not exhausted.
-/

set_option autoImplicit false

namespace QuasiNewton

open Attempt
open Extended (finite)

variable {σ : Type}

namespace Backtracking.Row

/-- The costs along the ray of a row are those of a function that stays below a parabola. What is answered may
depend on the step length only, but an evaluation may fail. -/
structure Below (r : Row σ) (φ : ℝ → ℝ) (bend : ℝ) : Prop where
  start : r.startCost = φ 0
  answers : ∀ alpha, 0 < alpha → alpha ≤ r.settings.firstStep → ∀ st c after,
    (r.line.cost (finite alpha)).outcome st = (.ok c, after) → c = finite (φ alpha)
  below : ∀ alpha, 0 < alpha → alpha ≤ r.settings.firstStep →
    φ alpha ≤ φ 0 + alpha * r.startSlope + bend / 2 * alpha ^ 2

/-- Up to this length all steps are acceptable. -/
noncomputable def safeStep (r : Row σ) (bend : ℝ) : ℝ :=
  (2 : ℕ) * (1 - r.settings.decrease) * |r.startSlope| / bend

/-- A length that the step found does not fall below. -/
noncomputable def leastStep (r : Row σ) (bend : ℝ) : ℝ :=
  min r.settings.firstStep (r.settings.shrink * r.safeStep bend)

variable {r : Row σ} {k : ℕ} {bend : ℝ} {φ : ℝ → ℝ}

section Lengths

variable (admissible : r.settings.Admissible)

include admissible

theorem alpha_pos (k : ℕ) : 0 < r.alpha k := mul_pos admissible.firstStep_pos (pow_pos admissible.shrink_pos k)

theorem alpha_le (k : ℕ) : r.alpha k ≤ r.settings.firstStep :=
  mul_le_of_le_one_right admissible.firstStep_pos.le
    (pow_le_one₀ admissible.shrink_pos.le admissible.shrink_lt_one.le)

variable (h : r.Below φ bend)

include h

theorem answer_eq_of_below {cost : ℝ} (answered : r.answer k = .ok (finite cost)) : cost = φ (r.alpha k) := by
  have run := r.outcome_trial k
  rw [answered] at run
  exact Extended.finite.inj
    (h.answers (r.alpha k) (r.alpha_pos admissible k) (r.alpha_le admissible k) _ _ _ run)

variable (positive : 0 < bend) (fall : r.startSlope < 0)

include positive fall

/-- Only a step that is longer than the safe one is rejected. -/
theorem safeStep_lt_of_rejects (rejects : r.Rejects k) : r.safeStep bend < r.alpha k := by
  obtain ⟨cost, answered, high⟩ := rejects
  have ahead := r.alpha_pos admissible k
  have low := h.below (r.alpha k) ahead (r.alpha_le admissible k)
  rw [answer_eq_of_below admissible h answered, bound, h.start] at high
  have missed : r.settings.decrease * r.alpha k * r.startSlope <
      r.alpha k * r.startSlope + bend / 2 * r.alpha k ^ 2 := by linarith
  have steep : 2 * (1 - r.settings.decrease) * |r.startSlope| < bend * r.alpha k := by
    rw [abs_of_neg fall]
    have factored : 0 < r.alpha k * (bend * r.alpha k - 2 * (1 - r.settings.decrease) * -r.startSlope) := by
      linarith
    linarith [(mul_pos_iff_of_pos_left ahead).mp factored]
  rw [safeStep, div_lt_iff₀ positive, mul_comm (r.alpha k)]
  exact steep

/-- A trial that is made is the first one, or one trial after a step that was longer than the safe one. -/
theorem leastStep_le_of_rejects_before (before : ∀ j < k, r.Rejects j) : r.leastStep bend ≤ r.alpha k := by
  cases k with
  | zero =>
    have first : r.alpha 0 = r.settings.firstStep := by rw [alpha, pow_zero, mul_one]
    exact first ▸ min_le_left _ _
  | succ k =>
    have longer := safeStep_lt_of_rejects admissible h positive fall (before k k.lt_succ_self)
    have next : r.alpha (k + 1) = r.settings.shrink * r.alpha k := by
      rw [alpha, alpha, pow_succ]
      ring
    calc r.leastStep bend
        ≤ r.settings.shrink * r.safeStep bend := min_le_right _ _
      _ ≤ r.settings.shrink * r.alpha k := mul_le_mul_of_nonneg_left longer.le admissible.shrink_pos.le
      _ = r.alpha (k + 1) := next.symm

omit positive h in
/-- A cost that is accepted is lower by what a step of at least some length promises. -/
theorem cost_le_of_accepted {cost length : ℝ} (low : cost ≤ r.bound k) (long : length ≤ r.alpha k) :
    cost ≤ r.startCost - r.settings.decrease * |r.startSlope| * length := by
  have gain : r.settings.decrease * |r.startSlope| * length ≤ r.settings.decrease * |r.startSlope| * r.alpha k :=
    mul_le_mul_of_nonneg_left long (mul_nonneg admissible.decrease_pos.le (abs_nonneg _))
  have same : r.settings.decrease * r.alpha k * r.startSlope =
      -(r.settings.decrease * |r.startSlope| * r.alpha k) := by
    rw [abs_of_neg fall]
    ring
  rw [bound, same] at low
  linarith

/-- A row whose last step is not longer than the safe one is not exhausted. -/
theorem not_rejects_of_short (short : r.alpha (r.settings.trials - 1) ≤ r.safeStep bend) :
    ¬ ∀ k < r.settings.trials, r.Rejects k := by
  intro all
  have last := all (r.settings.trials - 1) (Nat.sub_lt admissible.trials_pos Nat.one_pos)
  exact absurd (safeStep_lt_of_rejects admissible h positive fall last) (not_lt.mpr short)

end Lengths

end Backtracking.Row

/-- **Backtracking does not step too short.** Where the cost along the ray stays below a parabola and the last
permitted step is short enough, a run does not fail as a search: it returns unless a trial cannot be evaluated. The
step that it returns is not shorter than the first step or the shrunk safe step, and it lowers the cost by what a
step of this length promises. -/
theorem LineSearch.run_steps_far_enough {r : Backtracking.Row (Ledger σ)} {s : LineSearch Extended}
    {p : Problem Extended σ} {family : Family} {x d : Tensor Extended} {l : Ledger σ} {φ : ℝ → ℝ} {bend : ℝ}
    (h : r.OfRun s p family x d l) (admissible : r.settings.Admissible) (below : r.Below φ bend)
    (positive : 0 < bend)
    (short : r.settings.firstStep * r.settings.shrink ^ (r.settings.trials - 1) ≤
      2 * (1 - r.settings.decrease) * |r.startSlope| / bend) :
    let least := min r.settings.firstStep
      (r.settings.shrink * (2 * (1 - r.settings.decrease) * |r.startSlope| / bend))
    (∀ e after, (s.run p).outcome l = (.error e, after) →
      e.ofEvaluation = true ∧ ∃ k < r.settings.trials, r.answer k = .error e) ∧
    ((∀ k < r.settings.trials, ∃ cost, r.answer k = .ok cost) →
      ∃ a after, (s.run p).outcome l = (.ok a, after)) ∧
    ∀ a after, (s.run p).outcome l = (.ok a, after) →
      ∃ alpha, a.alpha = finite alpha ∧ a.cost = finite (φ alpha) ∧ least ≤ alpha ∧
        φ alpha ≤ φ 0 - r.settings.decrease * |r.startSlope| * least := by
  have ended := h.run_ended
  have open_ := r.not_rejects_of_short admissible below positive h.fall short
  refine ⟨fun e after run => ?_, fun known => ?_, fun a after run => ?_⟩
  · rw [run] at ended
    cases ended with
    | failed within _ answered failed => exact ⟨failed, _, within, answered⟩
    | exhausted all => exact absurd all open_
  · generalize (s.run p).outcome l = o at ended
    cases ended with
    | accepted => exact ⟨_, _, rfl⟩
    | failed within _ answered _ =>
      obtain ⟨cost, other⟩ := known _ within
      exact absurd (answered.symm.trans other) nofun
    | exhausted all => exact absurd all open_
  · rw [run] at ended
    cases ended with
    | @accepted k cost z within before answered low reached =>
      have long := r.leastStep_le_of_rejects_before admissible below positive h.fall before
      have gained := r.cost_le_of_accepted admissible h.fall low long
      obtain rfl := r.answer_eq_of_below admissible below answered
      exact ⟨r.alpha k, rfl, rfl, long, below.start ▸ gained⟩

theorem overshootingRow_admissible : overshootingRow.settings.Admissible := by
  constructor <;> norm_num [overshootingRow]

/-- The costs of this row are those of a parabola. -/
theorem overshootingRow_below : overshootingRow.Below (fun alpha => (0.5 + alpha * -1) * (0.5 + alpha * -1)) 2 where
  start := by norm_num [overshootingRow]
  answers alpha _ _ l c after run := by
    have answered := overshooting_line alpha l
    rw [run] at answered
    exact Except.ok.inj answered
  below alpha _ _ := by
    have slope : overshootingRow.startSlope = -1 := rfl
    rw [slope]
    apply le_of_eq
    ring

/-- For instance, the first step of this search may overshoot, but the step that it returns is at least three
eighths long and lowers the cost by at least a quarter of that. -/
theorem overshooting_steps_far_enough : ∃ a after alpha,
    (overshooting.run squareEntry).outcome (.fresh none ()) = (.ok a, after) ∧ a.alpha = finite alpha ∧
      3 / 8 ≤ alpha ∧ (0.5 + alpha * -1) * (0.5 + alpha * -1) ≤ 0.25 - 0.25 * (3 / 8) := by
  have short : overshootingRow.settings.firstStep *
      overshootingRow.settings.shrink ^ (overshootingRow.settings.trials - 1) ≤
        2 * (1 - overshootingRow.settings.decrease) * |overshootingRow.startSlope| / 2 := by
    norm_num [overshootingRow]
  obtain ⟨-, returns, long⟩ := LineSearch.run_steps_far_enough overshootingRow_ofRun overshootingRow_admissible
    overshootingRow_below (by norm_num) short
  obtain ⟨a, after, run⟩ := returns fun k _ => ⟨_, overshooting_line _ _⟩
  obtain ⟨alpha, length, -, least, gained⟩ := long a after run
  refine ⟨a, after, alpha, run, length, ?_, ?_⟩
  · norm_num [overshootingRow] at least
    linarith
  · norm_num [overshootingRow] at gained
    linarith

end QuasiNewton
