import QuasiNewton.LineSearch.Search
import QuasiNewton.Proofs.Objective.Checked

/-!
# What a search spends

A search asks its line for costs and slopes, and every answer is counted (`Line.Metered`). Backtracking asks for
one cost in each trial and for no slope. The search for the strong Wolfe conditions asks for one cost in each
trial and for at most one slope. The secant method asks for one slope in each trial and for one cost in the end.
So the number of trials that a search reports is what it has spent (`Method.search_spends`), on every path through
its loops. The cost that it hands out is one that the line has answered, or the one it was given.
-/

set_option autoImplicit false

namespace QuasiNewton

open Attempt

variable {α σ : Type} [Scalar α]

/-- A line whose answers are counted, and whose costs have a property. -/
structure Line.Metered (line : Line α σ) (costs slopes : σ → Nat) (P : α → Prop) : Prop where
  cost : ∀ alpha s, (line.cost alpha).Ensures s
    (fun cost t => costs t = costs s + 1 ∧ slopes t = slopes s ∧ P cost) fun _ _ => True
  slope : ∀ alpha s, (line.slope alpha).Ensures s
    (fun _ t => costs t = costs s ∧ slopes t = slopes s + 1) fun _ _ => True

/-- Along a ray a problem with a gradient of its own counts every answer once, and its costs are finite. -/
theorem Problem.line_metered {p : Problem α σ} (analytic : p.gradient?.isSome = true) (family : Family)
    (x d : Tensor α) : (p.line family x d).Metered Ledger.costCalls Ledger.gradientCalls
      fun cost => Scalar.isFinite cost = true where
  cost alpha l := by
    simp only [line, pointAt, ensures_bind]
    rcases family.scaledAdd x (.real alpha) d with cause | z
    · exact trivial
    · exact p.evaluateCost_counts z l
  slope alpha l := by
    simp only [line, pointAt, ensures_bind]
    rcases family.scaledAdd x (.real alpha) d with cause | z
    · exact trivial
    · refine (evaluateGradient_counts analytic z l).mono (fun gradient t counted => ?_) fun _ _ => id
      rcases family.dot gradient d with cause | slope
      · exact trivial
      · exact counted

/-- What a method spends on a number of trials. -/
def Method.Spends (trials costs slopes : Nat) : Method α → Prop
  | backtracking s => costs = trials ∧ slopes = 0 ∧ 1 ≤ trials ∧ trials ≤ s.trials
  | wolfe s => costs = trials ∧ slopes ≤ trials ∧ 1 ≤ trials ∧ trials ≤ s.trials + s.halvings
  | secant s => costs = 1 ∧ slopes = trials ∧ (1 ≤ s.trials → 1 ≤ trials) ∧ trials ≤ s.trials

variable {line : Line α σ} {costs slopes : σ → Nat} {P : α → Prop} {startCost startSlope : α} {st : σ}

theorem Backtracking.searchFrom_spends (h : line.Metered costs slopes P) (s : Backtracking α) {left : Nat}
    (within : left ≤ s.trials) (alpha : α) :
    (s.searchFrom line startCost startSlope left alpha).Ensures st
      (fun step t => P step.cost ∧ ∃ made, 1 ≤ made ∧ made ≤ left ∧ step.trials = s.trials - left + made ∧
        costs t = costs st + made ∧ slopes t = slopes st) fun _ _ => True := by
  induction left generalizing st alpha with
  | zero => exact trivial
  | succ left ih =>
    rw [searchFrom, ensures_bind]
    refine (h.cost alpha st).mono (fun cost t => ?_) fun _ _ _ => trivial
    rintro ⟨priced, level, holds⟩
    split
    case isTrue =>
      refine ⟨holds, 1, Nat.le_refl _, by omega, ?_, priced, level⟩
      dsimp only
      omega
    case isFalse =>
      refine (ih (by omega) (alpha * s.shrink)).mono (fun step u => ?_) fun _ _ => id
      rintro ⟨good, made, some, most, trials, spent, level'⟩
      exact ⟨good, made + 1, by omega, by omega, by omega, by omega, by omega⟩

namespace Wolfe

/-- The cost that halving an interval hands on. -/
def Halved.cost : Halved α → α
  | found _ cost => cost
  | narrowed half => half.lowCost

/-- The cost that an ending hands out. -/
def Ending.cost : Ending α → α
  | flat _ cost => cost
  | exhausted _ cost => cost
  | narrowed i => i.lowCost

theorem halve_spends (h : line.Metered costs slopes P) (s : Wolfe α) (o : Origin α) {i : Interval α}
    (low : P i.lowCost) :
    (s.halve line o i).Ensures st (fun r t => P r.cost ∧ costs t = costs st + 1 ∧
      slopes st ≤ slopes t ∧ slopes t ≤ slopes st + 1) fun _ _ => True := by
  rw [halve, ensures_bind]
  refine (h.cost i.middle st).mono (fun cost t => ?_) fun _ _ _ => trivial
  rintro ⟨priced, level, holds⟩
  split
  case isTrue => exact ⟨low, priced, by omega, by omega⟩
  case isFalse =>
    rw [ensures_bind]
    refine (h.slope i.middle t).mono (fun slope u => ?_) fun _ _ _ => trivial
    rintro ⟨priced', steep⟩
    split
    case isTrue => exact ⟨holds, by omega, by omega, by omega⟩
    case isFalse => exact ⟨holds, by omega, by omega, by omega⟩

theorem zoom_spends (h : line.Metered costs slopes P) (s : Wolfe α) (o : Origin α) (left trials : Nat)
    {i : Interval α} (low : P i.lowCost) :
    (s.zoom line o left trials i).Ensures st (fun r t => P r.1.cost ∧ ∃ made, made ≤ left ∧
      r.2 = trials + made ∧ costs t = costs st + made ∧ slopes st ≤ slopes t ∧
      slopes t ≤ slopes st + made) fun _ _ => True := by
  induction left generalizing st trials i with
  | zero => exact ⟨low, 0, Nat.le_refl _, rfl, rfl, Nat.le_refl _, Nat.le_refl _⟩
  | succ left ih =>
    rw [zoom, ensures_bind]
    refine (halve_spends h s o low).mono (fun r t => ?_) fun _ _ => id
    rintro ⟨holds, priced, least, most⟩
    cases r with
    | found alpha cost => exact ⟨holds, 1, by omega, rfl, priced, least, most⟩
    | narrowed half =>
      dsimp only
      split
      case isTrue => exact ⟨holds, 1, by omega, rfl, priced, least, most⟩
      case isFalse =>
        refine (ih (trials + 1) holds).mono (fun r u => ?_) fun _ _ => id
        rintro ⟨good, made, some, counted, spent, least', most'⟩
        exact ⟨good, made + 1, by omega, by omega, by omega, by omega, by omega⟩

theorem bracket_spends (h : line.Metered costs slopes P) (s : Wolfe α) (o : Origin α) (left trials : Nat)
    {before costBefore alpha : α} (known : P costBefore) :
    (s.bracket line o left trials before costBefore alpha).Ensures st (fun r t => P r.1.cost ∧
      (left = 0 → r.1 = .exhausted before costBefore) ∧ ∃ made, (0 < left → 1 ≤ made) ∧
      made ≤ left + s.halvings ∧ r.2 = trials + made ∧ costs t = costs st + made ∧
      slopes st ≤ slopes t ∧ slopes t ≤ slopes st + made) fun _ _ => True := by
  induction left generalizing st trials before costBefore alpha with
  | zero => exact ⟨known, fun _ => rfl, 0, by omega, by omega, rfl, rfl, Nat.le_refl _, Nat.le_refl _⟩
  | succ left ih =>
    -- the trials inside an interval come on top of the one that has found it
    have inside {t : σ} {i : Interval α} (low : P i.lowCost) (priced : costs t = costs st + 1)
        (least : slopes st ≤ slopes t) (most : slopes t ≤ slopes st + 1) :
        (s.zoom line o s.halvings (trials + 1) i).Ensures t (fun r u => P r.1.cost ∧
          (left + 1 = 0 → r.1 = .exhausted before costBefore) ∧ ∃ made, (0 < left + 1 → 1 ≤ made) ∧
          made ≤ left + 1 + s.halvings ∧ r.2 = trials + made ∧ costs u = costs st + made ∧
          slopes st ≤ slopes u ∧ slopes u ≤ slopes st + made) fun _ _ => True := by
      refine (zoom_spends h s o s.halvings (trials + 1) low).mono (fun r u => ?_) fun _ _ => id
      rintro ⟨good, made, some, counted, spent, least', most'⟩
      exact ⟨good, by omega, made + 1, by omega, by omega, by omega, by omega, by omega, by omega⟩
    rw [bracket, ensures_bind]
    refine (h.cost alpha st).mono (fun cost t => ?_) fun _ _ _ => trivial
    rintro ⟨priced, level, holds⟩
    split
    case isTrue => exact inside known priced (by omega) (by omega)
    case isFalse =>
      rw [ensures_bind]
      refine (h.slope alpha t).mono (fun slope u => ?_) fun _ _ _ => trivial
      rintro ⟨priced', steep⟩
      split
      case isTrue =>
        exact ⟨holds, by omega, 1, by omega, by omega, rfl, by omega, by omega, by omega⟩
      case isFalse =>
        split
        case isTrue => exact inside holds (by omega) (by omega) (by omega)
        case isFalse =>
          refine (ih (trials + 1) holds).mono (fun r w => ?_) fun _ _ => id
          rintro ⟨good, -, made, -, most, counted, spent, least', most'⟩
          exact ⟨good, by omega, made + 1, by omega, by omega, by omega, by omega, by omega, by omega⟩

/-- An ending leads to a step with the number of trials, and with the cost of the ending. -/
theorem Ending.step_ok {s : Wolfe α} {trials : Nat} {e : Ending α} {step : Step α}
    (h : e.step s trials = .ok step) :
    step.trials = trials ∧ step.cost = e.cost ∧ ∀ alpha cost, e = .exhausted alpha cost → 0 < alpha := by
  cases e with
  | flat alpha cost =>
    obtain rfl := Except.ok.inj h
    exact ⟨rfl, rfl, nofun⟩
  | exhausted alpha cost =>
    rw [Ending.step] at h
    split at h
    case isTrue ahead =>
      obtain rfl := Except.ok.inj h
      refine ⟨rfl, rfl, ?_⟩
      rintro _ _ ⟨⟩
      exact ahead
    case isFalse => cases h
  | narrowed i =>
    rw [Ending.step] at h
    split at h
    case isTrue =>
      obtain rfl := Except.ok.inj h
      exact ⟨rfl, rfl, nofun⟩
    case isFalse => cases h

end Wolfe

theorem Secant.locate_spends (h : line.Metered costs slopes P) (s : Secant α) (left : Nat)
    (before slopeBefore alpha : α) :
    (s.locate line startSlope left before slopeBefore alpha).Ensures st (fun r t => r.2 ≤ left ∧
      (1 ≤ left → r.2 < left) ∧ costs t = costs st ∧ slopes t = slopes st + (left - r.2))
      fun _ _ => True := by
  induction left generalizing st before slopeBefore alpha with
  | zero => exact ⟨Nat.le_refl _, by omega, rfl, rfl⟩
  | succ left ih =>
    rw [locate, ensures_bind]
    refine (h.slope alpha st).mono (fun slope t => ?_) fun _ _ _ => trivial
    rintro ⟨level, steep⟩
    split
    case isTrue =>
      have once : left + 1 - left = 1 := by omega
      exact ⟨by simp, by simp, level, by simpa [once] using steep⟩
    case isFalse =>
      dsimp only
      split
      case isTrue => exact trivial
      case isFalse =>
        refine (ih alpha slope _).mono (fun r u => ?_) fun _ _ => id
        rintro ⟨most, -, level', steep'⟩
        exact ⟨by omega, by omega, by omega, by omega⟩

/-- **The trials that a search reports are what it has spent.** Where nothing is less than itself, a search for
the strong Wolfe conditions that reports a step has made a trial. -/
theorem Method.search_spends (m : Method α) (irrefl : ¬ (0 : α) < 0) (h : line.Metered costs slopes P)
    (start : P startCost) :
    (m.search line startCost startSlope).Ensures st (fun step t => P step.cost ∧
      ∃ priced steep, costs t = costs st + priced ∧ slopes t = slopes st + steep ∧
        m.Spends step.trials priced steep) fun _ _ => True := by
  cases m with
  | backtracking s =>
    refine (s.searchFrom_spends h (Nat.le_refl s.trials) s.firstStep).mono (fun step t => ?_) fun _ _ => id
    rintro ⟨good, made, some, most, trials, spent, level⟩
    exact ⟨good, made, 0, spent, by omega, by omega, rfl, by omega, by omega⟩
  | wolfe s =>
    rw [search, Wolfe.search, ensures_bind]
    refine (Wolfe.bracket_spends h s ⟨startCost, startSlope⟩ s.trials 0 start).mono (fun r t => ?_)
      fun _ _ => id
    obtain ⟨ending, counted⟩ := r
    rintro ⟨good, none, made, some, most, same, spent, least, steep⟩
    dsimp only
    rcases taken : ending.step s counted with fault | step
    · exact trivial
    obtain ⟨trials, cost, ahead⟩ := Wolfe.Ending.step_ok taken
    -- a search that may make no trial has not left its start
    have once : 1 ≤ made := by
      by_cases may : 0 < s.trials
      · exact some may
      · exact absurd (ahead _ _ (none (by omega))) irrefl
    have all : step.trials = made := trials.trans (same.trans (Nat.zero_add made))
    refine ⟨?_, made, slopes t - slopes st, spent, by omega, all.symm, by omega, by omega, ?_⟩
    · rw [cost]
      exact good
    · rw [all]
      exact most
  | secant s =>
    rw [search, Secant.search, ensures_bind]
    refine (s.locate_spends h s.trials 0 startSlope s.firstStep).mono (fun r t => ?_) fun _ _ => id
    rintro ⟨most, some, level, steep⟩
    rw [ensures_bind]
    refine (h.cost r.1 t).mono (fun cost u => ?_) fun _ _ => id
    rintro ⟨priced, level', holds⟩
    split
    case isTrue => exact trivial
    case isFalse =>
      refine ⟨holds, 1, s.trials - r.2, by omega, by omega, rfl, rfl, fun may => ?_, by dsimp only; omega⟩
      have less := some may
      dsimp only
      omega

end QuasiNewton
