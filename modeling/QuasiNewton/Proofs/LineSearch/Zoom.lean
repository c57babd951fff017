import QuasiNewton.Proofs.LineSearch.Parabola

/-!
# The interval in the course of a search

A noted search is the same search with a list, beside the state, of the intervals that it comes to: the one that the
doublings have found, and what each halving has left of it (`pursueNoted_simulates`). From the end `low` of each of
them the cost falls towards the other end (`Interval.Falls`). Doubling finds such an interval on either side of a trial
because the slopes of the trials before it were negative and steep, and halving keeps it so: a midpoint becomes the end
`low` only if the slope there is steep, and it is then joined to the end to which the cost falls.

Nothing is assumed of the costs and the slopes but that they depend on the step length alone. The evaluations may fail.
-/

set_option autoImplicit false

namespace QuasiNewton

open Attempt

variable {α σ τ : Type}

/-- The same line beside another part of the state. -/
def Line.aside (τ : Type) (line : Line α σ) : Line α (σ × τ) where
  cost alpha := onPart Prod.fst (fun state s => (state, s.2)) (line.cost alpha)
  slope alpha := onPart Prod.fst (fun state s => (state, s.2)) (line.slope alpha)

theorem Line.aside_simulates (line : Line α σ) : (line.aside τ).Simulates (fun s state => s.1 = state) line where
  cost alpha := (line.cost alpha).onPart_simulates
  slope alpha := (line.slope alpha).onPart_simulates

namespace Wolfe

/-! ### Noted searches -/

section Noted

variable [Scalar α] (s : Wolfe α) (line : Line α σ) (o : Origin α)

/-- An interval is added to the list. -/
def note (i : Interval α) : Attempt α (σ × List (Interval α)) PUnit := modify fun s => (s.1, s.2 ++ [i])

/-- The trials inside an interval, with every interval noted that they come to. -/
def zoomNoted : (left trials : ℕ) → Interval α → Attempt α (σ × List (Interval α)) (Ending α × ℕ)
  | 0, trials, i => do
    note i
    pure (.narrowed i, trials)
  | left + 1, trials, i => do
    note i
    match ← s.halve (line.aside (List (Interval α))) o i with
    | .found alpha cost => pure (.flat alpha cost, trials + 1)
    | .narrowed half =>
      if half.short then
        note half
        pure (.narrowed half, trials + 1)
      else zoomNoted left (trials + 1) half

/-- The doublings, followed by the noted trials inside the interval that they have found. -/
def bracketNoted : (left trials : ℕ) → (before costBefore alpha : α) →
    Attempt α (σ × List (Interval α)) (Ending α × ℕ)
  | 0, trials, before, costBefore, _ => pure (.exhausted before costBefore, trials)
  | left + 1, trials, before, costBefore, alpha => do
    let cost ← (line.aside (List (Interval α))).cost alpha
    if s.tooHigh o alpha cost || (decide (0 < trials) && decide (costBefore ≤ cost)) then
      s.zoomNoted line o s.halvings (trials + 1) ⟨before, alpha, costBefore⟩
    else
      let slope ← (line.aside (List (Interval α))).slope alpha
      if s.flat o slope then pure (.flat alpha cost, trials + 1)
      else if 0 ≤ slope then s.zoomNoted line o s.halvings (trials + 1) ⟨alpha, before, cost⟩
      else bracketNoted left (trials + 1) alpha cost (alpha * 2.0)

/-- All trials of a search, with every interval noted that it comes to. -/
def pursueNoted : Attempt α (σ × List (Interval α)) (Ending α × ℕ) :=
  s.bracketNoted line o s.trials 0 0 o.cost s.firstStep

theorem zoomNoted_simulates (left trials : ℕ) (i : Interval α) :
    (s.zoomNoted line o left trials i).Simulates (fun s state => s.1 = state) Eq (s.zoom line o left trials i) := by
  have noted {β : Type} {a : Attempt α (σ × List (Interval α)) β} {b : Attempt α σ β} {i : Interval α}
      (rest : a.Simulates (fun s state => s.1 = state) Eq b) :
      (note i >>= fun _ => a).Simulates (fun s state => s.1 = state) Eq b := by
    rintro ⟨state, intervals⟩ _ rfl
    exact rest (state, intervals ++ [i]) state rfl
  induction left generalizing trials i with
  | zero => exact noted (.pure rfl)
  | succ left ih =>
    refine noted ((s.halve_simulates o line.aside_simulates i).bind fun halved _ same => ?_)
    subst same
    cases halved with
    | found alpha cost => exact .pure rfl
    | narrowed half =>
      dsimp only
      split
      · exact noted (.pure rfl)
      · exact ih _ _

theorem bracketNoted_simulates (left trials : ℕ) (before costBefore alpha : α) :
    (s.bracketNoted line o left trials before costBefore alpha).Simulates (fun s state => s.1 = state) Eq
      (s.bracket line o left trials before costBefore alpha) := by
  have aside := line.aside_simulates (τ := List (Interval α))
  induction left generalizing trials before costBefore alpha with
  | zero => exact .pure rfl
  | succ left ih =>
    refine (aside.cost alpha).bind fun cost _ same => ?_
    subst same
    split
    · exact s.zoomNoted_simulates line o _ _ _
    · refine (aside.slope alpha).bind fun slope _ same => ?_
      subst same
      split
      · exact .pure rfl
      · split
        · exact s.zoomNoted_simulates line o _ _ _
        · exact ih _ _ _ _

/-- Noting the intervals changes nothing else. -/
theorem pursueNoted_simulates :
    (s.pursueNoted line o).Simulates (fun s state => s.1 = state) Eq (s.pursue line o) :=
  s.bracketNoted_simulates line o _ _ _ _ _

end Noted

/-! ### Intervals from which the cost falls -/

section Intervals

variable (s : Wolfe ℝ) (o : Origin ℝ) (φ ψ : ℝ → ℝ)

/-- The cost at the end `low` is that of the start or low enough, and it falls from there towards the other end. -/
structure Interval.Falls (i : Interval ℝ) : Prop where
  low_nonneg : 0 ≤ i.low
  high_nonneg : 0 ≤ i.high
  low : i.low = 0 ∧ i.lowCost = o.cost ∨
    i.lowCost = φ i.low ∧ φ i.low ≤ o.cost + s.decrease * i.low * o.slope
  slope : (if i.low = 0 then o.slope else ψ i.low) * (i.high - i.low) < 0

/-- All of an interval lies in another one. -/
def Interval.Within (j i : Interval ℝ) : Prop := Set.uIcc j.low j.high ⊆ Set.uIcc i.low i.high

/-- What halving an interval has left of it. -/
structure Interval.Halves (i half : Interval ℝ) : Prop where
  falls : half.Falls s o φ ψ
  width : half.width = i.width / 2
  cost : half.lowCost ≤ i.lowCost
  within : half.Within i

end Intervals

variable {s : Wolfe ℝ} {o : Origin ℝ} {φ ψ : ℝ → ℝ} {i j : Interval ℝ}

namespace Interval

/-- The middle lies strictly between the ends if these are different. -/
theorem middle_between (apart : i.low ≠ i.high) :
    min i.low i.high < i.middle ∧ i.middle < max i.low i.high := by
  rw [middle_eq]
  rcases lt_or_gt_of_ne apart with less | more
  · rw [min_eq_left less.le, max_eq_right less.le]
    constructor <;> linarith
  · rw [min_eq_right more.le, max_eq_left more.le]
    constructor <;> linarith

theorem middle_mem (i : Interval ℝ) : i.middle ∈ Set.uIcc i.low i.high := by
  rcases eq_or_ne i.low i.high with same | apart
  · rw [middle_eq, ← same, add_self_div_two]
    exact Set.left_mem_uIcc
  · obtain ⟨above, below⟩ := i.middle_between apart
    exact ⟨above.le, below.le⟩

/-- The interval from a trial to another step length towards which the cost falls. -/
theorem Falls.of_trial {alpha other cost : ℝ} (positive : 0 < alpha) (nonneg : 0 ≤ other) (answered : cost = φ alpha)
    (acceptable : s.Acceptable o ⟨alpha, cost⟩) (slope : ψ alpha * (other - alpha) < 0) :
    Falls s o φ ψ ⟨alpha, other, cost⟩ where
  low_nonneg := positive.le
  high_nonneg := nonneg
  low := .inr ⟨answered, answered ▸ acceptable⟩
  slope := by
    rw [if_neg positive.ne']
    exact slope

namespace Falls

variable (h : i.Falls s o φ ψ)

include h

theorem apart : i.low ≠ i.high := by
  intro same
  have product := h.slope
  rw [same, sub_self, mul_zero] at product
  exact lt_irrefl 0 product

theorem middle_pos : 0 < i.middle :=
  (le_min h.low_nonneg h.high_nonneg).trans_lt (i.middle_between h.apart).1

/-- A midpoint that is turned down becomes the other end. -/
theorem cut : i.Halves s o φ ψ (i.cut i.middle) where
  falls := {
    low_nonneg := h.low_nonneg
    high_nonneg := h.middle_pos.le
    low := h.low
    slope := by
      have half : i.middle - i.low = (i.high - i.low) / 2 := by
        rw [middle_eq]
        ring
      simp only [Interval.cut, half, ← mul_div_assoc]
      exact div_neg_of_neg_of_pos h.slope two_pos }
  width := i.width_cut
  cost := le_rfl
  within := Set.uIcc_subset_uIcc Set.left_mem_uIcc i.middle_mem

/-- A midpoint that is taken up becomes the end `low` if the slope there is not zero. -/
theorem move {cost slope : ℝ} (answered : cost = φ i.middle) (answered' : slope = ψ i.middle)
    (acceptable : s.Acceptable o ⟨i.middle, cost⟩) (lower : cost < i.lowCost) (steep : slope ≠ 0) :
    i.Halves s o φ ψ (i.move i.middle cost slope) := by
  have toLow : i.low - i.middle = -((i.high - i.low) / 2) := by
    rw [middle_eq]
    ring
  have toHigh : i.high - i.middle = (i.high - i.low) / 2 := by
    rw [middle_eq]
    ring
  have product : slope * (i.high - i.low) ≠ 0 := mul_ne_zero steep (sub_ne_zero.mpr h.apart.symm)
  refine ⟨.of_trial h.middle_pos ?_ answered acceptable ?_, i.width_move cost slope, lower.le, ?_⟩
  · split
    · exact h.low_nonneg
    · exact h.high_nonneg
  · rw [← answered']
    split
    case isTrue rises =>
      have rising : 0 < slope * (i.high - i.low) := lt_of_le_of_ne rises product.symm
      rw [toLow]
      linarith
    case isFalse falls =>
      rw [toHigh]
      linarith
  · refine Set.uIcc_subset_uIcc i.middle_mem ?_
    simp only [Interval.move]
    split
    · exact Set.left_mem_uIcc
    · exact Set.right_mem_uIcc

end Falls

end Interval

/-- A slope that is not flat is not zero. -/
theorem ne_zero_of_steep (curvature : 0 ≤ s.curvature) (descent : o.slope < 0) {slope : ℝ}
    (steep : ¬ s.flat o slope = true) : slope ≠ 0 := by
  rintro rfl
  apply steep
  have permitted : 0 ≤ -s.curvature * o.slope := by
    rw [neg_mul_comm]
    exact mul_nonneg curvature (neg_pos.mpr descent).le
  simpa [flat] using permitted

/-! ### Chains of halves -/

section Chains

variable {rest : List (Interval ℝ)}

/-- What all intervals have that come from one interval by halving. -/
theorem falls_of_chain (chain : (i :: rest).IsChain (Interval.Halves s o φ ψ)) (falls : i.Falls s o φ ψ) :
    ∀ j ∈ i :: rest, j.Falls s o φ ψ ∧ j.Within i := by
  induction rest generalizing i with
  | nil =>
    intro j mem
    obtain rfl := List.mem_singleton.mp mem
    exact ⟨falls, subset_rfl⟩
  | cons half rest ih =>
    obtain ⟨first, chain⟩ := List.isChain_cons_cons.mp chain
    intro j mem
    rcases List.mem_cons.mp mem with rfl | mem
    · exact ⟨falls, subset_rfl⟩
    · obtain ⟨falls', within⟩ := ih chain first.falls j mem
      exact ⟨falls', within.trans first.within⟩

/-- Every halving halves the width. -/
theorem width_of_chain (chain : (i :: rest).IsChain (Interval.Halves s o φ ψ)) {k : ℕ}
    (at_k : (i :: rest)[k]? = some j) : j.width = i.width / 2 ^ k := by
  induction k generalizing i rest with
  | zero =>
    obtain rfl : i = j := Option.some.inj at_k
    rw [pow_zero, div_one]
  | succ k ih =>
    cases rest with
    | nil => cases at_k
    | cons half rest =>
      obtain ⟨first, chain⟩ := List.isChain_cons_cons.mp chain
      rw [ih chain at_k, first.width, div_div, pow_succ']

/-- The cost at the end `low` does not rise. -/
theorem lowCosts_of_chain {intervals : List (Interval ℝ)} (chain : intervals.IsChain (Interval.Halves s o φ ψ)) :
    intervals.Pairwise fun i j => j.lowCost ≤ i.lowCost := by
  have falling : intervals.IsChain fun i j => j.lowCost ≤ i.lowCost := chain.imp fun _ _ half => half.cost
  have trans : IsTrans (Interval ℝ) fun i j => j.lowCost ≤ i.lowCost := ⟨fun _ _ _ h k => k.trans h⟩
  exact List.isChain_iff_pairwise.mp falling

end Chains

/-! ### The course of a search -/

section Course

variable {line : Line ℝ σ} {I : σ → Prop}

/-- The trial of a step length. -/
def tried (φ : ℝ → ℝ) (alpha : ℝ) : Trial ℝ := ⟨alpha, φ alpha⟩

/-- What is added to the lists of trials and of intervals, from one state to another. -/
structure Adds (I : σ → Prop) (φ : ℝ → ℝ) (st u : (σ × List (Trial ℝ)) × List (Interval ℝ)) (steps : List ℝ)
    (intervals : List (Interval ℝ)) : Prop where
  state : I u.1.1
  trials : u.1.2 = st.1.2 ++ steps.map (tried φ)
  intervals : u.2 = st.2 ++ intervals

variable {st t u : (σ × List (Trial ℝ)) × List (Interval ℝ)}

namespace Adds

variable {steps steps' : List ℝ} {intervals intervals' : List (Interval ℝ)}

theorem nothing (hI : I st.1.1) : Adds I φ st st [] [] := ⟨hI, by simp, by simp⟩

theorem interval (hI : I st.1.1) (i : Interval ℝ) : Adds I φ st (st.1, st.2 ++ [i]) [] [i] := ⟨hI, by simp, rfl⟩

theorem trans (h : Adds I φ st t steps intervals) (k : Adds I φ t u steps' intervals') :
    Adds I φ st u (steps ++ steps') (intervals ++ intervals') where
  state := k.state
  trials := by rw [k.trials, h.trials, List.map_append, List.append_assoc]
  intervals := by rw [k.intervals, h.intervals, List.append_assoc]

end Adds

theorem cost_noted (h : line.Computes I φ ψ) {alpha : ℝ} (positive : 0 < alpha) (hI : I st.1.1) :
    ((line.recorded.aside (List (Interval ℝ))).cost alpha).Ensures st
      (fun cost t => cost = φ alpha ∧ Adds I φ st t [alpha] []) fun _ t => Adds I φ st t [] [] := by
  simp only [Line.aside, Line.recorded, ensures_onPart, ensures_bind, ensures_modify, ensures_pure]
  refine (h.cost alpha positive st.1.1 hI).mono (fun cost t => ?_) fun _ t failed => ?_
  · rintro ⟨rfl, kept⟩
    exact ⟨rfl, kept, rfl, by simp⟩
  · exact ⟨failed.2, by simp, by simp⟩

theorem slope_noted (h : line.Computes I φ ψ) {alpha : ℝ} (positive : 0 < alpha) (hI : I st.1.1) :
    ((line.recorded.aside (List (Interval ℝ))).slope alpha).Ensures st
      (fun slope t => slope = ψ alpha ∧ Adds I φ st t [] []) fun _ t => Adds I φ st t [] [] := by
  simp only [Line.aside, Line.recorded, ensures_onPart]
  refine (h.slope alpha positive st.1.1 hI).mono (fun slope t => ?_) fun _ t failed => ?_
  · rintro ⟨rfl, kept⟩
    exact ⟨rfl, kept, by simp, by simp⟩
  · exact ⟨failed.2, by simp, by simp⟩

/-- **What halving leaves of an interval from which the cost falls.** The midpoint is the only trial. -/
theorem halve_noted (h : line.Computes I φ ψ) (curvature : 0 ≤ s.curvature) (descent : o.slope < 0)
    (falls : i.Falls s o φ ψ) (hI : I st.1.1) :
    (s.halve (line.recorded.aside (List (Interval ℝ))) o i).Ensures st
      (fun halved t => Adds I φ st t [i.middle] [] ∧
        ∀ half, halved = .narrowed half → i.Halves s o φ ψ half)
      fun _ t => Adds I φ st t [] [] ∨ Adds I φ st t [i.middle] [] := by
  rw [halve, ensures_bind]
  refine (cost_noted h falls.middle_pos hI).mono (fun cost t => ?_) fun _ t => .inl
  rintro ⟨answered, adds⟩
  split
  case isTrue =>
    refine ⟨adds, ?_⟩
    rintro _ ⟨⟩
    exact falls.cut
  case isFalse accepted =>
    have better : s.Acceptable o ⟨i.middle, cost⟩ ∧ cost < i.lowCost := by
      simpa [← tooHigh_eq_false_iff] using accepted
    rw [ensures_bind]
    refine (slope_noted h falls.middle_pos adds.state).mono (fun slope u => ?_) fun _ u more =>
      .inr (adds.trans more)
    rintro ⟨answered', more⟩
    split
    case isTrue => exact ⟨adds.trans more, by simp⟩
    case isFalse steep =>
      refine ⟨adds.trans more, ?_⟩
      rintro _ ⟨⟩
      exact falls.move answered answered' better.1 better.2 (ne_zero_of_steep curvature descent steep)

/-- What the trials inside an interval add: the interval with what halving has left of it, and the middles of all of
these but possibly the last one. -/
def Zoomed (s : Wolfe ℝ) (o : Origin ℝ) (φ ψ : ℝ → ℝ) (I : σ → Prop) (i : Interval ℝ)
    (st u : (σ × List (Trial ℝ)) × List (Interval ℝ)) : Prop :=
  ∃ rest halved, (halved = i :: rest ∨ halved = (i :: rest).dropLast) ∧
    (i :: rest).IsChain (Interval.Halves s o φ ψ) ∧ Adds I φ st u (halved.map Interval.middle) (i :: rest)

theorem zoom_noted (h : line.Computes I φ ψ) (curvature : 0 ≤ s.curvature) (descent : o.slope < 0)
    (left trials : ℕ) (falls : i.Falls s o φ ψ) (hI : I st.1.1) :
    (s.zoomNoted line.recorded o left trials i).Ensures st (fun _ => Zoomed s o φ ψ I i st)
      fun _ => Zoomed s o φ ψ I i st := by
  induction left generalizing st trials i with
  | zero => exact ⟨[], [], .inr rfl, .singleton i, .interval hI i⟩
  | succ left ih =>
    have start : Adds I φ st (st.1, st.2 ++ [i]) [] [i] := .interval hI i
    rw [zoomNoted, note, ensures_bind, ensures_modify, ensures_bind]
    refine (halve_noted h curvature descent falls start.state).mono (fun halved t => ?_) fun _ t => ?_
    · rintro ⟨adds, halves⟩
      have first := start.trans adds
      cases halved with
      | found alpha cost => exact ⟨[], [i], .inl rfl, .singleton i, first⟩
      | narrowed half =>
        have chain := halves half rfl
        dsimp only
        split
        · rw [note, ensures_bind, ensures_modify]
          exact ⟨[half], [i], .inr rfl, .cons_cons chain (.singleton half), first.trans (.interval adds.state half)⟩
        · refine (ih (trials + 1) chain.falls adds.state).mono_state fun u => ?_
          rintro ⟨rest, halved, which, further, adds'⟩
          have which' : i :: halved = i :: half :: rest ∨ i :: halved = (i :: half :: rest).dropLast :=
            which.imp (congrArg (List.cons i)) (congrArg (List.cons i))
          exact ⟨half :: rest, i :: halved, which', .cons_cons chain further, first.trans adds'⟩
    · rintro (adds | adds)
      · exact ⟨[], [], .inr rfl, .singleton i, start.trans adds⟩
      · exact ⟨[], [i], .inl rfl, .singleton i, start.trans adds⟩

/-- Doublings lead ever further. -/
theorem doubled_mono (firstStep : 0 < s.firstStep) : Monotone fun k : ℕ => s.firstStep * 2 ^ k :=
  fun _ _ le => mul_le_mul_of_nonneg_left (pow_le_pow_right₀ one_le_two le) firstStep.le

/-- What the trials of a search add after `first` of them: some further doublings, and then the middles of the noted
intervals but possibly the last one. The cost falls from the end `low` of the first interval, and none of its ends lies
beyond the last permitted doubling. -/
structure Bracketed (s : Wolfe ℝ) (o : Origin ℝ) (φ ψ : ℝ → ℝ) (first : ℕ) (steps : List ℝ)
    (intervals : List (Interval ℝ)) : Prop where
  steps : ∃ doublings halved, first + doublings ≤ s.trials ∧ (halved = intervals ∨ halved = intervals.dropLast) ∧
    steps = (List.range' first doublings).map (fun k => s.firstStep * 2 ^ k) ++ halved.map Interval.middle
  chain : intervals.IsChain (Interval.Halves s o φ ψ)
  head : ∀ i ∈ intervals.head?, i.Falls s o φ ψ ∧ max i.low i.high ≤ s.firstStep * 2 ^ (s.trials - 1)

/-- What the trials of a search have added, after the first `first` of them. -/
def Continued (s : Wolfe ℝ) (o : Origin ℝ) (φ ψ : ℝ → ℝ) (I : σ → Prop) (first : ℕ)
    (st u : (σ × List (Trial ℝ)) × List (Interval ℝ)) : Prop :=
  ∃ steps intervals, Bracketed s o φ ψ first steps intervals ∧ Adds I φ st u steps intervals

namespace Continued

variable {first : ℕ}

theorem stop (permitted : first ≤ s.trials) (adds : Adds I φ st u [] []) : Continued s o φ ψ I first st u :=
  ⟨[], [], ⟨⟨0, [], permitted, .inl rfl, rfl⟩, .nil, by simp⟩, adds⟩

/-- Trials inside an interval follow the last doubling. -/
theorem zoom (zoomed : Zoomed s o φ ψ I i st u) (falls : i.Falls s o φ ψ)
    (bounded : max i.low i.high ≤ s.firstStep * 2 ^ (s.trials - 1)) (permitted : first ≤ s.trials) :
    Continued s o φ ψ I first st u := by
  obtain ⟨rest, halved, which, chain, adds⟩ := zoomed
  refine ⟨_, _, ⟨⟨0, halved, permitted, which, rfl⟩, chain, ?_⟩, adds⟩
  rintro _ ⟨⟩
  exact ⟨falls, bounded⟩

/-- Whatever a search does after a doubling, it has doubled once more. -/
theorem cons (adds : Adds I φ st t [s.firstStep * 2 ^ first] []) (h : Continued s o φ ψ I (first + 1) t u) :
    Continued s o φ ψ I first st u := by
  obtain ⟨_, intervals, ⟨⟨doublings, halved, permitted, which, rfl⟩, chain, head⟩, more⟩ := h
  refine ⟨_, intervals, ⟨⟨doublings + 1, halved, by omega, which, ?_⟩, chain, head⟩, adds.trans more⟩
  rw [List.range'_succ, List.map_cons]
  rfl

end Continued

/-- What a search adds that turns to an interval after some doublings. -/
theorem zoom_continued (h : line.Computes I φ ψ) (curvature : 0 ≤ s.curvature) (descent : o.slope < 0)
    (left trials : ℕ) (falls : i.Falls s o φ ψ) (bounded : max i.low i.high ≤ s.firstStep * 2 ^ (s.trials - 1))
    (permitted : trials ≤ s.trials) (hI : I st.1.1) :
    (s.zoomNoted line.recorded o left trials i).Ensures st (fun _ => Continued s o φ ψ I trials st)
      fun _ => Continued s o φ ψ I trials st :=
  (zoom_noted h curvature descent left trials falls hI).mono_state fun _ zoomed =>
    .zoom zoomed falls bounded permitted

/-- **What a search adds after some doublings**, if the cost falls from the trial before the next one towards the next
one. -/
theorem bracket_noted (h : line.Computes I φ ψ) (curvature : 0 ≤ s.curvature) (firstStep : 0 < s.firstStep)
    (descent : o.slope < 0) (left trials : ℕ) {before costBefore alpha : ℝ} (count : trials + left = s.trials)
    (doubling : alpha = s.firstStep * 2 ^ trials) (ahead : before < alpha)
    (falls : Interval.Falls s o φ ψ ⟨before, alpha, costBefore⟩) (hI : I st.1.1) :
    (s.bracketNoted line.recorded o left trials before costBefore alpha).Ensures st
      (fun _ => Continued s o φ ψ I trials st) fun _ => Continued s o φ ψ I trials st := by
  induction left generalizing st trials before costBefore alpha with
  | zero => exact .stop (by omega) (.nothing hI)
  | succ left ih =>
    have positive : 0 < alpha := falls.low_nonneg.trans_lt ahead
    have permitted : trials + 1 ≤ s.trials := by omega
    have bound : alpha ≤ s.firstStep * 2 ^ (s.trials - 1) := doubling.trans_le (doubled_mono firstStep (by omega))
    have bounded : max before alpha ≤ s.firstStep * 2 ^ (s.trials - 1) := max_le (ahead.le.trans bound) bound
    rw [bracketNoted, ensures_bind]
    refine (cost_noted h positive hI).mono (fun cost t => ?_) fun _ t adds => .stop (by omega) adds
    rintro ⟨answered, adds⟩
    rw [doubling] at adds
    split
    case isTrue =>
      exact (zoom_continued h curvature descent s.halvings (trials + 1) falls bounded permitted
        adds.state).mono_state fun u => .cons adds
    case isFalse accepted =>
      have acceptable : s.Acceptable o ⟨alpha, cost⟩ := by
        rw [← tooHigh_eq_false_iff]
        simp_all
      rw [ensures_bind]
      refine (slope_noted h positive adds.state).mono (fun slope u => ?_) fun _ u more =>
        .cons adds (.stop permitted more)
      rintro ⟨answered', more⟩
      have adds' : Adds I φ st u [s.firstStep * 2 ^ trials] [] := adds.trans more
      split
      case isTrue => exact .cons adds (.stop permitted more)
      case isFalse steep =>
        have nonzero : slope ≠ 0 := ne_zero_of_steep curvature descent steep
        split
        case isTrue rises =>
          -- the interval is entered from the end that lies further ahead
          have product : ψ alpha * (before - alpha) < 0 :=
            mul_neg_of_pos_of_neg (answered' ▸ lt_of_le_of_ne rises nonzero.symm) (sub_neg.mpr ahead)
          have falls' := Interval.Falls.of_trial positive falls.low_nonneg answered acceptable product
          rw [max_comm] at bounded
          exact (zoom_continued h curvature descent s.halvings (trials + 1) falls' bounded permitted
            more.state).mono_state fun v => .cons adds'
        case isFalse declines =>
          have next : alpha * 2.0 = s.firstStep * 2 ^ (trials + 1) := by
            rw [doubling, pow_succ]
            norm_num
            ring
          have ahead' : alpha < alpha * 2.0 := by
            norm_num
            linarith
          have product : ψ alpha * (alpha * 2.0 - alpha) < 0 :=
            mul_neg_of_neg_of_pos (answered' ▸ not_le.mp declines) (sub_pos.mpr ahead')
          have falls' := Interval.Falls.of_trial positive (positive.trans ahead').le answered acceptable product
          exact (ih (trials + 1) (by omega) next ahead' falls' more.state).mono_state fun v => .cons adds'

/-- The trials of a search and the intervals that they come to. -/
structure Course (s : Wolfe ℝ) (o : Origin ℝ) (φ ψ : ℝ → ℝ) (trials : List (Trial ℝ))
    (intervals : List (Interval ℝ)) : Prop where
  falls : ∀ i ∈ intervals, i.Falls s o φ ψ
  width : ∀ first ∈ intervals.head?, ∀ k, ∀ i ∈ intervals[k]?, i.width = first.width / 2 ^ k
  lowCosts : intervals.Pairwise fun i j => j.lowCost ≤ i.lowCost
  inside : ∀ first ∈ intervals.head?, ∀ i ∈ intervals,
    min first.low first.high < i.middle ∧ i.middle < max first.low first.high
  /-- The trials are doublings, followed by the middles of the intervals but possibly the last one. -/
  alphas : ∃ doublings halved, doublings ≤ s.trials ∧ (halved = intervals ∨ halved = intervals.dropLast) ∧
    trials.map Trial.alpha = (List.range doublings).map (fun k => s.firstStep * 2 ^ k) ++ halved.map Interval.middle
  answered : ∀ t ∈ trials, t.cost = φ t.alpha
  bounded : ∀ t ∈ trials, 0 < t.alpha ∧ t.alpha ≤ s.firstStep * 2 ^ (s.trials - 1)

/-- The middle of an interval lies strictly inside any interval that it is a part of. -/
theorem Interval.Falls.inside (h : j.Falls s o φ ψ) (within : j.Within i) :
    min i.low i.high < j.middle ∧ j.middle < max i.low i.high := by
  obtain ⟨above, below⟩ := j.middle_between h.apart
  have low : j.low ∈ Set.uIcc i.low i.high := within Set.left_mem_uIcc
  have high : j.high ∈ Set.uIcc i.low i.high := within Set.right_mem_uIcc
  exact ⟨(le_min low.1 high.1).trans_lt above, below.trans_le (max_le low.2 high.2)⟩

namespace Bracketed

variable {steps : List ℝ} {intervals : List (Interval ℝ)}

theorem falls {first : ℕ} (h : Bracketed s o φ ψ first steps intervals) {i₀ : Interval ℝ}
    (head : i₀ ∈ intervals.head?) : ∀ i ∈ intervals, i.Falls s o φ ψ ∧ i.Within i₀ := by
  obtain ⟨rest, rfl⟩ := List.head?_eq_some_iff.mp head
  exact falls_of_chain h.chain (h.head i₀ head).1

/-- None of the step lengths lies beyond the last permitted doubling. -/
theorem bounded (h : Bracketed s o φ ψ 0 steps intervals) (firstStep : 0 < s.firstStep) :
    ∀ alpha ∈ steps, 0 < alpha ∧ alpha ≤ s.firstStep * 2 ^ (s.trials - 1) := by
  obtain ⟨doublings, halved, permitted, which, same⟩ := h.steps
  subst same
  intro alpha mem
  rcases List.mem_append.mp mem with mem | mem
  · obtain ⟨k, earlier, rfl⟩ := List.mem_map.mp mem
    have permitted' : k ≤ s.trials - 1 := by
      rw [List.mem_range'_1] at earlier
      omega
    have positive : 0 < s.firstStep * 2 ^ k := mul_pos firstStep (pow_pos two_pos k)
    exact ⟨positive, doubled_mono firstStep permitted'⟩
  · obtain ⟨i, part, rfl⟩ := List.mem_map.mp mem
    have mem' : i ∈ intervals := by
      rcases which with rfl | rfl
      · exact part
      · exact List.mem_of_mem_dropLast part
    obtain ⟨i₀, rest, rfl⟩ := List.exists_cons_of_ne_nil (List.ne_nil_of_mem mem')
    obtain ⟨falls, within⟩ := h.falls (List.head?_cons) i mem'
    exact ⟨falls.middle_pos, (falls.inside within).2.le.trans (h.head i₀ List.head?_cons).2⟩

/-- A whole search, from what it adds. -/
theorem course (h : Bracketed s o φ ψ 0 steps intervals) (firstStep : 0 < s.firstStep) :
    s.Course o φ ψ (steps.map (tried φ)) intervals where
  falls i mem := by
    obtain ⟨i₀, rest, rfl⟩ := List.exists_cons_of_ne_nil (List.ne_nil_of_mem mem)
    exact (h.falls List.head?_cons i mem).1
  width i₀ head k i at_k := by
    obtain ⟨rest, rfl⟩ := List.head?_eq_some_iff.mp head
    exact width_of_chain h.chain at_k
  lowCosts := lowCosts_of_chain h.chain
  inside i₀ head i mem := by
    obtain ⟨falls, within⟩ := h.falls head i mem
    exact falls.inside within
  alphas := by
    obtain ⟨doublings, halved, permitted, which, rfl⟩ := h.steps
    refine ⟨doublings, halved, by omega, which, ?_⟩
    simp [tried, Function.comp_def, List.range_eq_range']
  answered t mem := by
    obtain ⟨alpha, -, rfl⟩ := List.mem_map.mp mem
    rfl
  bounded t mem := by
    obtain ⟨alpha, mem', rfl⟩ := List.mem_map.mp mem
    exact h.bounded firstStep alpha mem'

end Bracketed

/-- **A search never loses the side to which the cost falls.** Along costs `φ` and slopes `ψ` that depend on the step
length alone, the intervals that a search comes to, before and after each of its halvings, all have an end `low` that
is either the start itself or low enough, and the slope there points towards the other end. After `k` halvings the
width is that of the first interval divided by `2 ^ k`; the cost at the end `low` does not rise; all midpoints lie
strictly between the ends of the first interval, and no trial lies beyond the last permitted doubling. -/
theorem pursue_narrows (h : line.Computes I φ ψ) (curvature : 0 ≤ s.curvature) (firstStep : 0 < s.firstStep)
    (descent : o.slope < 0) (state : σ) (hI : I state) :
    ∃ result after trials intervals,
      (s.pursueNoted line.recorded o).outcome ((state, []), []) = (result, ((after, trials), intervals)) ∧
      (s.pursue line o).outcome state = (result, after) ∧ s.Course o φ ψ trials intervals := by
  have falls : Interval.Falls s o φ ψ ⟨0, s.firstStep, o.cost⟩ := by
    refine ⟨le_rfl, firstStep.le, .inl ⟨rfl, rfl⟩, ?_⟩
    simpa using mul_neg_of_neg_of_pos descent firstStep
  have first : s.firstStep = s.firstStep * 2 ^ 0 := by simp
  have continued : (s.pursueNoted line.recorded o).Ensures ((state, []), [])
      (fun _ => Continued s o φ ψ I 0 ((state, []), [])) fun _ => Continued s o φ ψ I 0 ((state, []), []) :=
    bracket_noted h curvature firstStep descent s.trials 0 (zero_add _) first firstStep falls hI
  have recorded := (s.pursueNoted_simulates line.recorded o).outcome_eq ((state, []), [])
  have plain := (s.pursue_simulates o line.recorded_simulates).outcome_eq (state, [])
  rcases run : (s.pursueNoted line.recorded o).outcome ((state, []), []) with ⟨result, ⟨after, trials⟩, intervals⟩
  rw [run] at recorded
  rw [recorded] at plain
  obtain ⟨steps, added, bracketed, adds⟩ := continued.state
  rw [run] at adds
  obtain rfl : trials = steps.map (tried φ) := adds.trials
  obtain rfl : intervals = added := adds.intervals
  exact ⟨result, after, steps.map (tried φ), intervals, rfl, plain, bracketed.course firstStep⟩

/-- For instance, along the parabola `(a - 1)²` the first trial goes too far. The first midpoint is taken up, and as the
cost rises there, it is joined to the start. -/
theorem narrows_to_the_start :
    let s : Wolfe ℝ := ⟨3, 1e-4, 0.4, 1, 2⟩
    let o : Origin ℝ := ⟨1, -2⟩
    let line : Line ℝ Unit := ⟨fun a => pure ((a - 1) ^ 2), fun a => pure (2 * (a - 1))⟩
    (s.pursue line o).outcome () = (.ok (.flat (3 / 4) (1 / 16), 3), ()) ∧
      ∃ trials, s.Course o (fun a => (a - 1) ^ 2) (fun a => 2 * (a - 1)) trials [⟨0, 3, 1⟩, ⟨3 / 2, 0, 1 / 4⟩] := by
  intro s o line
  have computes : line.Computes (fun _ => True) (fun a => (a - 1) ^ 2) fun a => 2 * (a - 1) := by
    constructor <;> simp [line, ensures_pure]
  obtain ⟨result, after, trials, intervals, run, plain, course⟩ :=
    pursue_narrows (s := s) (o := o) computes (by norm_num [s]) (by norm_num [s]) (by norm_num [o]) () trivial
  have computed : (s.pursueNoted line.recorded o).outcome (((), []), []) =
      (.ok (.flat (3 / 4) (1 / 16), 3),
        (((), [⟨3, 4⟩, ⟨3 / 2, 1 / 4⟩, ⟨3 / 4, 1 / 16⟩]), [⟨0, 3, 1⟩, ⟨3 / 2, 0, 1 / 4⟩])) := by
    norm_num [pursueNoted, bracketNoted, zoomNoted, note, halve, Line.aside, Line.recorded, tooHigh, flat, s, o, line,
      Interval.middle, Interval.short, Interval.cut, Interval.move, outcome_bind, -bind_pure_comp, -map_pure]
  rw [computed] at run
  cases run
  exact ⟨plain, _, course⟩

end Course

end Wolfe

end QuasiNewton
