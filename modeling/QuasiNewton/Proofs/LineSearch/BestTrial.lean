import QuasiNewton.Proofs.Exact.Reals
import QuasiNewton.Proofs.LineSearch.Recording

/-!
# The best trial of a Wolfe search

The two loops of the search for the strong Wolfe conditions share one invariant: the end `low` of the
interval, and the trial before the next doubling, is the trial of lowest cost among all trials that
have lowered the cost enough, or the start if there is none. `Wolfe.Leads` states it for the list of
trials made so far. A trial that is turned down keeps the leader (`Leads.turned_down`) and a trial that
is taken up becomes the leader (`Leads.taken_up`); both loops are made of these two steps.
-/

set_option autoImplicit false

namespace QuasiNewton.Wolfe

/-- The settings that a search is made with, and at least one trial in each of its two loops. -/
structure Admissible (s : Wolfe ℝ) : Prop where
  firstStep_pos : 0 < s.firstStep
  decrease_pos : 0 < s.decrease
  decrease_lt_curvature : s.decrease < s.curvature
  curvature_lt_one : s.curvature < 1
  trials_pos : 0 < s.trials
  halvings_pos : 0 < s.halvings

/-- A search that is made from its options may be run if both limits permit a trial. -/
theorem admissible_of_ofOptions {options : WolfeOptions ℝ} {s : Wolfe ℝ}
    (made : ofOptions options = .ok s) (trials : 1 ≤ options.trials) (halvings : 1 ≤ options.halvings) :
    s.Admissible := by
  simp only [ofOptions, except_bind_ok, require_ok, Exact.countOf_of_nonneg (zero_le_one.trans trials),
    Exact.countOf_of_nonneg (zero_le_one.trans halvings), Except.ok.injEq, pure, Except.pure] at made
  obtain ⟨_, constants, _, firstStep, _, -, _, rfl, _, rfl, rfl⟩ := made
  obtain ⟨decrease, curvature, small⟩ := of_decide_eq_true constants
  exact {
    firstStep_pos := by simpa using firstStep
    decrease_pos := decrease
    decrease_lt_curvature := curvature
    curvature_lt_one := small
    trials_pos := Nat.floor_pos.mpr trials
    halvings_pos := Nat.floor_pos.mpr halvings }

variable (s : Wolfe ℝ) (o : Origin ℝ)

/-- A trial has lowered the cost by the fraction demanded of what the slope promises. -/
def Acceptable (t : Trial ℝ) : Prop := t.cost ≤ o.cost + s.decrease * t.alpha * o.slope

theorem tooHigh_eq_false_iff {alpha cost : ℝ} :
    s.tooHigh o alpha cost = false ↔ s.Acceptable o ⟨alpha, cost⟩ := by
  simp [tooHigh, Acceptable]

/-- With a descending slope an acceptable trial has a cost below the cost at the start. -/
theorem Acceptable.cost_lt {s : Wolfe ℝ} {o : Origin ℝ} {t : Trial ℝ} (h : s.Acceptable o t)
    (decrease : 0 < s.decrease) (slope : o.slope < 0) (positive : 0 < t.alpha) : t.cost < o.cost := by
  have gained : s.decrease * t.alpha * o.slope < 0 :=
    mul_neg_of_pos_of_neg (mul_pos decrease positive) slope
  unfold Acceptable at h
  linarith

/-- A step length with its cost leads a list of trials: it is the start and no trial is acceptable, or
it is the acceptable trial with the lowest cost. -/
inductive Leads (trials : List (Trial ℝ)) : ℝ → ℝ → Prop
  | start (none : ∀ t ∈ trials, ¬ s.Acceptable o t) : Leads trials 0 o.cost
  | trial {t : Trial ℝ} (mem : t ∈ trials) (positive : 0 < t.alpha) (acceptable : s.Acceptable o t)
      (least : ∀ u ∈ trials, s.Acceptable o u → t.cost ≤ u.cost) : Leads trials t.alpha t.cost

namespace Leads

variable {s o} {trials : List (Trial ℝ)} {low lowCost : ℝ} {t : Trial ℝ}

theorem low_nonneg (h : s.Leads o trials low lowCost) : 0 ≤ low := by
  cases h with
  | start => exact le_rfl
  | trial _ positive => exact positive.le

theorem cost_of_nil (h : s.Leads o [] low lowCost) : lowCost = o.cost := by
  cases h with
  | start => rfl
  | trial mem => cases mem

/-- A trial that is not acceptable, or no better than the leader, leaves the leader in place. -/
theorem turned_down (h : s.Leads o trials low lowCost) (decrease : 0 < s.decrease)
    (slope : o.slope < 0) (positive : 0 < t.alpha)
    (worse : ¬ s.Acceptable o t ∨ lowCost ≤ t.cost) : s.Leads o (trials ++ [t]) low lowCost := by
  cases h with
  | start none =>
    refine .start fun u hu => ?_
    rcases List.mem_append.mp hu with hu | hu
    · exact none u hu
    · obtain rfl := List.mem_singleton.mp hu
      rcases worse with worse | worse
      · exact worse
      · exact fun acceptable => absurd (acceptable.cost_lt decrease slope positive) (not_lt.mpr worse)
  | trial mem leaderPositive acceptable least =>
    refine .trial (List.mem_append_left _ mem) leaderPositive acceptable fun u hu accepted => ?_
    rcases List.mem_append.mp hu with hu | hu
    · exact least u hu accepted
    · obtain rfl := List.mem_singleton.mp hu
      rcases worse with worse | worse
      · exact absurd accepted worse
      · exact worse

/-- An acceptable trial that is better than the leader becomes the leader. -/
theorem taken_up (h : s.Leads o trials low lowCost) (positive : 0 < t.alpha)
    (acceptable : s.Acceptable o t) (better : t.cost < lowCost) :
    s.Leads o (trials ++ [t]) t.alpha t.cost := by
  refine .trial (List.mem_append_right _ (List.mem_singleton_self t)) positive acceptable
    fun u hu accepted => ?_
  rcases List.mem_append.mp hu with hu | hu
  · cases h with
    | start none => exact absurd accepted (none u hu)
    | trial _ _ _ least => exact better.le.trans (least u hu accepted)
  · obtain rfl := List.mem_singleton.mp hu
    exact le_rfl

end Leads

/-- An interval in the course of a search: its end `low` leads the trials, and both ends lie ahead of
the start, one of them properly. -/
structure Interval.Narrows (i : Interval ℝ) (trials : List (Trial ℝ)) : Prop where
  leads : s.Leads o trials i.low i.lowCost
  high_nonneg : 0 ≤ i.high
  ahead : 0 < i.low + i.high

theorem Interval.Narrows.middle_pos {s o} {i : Interval ℝ} {trials : List (Trial ℝ)}
    (h : i.Narrows s o trials) : 0 < i.middle := by
  have := h.ahead
  simp only [middle]
  linarith

/-- What an ending says about the trials: its candidate leads them. A flat ending has a slope of the
permitted size, and doubling is not given up at the start. -/
def Ending.Concludes (Ψ : ℝ → ℝ → Prop) (trials : List (Trial ℝ)) : Ending ℝ → Prop
  | .flat alpha cost =>
    s.Leads o trials alpha cost ∧ 0 < alpha ∧ ∃ slope, Ψ alpha slope ∧ |slope| ≤ -s.curvature * o.slope
  | .exhausted alpha cost => s.Leads o trials alpha cost ∧ 0 < alpha
  | .narrowed i => s.Leads o trials i.low i.lowCost

section Loops

variable {s o} {σ : Type} {line : Line ℝ σ} {I : σ → Prop} {Φ Ψ : ℝ → ℝ → Prop}
  {E : Fault ℝ → Prop} {st : σ × List (Trial ℝ)}

variable (s o I Φ Ψ) in
/-- What trials have led to that were counted and had to be at most `bound`. -/
structure Ended (bound : ℕ) (r : Ending ℝ × ℕ) (t : σ × List (Trial ℝ)) : Prop where
  recorded : Line.Recorded I Φ t
  count : t.2.length = r.2
  le : r.2 ≤ bound
  concludes : r.1.Concludes s o Ψ t.2

/-- A search that ends within a bound ends within a larger one. -/
theorem Ended.ensures_mono {a : Attempt ℝ (σ × List (Trial ℝ)) (Ending ℝ × ℕ)} {bound bound' : ℕ}
    (h : a.Ensures st (Ended s o I Φ Ψ bound) fun fault t => E fault ∧ Line.Recorded I Φ t)
    (le : bound ≤ bound') :
    a.Ensures st (Ended s o I Φ Ψ bound') fun fault t => E fault ∧ Line.Recorded I Φ t :=
  h.mono (fun _ _ ended => { ended with le := ended.le.trans le }) fun _ _ failed => failed

/-- **Halving keeps the invariant**: the midpoint is turned down and cuts the interval, or is taken up
and becomes its end `low`. -/
theorem halve_ensures (h : line.Answers I Φ Ψ E) (hs : s.Admissible) (descent : o.slope < 0)
    {i : Interval ℝ} (recorded : Line.Recorded I Φ st) (narrows : i.Narrows s o st.2) :
    (s.halve line.recorded o i).Ensures st
      (fun halved t => Line.Recorded I Φ t ∧ t.2.length = st.2.length + 1 ∧
        match halved with
        | .found alpha cost => Ending.Concludes s o Ψ t.2 (.flat alpha cost)
        | .narrowed half => half.Narrows s o t.2)
      fun fault t => E fault ∧ Line.Recorded I Φ t := by
  have middle := narrows.middle_pos
  simp only [halve, Attempt.ensures_bind]
  refine (h.recorded_cost middle recorded).mono (fun cost t => ?_) fun _ _ failed => failed
  rintro ⟨recorded, trials⟩
  have count : t.2.length = st.2.length + 1 := by simp [trials]
  split
  case isTrue rejected =>
    have worse : ¬ s.Acceptable o ⟨i.middle, cost⟩ ∨ i.lowCost ≤ cost := by
      simpa [← tooHigh_eq_false_iff] using rejected
    refine ⟨recorded, count, ?_⟩
    rw [trials]
    exact {
      leads := narrows.leads.turned_down hs.decrease_pos descent middle worse
      high_nonneg := middle.le
      ahead := add_pos_of_nonneg_of_pos narrows.leads.low_nonneg middle }
  case isFalse accepted =>
    have better : s.Acceptable o ⟨i.middle, cost⟩ ∧ cost < i.lowCost := by
      simpa [← tooHigh_eq_false_iff] using accepted
    have leads : s.Leads o t.2 i.middle cost := by
      rw [trials]
      exact narrows.leads.taken_up (t := ⟨i.middle, cost⟩) middle better.1 better.2
    rw [Attempt.ensures_bind]
    refine (h.recorded_slope middle recorded).mono (fun slope u => ?_) fun _ _ failed => failed
    rintro ⟨answered, recorded, same⟩
    rw [← same] at count leads
    split
    case isTrue flat =>
      refine ⟨recorded, count, leads, middle, slope, answered, ?_⟩
      simpa [Wolfe.flat] using flat
    case isFalse steep =>
      have high_nonneg : 0 ≤ (i.move i.middle cost slope).high := by
        simp only [Interval.move]
        split
        · exact narrows.leads.low_nonneg
        · exact narrows.high_nonneg
      exact ⟨recorded, count, leads, high_nonneg, add_pos_of_pos_of_nonneg middle high_nonneg⟩

/-- The trials inside an interval keep the invariant, and each permitted halving makes one trial. -/
theorem zoom_ensures (h : line.Answers I Φ Ψ E) (hs : s.Admissible) (descent : o.slope < 0)
    (left : ℕ) {trials : ℕ} {i : Interval ℝ} (recorded : Line.Recorded I Φ st)
    (narrows : i.Narrows s o st.2) (count : st.2.length = trials) :
    (s.zoom line.recorded o left trials i).Ensures st
      (Ended s o I Φ Ψ (trials + left)) fun fault t => E fault ∧ Line.Recorded I Φ t := by
  induction left generalizing st trials i with
  | zero => exact ⟨recorded, count, le_rfl, narrows.leads⟩
  | succ left ih =>
    simp only [zoom, Attempt.ensures_bind]
    refine (halve_ensures h hs descent recorded narrows).mono (fun halved t => ?_)
      fun _ _ failed => failed
    rintro ⟨recorded, grown, outcome⟩
    have count : t.2.length = trials + 1 := by omega
    cases halved with
    | found alpha cost => exact ⟨recorded, count, by simp, outcome⟩
    | narrowed half =>
      dsimp only at outcome ⊢
      split
      · exact ⟨recorded, count, by simp, outcome.leads⟩
      · exact Ended.ensures_mono (ih recorded outcome count) (by omega)

/-- The doublings keep the invariant: the trial before the next one leads all trials. -/
theorem bracket_ensures (h : line.Answers I Φ Ψ E) (hs : s.Admissible) (descent : o.slope < 0)
    (left : ℕ) {trials : ℕ} {before costBefore alpha : ℝ} (recorded : Line.Recorded I Φ st)
    (leads : s.Leads o st.2 before costBefore) (positive : 0 < alpha) (count : st.2.length = trials)
    (moves : 0 < before ∨ 0 < left) :
    (s.bracket line.recorded o left trials before costBefore alpha).Ensures st
      (Ended s o I Φ Ψ (trials + left + s.halvings)) fun fault t => E fault ∧ Line.Recorded I Φ t := by
  induction left generalizing st trials before costBefore alpha with
  | zero =>
    refine ⟨recorded, count, by simp, leads, ?_⟩
    simpa using moves
  | succ left ih =>
    simp only [bracket, Attempt.ensures_bind]
    refine (h.recorded_cost positive recorded).mono (fun cost t => ?_) fun _ _ failed => failed
    rintro ⟨recorded, grown⟩
    have count' : t.2.length = trials + 1 := by simp [grown, count]
    split
    -- the trial is turned down, and the interval reaches from the leader to it
    case isTrue enclosed =>
      have worse : ¬ s.Acceptable o ⟨alpha, cost⟩ ∨ costBefore ≤ cost := by
        rcases Bool.or_eq_true _ _ |>.mp enclosed with high | rises
        · exact .inl (by simp [← tooHigh_eq_false_iff, high])
        · exact .inr (by simpa using (Bool.and_eq_true _ _ |>.mp rises).2)
      have narrows : Interval.Narrows s o ⟨before, alpha, costBefore⟩ t.2 := by
        rw [grown]
        exact {
          leads := leads.turned_down hs.decrease_pos descent positive worse
          high_nonneg := positive.le
          ahead := add_pos_of_nonneg_of_pos leads.low_nonneg positive }
      exact Ended.ensures_mono (zoom_ensures h hs descent s.halvings recorded narrows count')
        (by omega)
    -- the trial becomes the leader
    case isFalse falls =>
      obtain ⟨low, lower⟩ : s.tooHigh o alpha cost = false ∧ (0 < trials → cost < costBefore) := by
        simpa using falls
      have acceptable : s.Acceptable o ⟨alpha, cost⟩ := (s.tooHigh_eq_false_iff o).mp low
      have better : cost < costBefore := by
        rcases Nat.eq_zero_or_pos trials with first | later
        · -- the first trial is compared with the start, which leads an empty list
          have start : costBefore = o.cost :=
            (List.length_eq_zero_iff.mp (count.trans first) ▸ leads).cost_of_nil
          rw [start]
          exact acceptable.cost_lt hs.decrease_pos descent positive
        · exact lower later
      have leads' : s.Leads o t.2 alpha cost := by
        rw [grown]
        exact leads.taken_up (t := ⟨alpha, cost⟩) positive acceptable better
      rw [Attempt.ensures_bind]
      refine (h.recorded_slope positive recorded).mono (fun slope u => ?_) fun _ _ failed => failed
      rintro ⟨answered, recorded, same⟩
      rw [← same] at count' leads'
      split
      case isTrue flat =>
        refine ⟨recorded, count', by simp; omega, leads', positive, slope, answered, ?_⟩
        simpa [Wolfe.flat] using flat
      case isFalse steep =>
        split
        case isTrue rising =>
          have narrows : Interval.Narrows s o ⟨alpha, before, cost⟩ u.2 :=
            ⟨leads', leads.low_nonneg, add_pos_of_pos_of_nonneg positive leads.low_nonneg⟩
          exact Ended.ensures_mono (zoom_ensures h hs descent s.halvings recorded narrows count')
            (by omega)
        case isFalse falling =>
          have doubled : 0 < alpha * 2.0 := by positivity
          exact Ended.ensures_mono (ih recorded leads' doubled count' (.inl positive)) (by omega)

/-- **All trials of a search**: they were made ahead of the start, there are at most as many as the two
loops permit, and the candidate of the ending leads them. -/
theorem pursue_ensures (h : line.Answers I Φ Ψ E) (hs : s.Admissible) (descent : o.slope < 0)
    {state : σ} (hI : I state) :
    (s.pursue line.recorded o).Ensures (state, [])
      (Ended s o I Φ Ψ (s.trials + s.halvings)) fun fault t => E fault ∧ Line.Recorded I Φ t := by
  have recorded : Line.Recorded I Φ (state, ([] : List (Trial ℝ))) := ⟨hI, by simp, by simp⟩
  exact Ended.ensures_mono (bracket_ensures h hs descent s.trials recorded (.start (by simp))
    hs.firstStep_pos rfl (.inr hs.trials_pos)) (by simp)

end Loops

/-- A trial is the best one of a list: it is acceptable, and no acceptable trial has a lower cost. -/
structure Best (trials : List (Trial ℝ)) (t : Trial ℝ) : Prop where
  mem : t ∈ trials
  positive : 0 < t.alpha
  acceptable : s.Acceptable o t
  least : ∀ u ∈ trials, s.Acceptable o u → t.cost ≤ u.cost

/-- A candidate is taken exactly if it has left the start, and then it is the best trial. -/
theorem Leads.best_or_none {s : Wolfe ℝ} {o : Origin ℝ} {trials : List (Trial ℝ)} {low lowCost : ℝ}
    (h : s.Leads o trials low lowCost) :
    (low = 0 ∧ ∀ t ∈ trials, ¬ s.Acceptable o t) ∨ s.Best o trials ⟨low, lowCost⟩ := by
  cases h with
  | start none => exact .inl ⟨rfl, none⟩
  | trial mem positive acceptable least => exact .inr ⟨mem, positive, acceptable, least⟩

/-- An ending leads to no step where no trial is acceptable, and to the best trial elsewhere; a flat
ending leads to a slope of the permitted size. -/
theorem Ending.Concludes.step_cases {s : Wolfe ℝ} {o : Origin ℝ} {Ψ : ℝ → ℝ → Prop}
    {trials : List (Trial ℝ)} {ending : Ending ℝ} (h : ending.Concludes s o Ψ trials) (count : ℕ) :
    ((∃ cause, ending.step s count = .error cause) ∧ ∀ t ∈ trials, ¬ s.Acceptable o t) ∨
      ∃ t, s.Best o trials t ∧ ending.step s count = .ok ⟨t.alpha, t.cost, count⟩ ∧
        ((∀ alpha cost, ending ≠ .exhausted alpha cost) → (∀ i, ending ≠ .narrowed i) →
          ∃ slope, Ψ t.alpha slope ∧ |slope| ≤ -s.curvature * o.slope) := by
  cases ending with
  | flat alpha cost =>
    obtain ⟨leads, positive, flat⟩ := h
    rcases leads.best_or_none with ⟨start, -⟩ | best
    · exact absurd start positive.ne'
    · exact .inr ⟨_, best, rfl, fun _ _ => flat⟩
  | exhausted alpha cost =>
    obtain ⟨leads, positive⟩ := h
    rcases leads.best_or_none with ⟨start, -⟩ | best
    · exact absurd start positive.ne'
    · exact .inr ⟨_, best, by simp [step, positive], fun other => absurd rfl (other _ _)⟩
  | narrowed i =>
    rcases Leads.best_or_none h with ⟨start, none⟩ | best
    · exact .inl ⟨⟨.zoomFailed, by simp [step, start]⟩, none⟩
    · exact .inr ⟨_, best, by simp [step, best.positive], fun _ other => absurd rfl (other _)⟩

end QuasiNewton.Wolfe
