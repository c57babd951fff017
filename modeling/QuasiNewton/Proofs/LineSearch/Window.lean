import QuasiNewton.Proofs.LineSearch.Parabola

/-!
# Wolfe searches on quadratic costs

Along a ray on which a quadratic cost falls and is convex, its values lie on a parabola. On such a line the
doublings of a Wolfe search stay before the window until a trial hits it or jumps over it
(`bracket_of_parabola`), and from then on every halving hits it or keeps an interval of half the width around
it (`halve_of_parabola`). Since such an interval is wider than the window, the search ends at a step length
that satisfies both conditions before its limits are used up: `run_satisfies_both_conditions` states how large
they have to be.
-/

set_option autoImplicit false

namespace QuasiNewton

open Attempt Matrix Tensor

/-! ### Searches from a vector -/

section Starts

variable {σ : Type} {n : ℕ} {family : Family} {x d : Fin n → ℝ} {p : Problem ℝ σ}
  {f : (Fin n → ℝ) → ℝ} {g : (Fin n → ℝ) → Fin n → ℝ} {start : Start ℝ} {l : Ledger σ}

/-- A start at a vector, in the direction of another one. The cost and the gradient there are true if they are
given. -/
structure Start.Describes (start : Start ℝ) (family : Family) (x d : Fin n → ℝ) (cost : ℝ)
    (gradient : Fin n → ℝ) : Prop where
  point : start.point? = some (ofVector family x)
  direction : start.direction? = some (ofVector family d)
  gradient : ∀ v ∈ start.gradient?, v = ofVector family gradient
  cost : ∀ c ∈ start.cost?, c = cost

theorem LineSearch.startGradient_ensures (method : Method ℝ) (computes : p.Computes family f g)
    (h : start.Describes family x d (f x) (g x)) (fits : l.Fits family) :
    ((LineSearch.mk method start).startGradient p (ofVector family x)).Ensures l
      (fun v t => v = ofVector family (g x) ∧ t.Fits family) fun _ _ => False := by
  rcases given : start.gradient? with _ | v
  · simp only [startGradient, given]
    exact (computes.gradient_ensures fits x).mono (fun v t answer => ⟨answer.1, Ledger.fits_of_eq answer.2⟩)
      fun _ _ => id
  · simp only [startGradient, given]
    exact ⟨h.gradient v given, fits⟩

theorem LineSearch.startCost_ensures (method : Method ℝ) (computes : p.Computes family f g)
    (h : start.Describes family x d (f x) (g x)) (fits : l.Fits family) :
    ((LineSearch.mk method start).startCost p (ofVector family x)).Ensures l
      (fun c t => c = f x ∧ t.Fits family) fun _ _ => False := by
  rcases given : start.cost? with _ | c
  · simp only [startCost, given]
    exact (computes.cost_ensures fits x).mono (fun c t answer => ⟨answer.1, Ledger.fits_of_eq answer.2⟩)
      fun _ _ => id
  · simp only [startCost, given, Exact.isFinite_eq, if_true]
    exact ⟨h.cost c given, fits⟩

/-- A search from a vector along a direction of descent is the search of its method along the line. -/
theorem LineSearch.run_ensures (method : Method ℝ) (computes : p.Computes family f g)
    (h : start.Describes family x d (f x) (g x)) (descent : g x ⬝ᵥ d < 0) (fits : l.Fits family)
    {P : Accepted ℝ → Ledger σ → Prop} {E : Fault ℝ → Ledger σ → Prop}
    (search : ∀ t, t.Fits family →
      (method.search (p.line family (ofVector family x) (ofVector family d)) (f x) (g x ⬝ᵥ d)).Ensures t
        (fun step u => P ⟨ofVector family (x + step.alpha • d), step.cost, step.alpha, step.trials⟩ u) E) :
    ((LineSearch.mk method start).run p).Ensures l P E := by
  simp only [run, h.point, h.direction, Family.ofTensor_ofVector, ofExcept_of_ok, pure_bind, ensures_bind]
  refine (startGradient_ensures method computes h fits).mono (fun v t => ?_) fun _ _ => False.elim
  rintro ⟨rfl, fits⟩
  refine (startCost_ensures method computes h fits).mono (fun c u => ?_) fun _ _ => False.elim
  rintro ⟨rfl, fits⟩
  simp only [Family.dot_ofVector, ofOperands_of_ok, pure_bind, if_pos descent, Problem.pointAt,
    Family.scaledAdd_ofVector, ensures_bind, ensures_pure]
  exact search u fits

end Starts

namespace Wolfe

open Origin (Parabola)

/-! ### The two loops -/

section Loops

variable {σ : Type} {s : Wolfe ℝ} {o : Origin ℝ} {line : Line ℝ σ} {I : σ → Prop} {st : σ}

variable (q : o.Parabola)

/-- A line whose costs and slopes ahead of the start are those of a parabola, and which does not fail. -/
def Origin.Parabola.Describes (line : Line ℝ σ) (I : σ → Prop) : Prop :=
  line.Answers I (fun alpha cost => cost = q.cost alpha) (fun alpha slope => slope = q.slope alpha)
    fun _ => False

/-- What the middle of an interval around the window leads to: it satisfies both conditions, or one half of
the interval has the window in it. -/
inductive Origin.Parabola.Halves (s : Wolfe ℝ) (i : Interval ℝ) : Halved ℝ → Prop
  | found {alpha cost : ℝ} (fulfilled : q.Fulfilled s alpha cost) : Halves s i (.found alpha cost)
  | narrowed {half : Interval ℝ} (encloses : q.Encloses s half) (width : half.width = i.width / 2) :
    Halves s i (.narrowed half)

/-- An ending at a step length that satisfies both conditions. -/
inductive Origin.Parabola.Hit (s : Wolfe ℝ) : Ending ℝ → Prop
  | flat {alpha cost : ℝ} (fulfilled : q.Fulfilled s alpha cost) : Hit s (.flat alpha cost)

variable {q}

/-- **Halving keeps the window.** -/
theorem halve_of_parabola (h : q.Describes line I) (hs : s.Admissible) {i : Interval ℝ}
    (encloses : q.Encloses s i) (hI : I st) :
    (s.halve line o i).Ensures st (fun halved t => q.Halves s i halved ∧ I t) fun _ _ => False := by
  have positive := encloses.middle_pos q hs
  simp only [halve, ensures_bind]
  refine (h.cost i.middle positive st hI).mono (fun cost t => ?_) fun _ _ failed => failed.1
  rintro ⟨rfl, kept⟩
  split
  case isTrue rejected =>
    refine ⟨.narrowed (encloses.cut q (fun allowed => ?_) hs) i.width_cut, kept⟩
    rcases Bool.or_eq_true _ _ |>.mp rejected with high | worse
    · exact absurd ((q.tooHigh_iff s positive).mp high) (not_lt.mpr allowed)
    · exact of_decide_eq_true worse
  case isFalse accepted =>
    have low : s.tooHigh o i.middle (q.cost i.middle) = false :=
      (Bool.or_eq_false_iff.mp (Bool.eq_false_iff.mpr accepted)).1
    have allowed : i.middle ≤ q.lowEnd s :=
      not_lt.mp (mt (q.tooHigh_iff s positive).mpr (Bool.eq_false_iff.mp low))
    rw [ensures_bind]
    refine (h.slope i.middle positive t kept).mono (fun slope u => ?_) fun _ _ failed => failed.1
    rintro ⟨rfl, kept⟩
    split
    case isTrue flat => exact ⟨.found (q.fulfilled s positive low flat), kept⟩
    case isFalse steep =>
      exact ⟨.narrowed (encloses.move q allowed (mt (q.flat_iff s).mpr steep) hs) (i.width_move _ _), kept⟩

/-- An interval that is no wider than the permitted halvings make up for is halved until a midpoint satisfies
both conditions: a window that is not too short keeps the interval from being given up. -/
theorem zoom_of_parabola (h : q.Describes line I) (hs : s.Admissible) (wide : 1e-12 ≤ q.window s)
    (left : ℕ) {trials : ℕ} {i : Interval ℝ} (encloses : q.Encloses s i)
    (enough : i.width ≤ 2 ^ left * q.window s) (hI : I st) :
    (s.zoom line o left trials i).Ensures st (fun r t => q.Hit s r.1 ∧ I t) fun _ _ => False := by
  induction left generalizing st trials i with
  | zero =>
    rw [pow_zero, one_mul] at enough
    exact absurd encloses.window_lt (not_lt.mpr enough)
  | succ left ih =>
    simp only [zoom, ensures_bind]
    refine (halve_of_parabola h hs encloses hI).mono (fun halved t => ?_) fun _ _ => id
    rintro ⟨halves, kept⟩
    cases halves with
    | found fulfilled => exact ⟨.flat fulfilled, kept⟩
    | @narrowed half encloses width =>
      have long : half.short = false := decide_eq_false (not_lt.mpr (wide.trans encloses.window_lt.le))
      have enough : half.width ≤ 2 ^ left * q.window s := by
        rw [pow_succ] at enough
        linarith
      simp only [long, Bool.false_eq_true, if_false]
      exact ih encloses enough kept

/-- The next trial of the doublings: the last one lies before the window, no further back than the limits of
an interval permit, and the `left` trials that are permitted lead up to the window. -/
structure Origin.Parabola.Nears (q : o.Parabola) (s : Wolfe ℝ) (left : ℕ) (last alpha : ℝ) : Prop where
  left_pos : 0 < left
  reaches : 2 * q.near s ≤ alpha * 2 ^ left
  last_nonneg : 0 ≤ last
  last_lt : last < alpha
  before : last < q.near s
  close : alpha - last ≤ max s.firstStep q.minimum

/-- After a trial before the window its double is the next one. -/
theorem Origin.Parabola.Nears.double {left : ℕ} {last alpha : ℝ} (h : q.Nears s (left + 1) last alpha)
    (hs : s.Admissible) (before : alpha < q.near s) : q.Nears s left alpha (alpha * 2.0) := by
  have positive : 0 < alpha := h.last_nonneg.trans_lt h.last_lt
  have reaches : 2 * q.near s ≤ alpha * 2.0 * 2 ^ left := by
    have reaches := h.reaches
    rw [pow_succ] at reaches
    linarith
  have beyondLast : alpha * 2.0 - alpha ≤ q.minimum := by
    have less := before.trans (q.near_lt_minimum hs)
    linarith
  refine ⟨Nat.pos_of_ne_zero fun none => ?_, reaches, positive.le, by linarith, before,
    beyondLast.trans (le_max_right _ _)⟩
  rw [none, pow_zero] at reaches
  linarith

/-- **The doublings hit the window or jump over it**, and what is jumped over is narrow enough. -/
theorem bracket_of_parabola (h : q.Describes line I) (hs : s.Admissible) (wide : 1e-12 ≤ q.window s)
    (enough : max s.firstStep q.minimum ≤ 2 ^ s.halvings * q.window s) (left trials : ℕ)
    {last alpha : ℝ} (nears : q.Nears s left last alpha) (hI : I st) :
    (s.bracket line o left trials last (q.cost last) alpha).Ensures st
      (fun r t => q.Hit s r.1 ∧ I t) fun _ _ => False := by
  induction left generalizing st trials last alpha with
  | zero => exact absurd nears.left_pos (lt_irrefl 0)
  | succ left ih =>
    have positive : 0 < alpha := nears.last_nonneg.trans_lt nears.last_lt
    have ends : q.near s + q.flatEnd s = 2 * q.minimum := q.near_add_flatEnd
    have narrow : |alpha - last| ≤ 2 ^ s.halvings * q.window s := by
      rw [abs_of_pos (sub_pos.mpr nears.last_lt)]
      exact nears.close.trans enough
    simp only [bracket, ensures_bind]
    refine (h.cost alpha positive st hI).mono (fun cost t => ?_) fun _ _ failed => failed.1
    rintro ⟨rfl, kept⟩
    split
    case isTrue enclosed =>
      have beyond : q.far s < alpha := by
        rcases Bool.or_eq_true _ _ |>.mp enclosed with high | rises
        · exact (min_le_right _ _).trans_lt ((q.tooHigh_iff s positive).mp high)
        · have noLess : q.cost last ≤ q.cost alpha :=
            of_decide_eq_true (Bool.and_eq_true _ _ |>.mp rises).2
          have middle := q.le_add_of_cost_le nears.last_lt noLess
          exact (min_le_left _ _).trans_lt (by linarith [nears.before])
      exact zoom_of_parabola h hs wide s.halvings (.upwards nears.last_nonneg nears.before beyond) narrow kept
    case isFalse falls =>
      have low : s.tooHigh o alpha (q.cost alpha) = false :=
        (Bool.or_eq_false_iff.mp (Bool.eq_false_iff.mpr falls)).1
      have allowed : alpha ≤ q.lowEnd s :=
        not_lt.mp (mt (q.tooHigh_iff s positive).mpr (Bool.eq_false_iff.mp low))
      rw [ensures_bind]
      refine (h.slope alpha positive t kept).mono (fun slope u => ?_) fun _ _ failed => failed.1
      rintro ⟨rfl, kept⟩
      split
      case isTrue flat => exact ⟨.flat (q.fulfilled s positive low flat), kept⟩
      case isFalse steep =>
        have outside := mt (q.flat_iff s).mpr steep
        split
        case isTrue rising =>
          have after : q.near s ≤ alpha :=
            (q.near_lt_minimum hs).le.trans (not_lt.mp (mt q.slope_neg_iff.mpr (not_lt.mpr rising)))
          have beyond : q.flatEnd s < alpha := not_le.mp fun inside => outside ⟨after, inside⟩
          refine zoom_of_parabola h hs wide s.halvings (.downwards nears.last_nonneg nears.before
            ((min_le_left _ _).trans_lt beyond) allowed) ?_ kept
          rwa [Interval.width, abs_sub_comm]
        case isFalse falling =>
          have inside : alpha ≤ q.flatEnd s :=
            (q.slope_neg_iff.mp (not_le.mp falling)).le.trans (q.minimum_lt_flatEnd hs).le
          exact ih _ (nears.double hs (not_le.mp fun after => outside ⟨after, inside⟩)) kept

/-- **A search along a parabola satisfies both conditions** if its doublings reach the window and its halvings
make up for the widest interval that they can be started with. -/
theorem search_of_parabola (h : q.Describes line I) (hs : s.Admissible)
    (reaches : q.near s ≤ s.firstStep * 2 ^ (s.trials - 1))
    (enough : max s.firstStep q.minimum / 2 ^ s.halvings ≤ q.window s) (wide : 1e-12 ≤ q.window s)
    (hI : I st) :
    (s.search line o.cost o.slope).Ensures st (fun step t => q.Fulfilled s step.alpha step.cost ∧ I t)
      fun _ _ => False := by
  have doubled : 2 * q.near s ≤ s.firstStep * 2 ^ s.trials := by
    rw [← Nat.sub_add_cancel hs.trials_pos, pow_succ]
    linarith
  have nears : q.Nears s s.trials 0 s.firstStep :=
    ⟨hs.trials_pos, doubled, le_rfl, hs.firstStep_pos, q.near_pos hs, by simp⟩
  have narrow : max s.firstStep q.minimum ≤ 2 ^ s.halvings * q.window s := by
    rwa [div_le_iff₀' (by positivity)] at enough
  have pursued := bracket_of_parabola h hs wide narrow s.trials 0 nears hI
  rw [q.cost_zero] at pursued
  simp only [search, pursue, ensures_bind]
  refine pursued.mono (fun r t => ?_) fun _ _ => id
  rintro ⟨hit, kept⟩
  obtain ⟨ending, trials⟩ := r
  cases hit with
  | flat fulfilled => exact ⟨fulfilled, kept⟩

end Loops

/-! ### Quadratic costs -/

section Quadratics

variable {n : ℕ} {A : Matrix (Fin n) (Fin n) ℝ} {b : Fin n → ℝ}

/-- The parabola of a quadratic cost along a ray on which it falls and is convex. -/
noncomputable def quadraticParabola {x d : Fin n → ℝ} (const : ℝ) (convex : 0 < d ⬝ᵥ A *ᵥ d)
    (descent : (A *ᵥ x - b) ⬝ᵥ d < 0) :
    (Origin.mk (Quadratic.value A b const x) ((A *ᵥ x - b) ⬝ᵥ d)).Parabola where
  curvature := d ⬝ᵥ A *ᵥ d
  minimum := -((A *ᵥ x - b) ⬝ᵥ d) / (d ⬝ᵥ A *ᵥ d)
  curvature_pos := convex
  minimum_pos := div_pos (neg_pos.mpr descent) convex
  slope_eq := by rw [mul_div_cancel₀ _ convex.ne', neg_neg]

variable {σ : Type}

/-- **A Wolfe search on a quadratic cost satisfies both conditions.** Along the ray from `x` in the direction `d`
the cost is lowest at the step length `minimum`, and the step lengths that satisfy both conditions lie in a window
of the width `window`. The search does not fail if its doublings reach the window, its halvings make up for the
widest interval, and the window is not shorter than the intervals that are given up. -/
theorem run_satisfies_both_conditions (p : Problem ℝ σ) (A : Matrix (Fin n) (Fin n) ℝ) (symm : A.IsSymm)
    (b : Fin n → ℝ) (const : ℝ) (family : Family)
    (computes : p.Computes family (Quadratic.value A b const) fun x => A *ᵥ x - b) (x d : Fin n → ℝ)
    (convex : 0 < d ⬝ᵥ A *ᵥ d) (descent : (A *ᵥ x - b) ⬝ᵥ d < 0) (s : Wolfe ℝ) (hs : s.Admissible)
    (start : Start ℝ)
    (configured : start.Describes family x d (Quadratic.value A b const x) (A *ᵥ x - b))
    (ledger : Ledger σ) (fits : ledger.Fits family) :
    let slope := (A *ᵥ x - b) ⬝ᵥ d
    let minimum := -slope / (d ⬝ᵥ A *ᵥ d)
    let window := minimum * min (2 * s.curvature) (1 + s.curvature - 2 * s.decrease)
    (1 - s.curvature) * minimum ≤ s.firstStep * 2 ^ (s.trials - 1) →
    max s.firstStep minimum / 2 ^ s.halvings ≤ window →
    1e-12 ≤ window →
    ∃ found after, ((LineSearch.mk (.wolfe s) start).run p).outcome ledger = (.ok found, after) ∧
      0 < found.alpha ∧ found.point = ofVector family (x + found.alpha • d) ∧
      found.cost = Quadratic.value A b const (x + found.alpha • d) ∧
      found.cost ≤ Quadratic.value A b const x + s.decrease * found.alpha * slope ∧
      |(A *ᵥ (x + found.alpha • d) - b) ⬝ᵥ d| ≤ s.curvature * |slope| := by
  intro slope minimum window reaches enough wide
  let q := quadraticParabola const convex descent
  have ray (alpha : ℝ) : Quadratic.value A b const (x + alpha • d) = q.cost alpha :=
    (Quadratic.value_ray A b const symm x d alpha).trans (q.cost_eq alpha).symm
  have slopes (alpha : ℝ) : (A *ᵥ (x + alpha • d) - b) ⬝ᵥ d = q.slope alpha :=
    Quadratic.slope_ray A b x d alpha
  have width : q.window s = window := q.window_eq s
  rw [← width] at enough wide
  have describes : q.Describes (p.line family (ofVector family x) (ofVector family d))
      fun l => l.Fits family := by
    simpa only [Origin.Parabola.Describes, ray, slopes] using computes.line_answers x d
  have searched := LineSearch.run_ensures (.wolfe s) computes configured descent fits
    (P := fun found _ => q.Fulfilled s found.alpha found.cost ∧
      found.point = ofVector family (x + found.alpha • d)) (E := fun _ _ => False)
    fun l fits => (search_of_parabola describes hs reaches enough wide fits).mono
      (fun step t hit => ⟨hit.1, rfl⟩) fun _ _ => id
  obtain ⟨found, after, run, fulfilled, point⟩ := searched.exists_ok
  refine ⟨found, after, run, fulfilled.positive, point, ?_, fulfilled.decrease, ?_⟩
  · rw [ray, fulfilled.cost_eq]
  · rw [slopes]
    exact fulfilled.flat

/-- A search with a long first step, only one doubling, and little of the slope left in the end. -/
noncomputable def exacting : Wolfe ℝ := ⟨16, 1e-4, 0.1, 1, 10⟩

/-- For instance, on half the square of the length such a search from `(3, 4)` towards the origin comes within a
tenth of the full step. -/
theorem halfSquare_satisfies_both_conditions :
    ∃ found after, ((LineSearch.mk (.wolfe exacting) ⟨some (ofVector .lenient ![3, 4]), none, some 12.5,
      some (ofVector .lenient ![-3, -4])⟩).run Quadratic.halfSquare.problem).outcome (.fresh none ()) =
        (.ok found, after) ∧ |found.alpha - 1| ≤ 0.1 := by
  let x : Fin 2 → ℝ := ![3, 4]
  let d : Fin 2 → ℝ := ![-3, -4]
  have admissible : exacting.Admissible := by constructor <;> norm_num [exacting]
  have curvature : d ⬝ᵥ (1 : Matrix (Fin 2) (Fin 2) ℝ) *ᵥ d = 25 := by
    norm_num [d, dotProduct, Fin.sum_univ_two]
  have slope : ((1 : Matrix (Fin 2) (Fin 2) ℝ) *ᵥ x - 0) ⬝ᵥ d = -25 := by
    norm_num [x, d, dotProduct, Fin.sum_univ_two]
  have cost : (12.5 : ℝ) = Quadratic.value 1 0 0 x := by
    norm_num [Quadratic.value, x, dotProduct, Fin.sum_univ_two]
  obtain ⟨found, after, run, -, -, -, -, flat⟩ :=
    run_satisfies_both_conditions Quadratic.halfSquare.problem 1 Matrix.isSymm_one 0 0 .lenient
      (Quadratic.halfSquare_computes .lenient) x d (by rw [curvature]; norm_num) (by rw [slope]; norm_num)
      exacting admissible ⟨some (ofVector .lenient x), none, some 12.5, some (ofVector .lenient d)⟩
      ⟨rfl, rfl, by simp, by simpa using cost⟩ (.fresh none ()) (by simp [Ledger.Fits, Ledger.fresh])
      (by rw [slope, curvature]; norm_num [exacting]) (by rw [slope, curvature]; norm_num [exacting])
      (by rw [slope, curvature]; norm_num [exacting])
  refine ⟨found, after, run, ?_⟩
  have slopeThere : (1 *ᵥ (x + found.alpha • d) - 0) ⬝ᵥ d = 25 * (found.alpha - 1) := by
    rw [Quadratic.slope_ray, slope, curvature]
    ring
  rw [slope, slopeThere, abs_mul] at flat
  norm_num [exacting] at flat ⊢
  linarith

end Quadratics

end Wolfe

end QuasiNewton
