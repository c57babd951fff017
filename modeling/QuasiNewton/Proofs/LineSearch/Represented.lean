import QuasiNewton.Proofs.Exact.Extended
import QuasiNewton.Proofs.LineSearch.Descent

/-!
# Searches along lines with finite answers

A search that starts from a finite cost and slope, along a line all of whose answers are finite, never meets
an infinity: in the extended numbers it does what it does in the real numbers. `Attempt.Represents` puts the
two side by side, with one lemma for every loop of a method, and what is proved of searches in the real
numbers carries over (`Method.search_extended`).

The one operation that could leave the finite numbers is the division of a secant step, and a search that
would divide by zero has settled before.
-/

set_option autoImplicit false

namespace QuasiNewton

open Attempt
open Extended (finite)

variable {σ β γ β' γ' : Type}

/-! ### Attempts that stand for each other -/

/-- An attempt in the extended numbers does what an attempt in the real numbers does: they leave the same
state, and the results of the one stand for those of the other. -/
def Attempt.Represents (f : γ → β) (a : Attempt Extended σ β) (b : Attempt ℝ σ γ) : Prop :=
  ∀ s, (b.outcome s).2 = (a.outcome s).2 ∧
    Agree (fun x y => x = f y) (fun _ _ => True) (a.outcome s).1 (b.outcome s).1

namespace Attempt.Represents

variable {f : γ → β} {a a' : Attempt Extended σ β} {b b' : Attempt ℝ σ γ}

theorem pure (y : γ) : Represents f (Pure.pure (f y) : Attempt Extended σ β) (Pure.pure y) :=
  fun _ => ⟨rfl, .ok rfl⟩

theorem throw (e : Fault Extended) (e' : Fault ℝ) :
    Represents f (MonadExcept.throw e : Attempt Extended σ β) (MonadExcept.throw e') :=
  fun _ => ⟨rfl, .error trivial⟩

theorem ofExcept {r : Except (SearchFault Extended) β} {r' : Except (SearchFault ℝ) γ}
    (h : Agree (fun x y => x = f y) (fun _ _ => True) r r') :
    Represents (σ := σ) f (Attempt.ofExcept (r.mapError .search))
      (Attempt.ofExcept (r'.mapError .search)) := by
  cases h with
  | ok same =>
    subst same
    exact pure _
  | error => exact throw _ _

theorem bind {g : γ' → β'} (h : a.Represents f b) {next : β → Attempt Extended σ β'}
    {next' : γ → Attempt ℝ σ γ'} (k : ∀ y, (next (f y)).Represents g (next' y)) :
    (a >>= next).Represents g (b >>= next') := by
  intro s
  obtain ⟨states, answers⟩ := h s
  rw [outcome_bind, outcome_bind]
  rcases ha : a.outcome s with ⟨result, t⟩
  rcases hb : b.outcome s with ⟨result', t'⟩
  rw [ha, hb] at states answers
  obtain rfl : t' = t := states
  cases answers with
  | ok same =>
    subst same
    exact k _ t'
  | error => exact ⟨rfl, .error trivial⟩

/-- Both attempts take the same branch. -/
theorem ite {c c' : Prop} [Decidable c] [Decidable c'] (same : c ↔ c') (h : c' → a.Represents f b)
    (k : ¬ c' → a'.Represents f b') :
    (if c then a else a').Represents f (if c' then b else b') := by
  by_cases holds : c'
  · rw [if_pos holds, if_pos (same.mpr holds)]
    exact h holds
  · rw [if_neg holds, if_neg fun other => holds (same.mp other)]
    exact k holds

/-- What the attempt in the real numbers ensures, the other one ensures of what its results stand for. -/
theorem ensures (h : a.Represents f b) {s : σ} {P : γ → σ → Prop} {E : Fault ℝ → σ → Prop}
    (ensured : b.Ensures s P E) :
    a.Ensures s (fun x t => ∃ y, x = f y ∧ P y t) fun _ t => ∃ e, E e t := by
  obtain ⟨states, answers⟩ := h s
  unfold Ensures at ensured ⊢
  rcases ha : a.outcome s with ⟨x | x, t⟩ <;> rcases hb : b.outcome s with ⟨y | y, t'⟩ <;>
    rw [ha, hb] at states answers <;> rw [hb] at ensured <;> cases answers <;>
    obtain rfl : t' = t := states
  · exact ⟨y, ensured⟩
  · exact ⟨y, ‹_›, ensured⟩

end Attempt.Represents

/-! ### Lines -/

/-- A line in the extended numbers whose answers at finite step lengths are those of a line in the real
numbers. -/
structure Line.Represents (l : Line Extended σ) (m : Line ℝ σ) : Prop where
  cost : ∀ x, (l.cost (finite x)).Represents finite (m.cost x)
  slope : ∀ x, (l.slope (finite x)).Represents finite (m.slope x)

/-- A line whose answers at finite step lengths are finite. -/
structure Line.Finite (l : Line Extended σ) : Prop where
  cost : ∀ x s, (l.cost (finite x)).Ensures s (fun c _ => Scalar.isFinite c = true) fun _ _ => True
  slope : ∀ x s, (l.slope (finite x)).Ensures s (fun c _ => Scalar.isFinite c = true) fun _ _ => True

/-- An attempt with its result read as a real number; its fault is not kept. -/
def Attempt.real (a : Attempt Extended σ Extended) : Attempt ℝ σ ℝ := fun s =>
  (((a.outcome s).1.map Extended.toReal).mapError fun _ => .integerPoint, (a.outcome s).2)

/-- The line with its answers read as real numbers. -/
def Line.real (l : Line Extended σ) : Line ℝ σ where
  cost x := (l.cost (finite x)).real
  slope x := (l.slope (finite x)).real

theorem Attempt.outcome_real (a : Attempt Extended σ Extended) (s : σ) :
    a.real.outcome s =
      (((a.outcome s).1.map Extended.toReal).mapError fun _ => .integerPoint, (a.outcome s).2) := rfl

theorem Attempt.represents_real {a : Attempt Extended σ Extended}
    (h : ∀ s, a.Ensures s (fun x _ => Scalar.isFinite x = true) fun _ _ => True) :
    a.Represents finite a.real := by
  intro s
  rw [outcome_real]
  rcases run : a.outcome s with ⟨e | x, t⟩
  · exact ⟨rfl, .error trivial⟩
  · obtain ⟨r, rfl⟩ := Extended.isFinite_iff.mp ((h s).of_ok run)
    exact ⟨rfl, .ok rfl⟩

theorem Line.Finite.represents {l : Line Extended σ} (h : l.Finite) : l.Represents l.real where
  cost x := represents_real (h.cost x)
  slope x := represents_real (h.slope x)

/-- What a line answers in the extended numbers, its real counterpart answers as well. -/
theorem Line.Answers.real {l : Line Extended σ} {I : σ → Prop} {Φ Ψ : Extended → Extended → Prop}
    {E : Fault Extended → Prop} (h : l.Answers I Φ Ψ E) (answers : l.Finite) :
    l.real.Answers I (fun x c => Φ (finite x) (finite c)) (fun x c => Ψ (finite x) (finite c))
      fun _ => True := by
  have carried {a : Attempt Extended σ Extended} {P : Extended → Prop} {s : σ}
      (exact_ : a.Ensures s (fun x _ => Scalar.isFinite x = true) fun _ _ => True)
      (ensured : a.Ensures s (fun c t => P c ∧ I t) fun fault t => E fault ∧ I t) :
      a.real.Ensures s (fun c t => P (finite c) ∧ I t) fun _ t => True ∧ I t := by
    rcases run : a.outcome s with ⟨e | x, t⟩
    · simp only [Ensures, outcome_real, run]
      exact ⟨trivial, (ensured.of_error run).2⟩
    · obtain ⟨r, rfl⟩ := Extended.isFinite_iff.mp (exact_.of_ok run)
      simp only [Ensures, outcome_real, run]
      exact ensured.of_ok run
  exact ⟨fun x positive s hs => carried (answers.cost x s) (h.cost (finite x) positive s hs),
    fun x positive s hs => carried (answers.slope x s) (h.slope (finite x) positive s hs)⟩

/-! ### Methods -/

/-- A step read in the extended numbers. -/
def Step.extended (s : Step ℝ) : Step Extended := ⟨finite s.alpha, finite s.cost, s.trials⟩

section Methods

variable {l : Line Extended σ} {m : Line ℝ σ} (h : l.Represents m)

include h

namespace Backtracking

omit h in
/-- The search with its settings read in the extended numbers. -/
def extended (s : Backtracking ℝ) : Backtracking Extended :=
  ⟨finite s.firstStep, finite s.shrink, finite s.decrease, s.trials⟩

variable (s : Backtracking ℝ) (startCost startSlope : ℝ)

theorem searchFrom_represents (left : ℕ) (alpha : ℝ) :
    (s.extended.searchFrom l (finite startCost) (finite startSlope) left (finite alpha)).Represents
      Step.extended (s.searchFrom m startCost startSlope left alpha) := by
  induction left generalizing alpha with
  | zero => exact .throw _ _
  | succ left ih =>
    exact (h.cost alpha).bind fun cost => .ite Iff.rfl
      (fun _ => .pure (Step.mk alpha cost (s.trials - left))) fun _ => ih (alpha * s.shrink)

end Backtracking

namespace Wolfe

omit h in
def extended (s : Wolfe ℝ) : Wolfe Extended :=
  ⟨finite s.firstStep, finite s.decrease, finite s.curvature, s.trials, s.halvings⟩

omit h in
def Origin.extended (o : Origin ℝ) : Origin Extended := ⟨finite o.cost, finite o.slope⟩

omit h in
def Interval.extended (i : Interval ℝ) : Interval Extended :=
  ⟨finite i.low, finite i.high, finite i.lowCost⟩

omit h in
def Halved.extended : Halved ℝ → Halved Extended
  | found alpha cost => found (finite alpha) (finite cost)
  | narrowed half => narrowed half.extended

omit h in
def Ending.extended : Ending ℝ → Ending Extended
  | flat alpha cost => flat (finite alpha) (finite cost)
  | exhausted alpha cost => exhausted (finite alpha) (finite cost)
  | narrowed i => narrowed i.extended

variable (s : Wolfe ℝ) (o : Origin ℝ)

omit h in
theorem Interval.move_extended (i : Interval ℝ) (alpha cost slope : ℝ) :
    i.extended.move (finite alpha) (finite cost) (finite slope) = (i.move alpha cost slope).extended := by
  unfold move
  by_cases falls : 0 ≤ slope * (i.high - i.low)
  · rw [if_pos falls, if_pos (show (0 : Extended) ≤ finite slope * (_ - _) from falls)]
    rfl
  · rw [if_neg falls, if_neg (show ¬ (0 : Extended) ≤ finite slope * (_ - _) from falls)]
    rfl

theorem halve_represents (i : Interval ℝ) :
    (s.extended.halve l o.extended i.extended).Represents Halved.extended (s.halve m o i) := by
  refine (h.cost i.middle).bind fun cost => .ite Iff.rfl (fun _ => .pure (Halved.narrowed (i.cut i.middle)))
    fun _ => ?_
  refine (h.slope i.middle).bind fun slope => .ite Iff.rfl (fun _ => .pure (Halved.found i.middle cost))
    fun _ => ?_
  have moved := i.move_extended i.middle cost slope
  exact moved ▸ .pure (Halved.narrowed (i.move i.middle cost slope))

theorem zoom_represents (left trials : ℕ) (i : Interval ℝ) :
    (s.extended.zoom l o.extended left trials i.extended).Represents (Prod.map Ending.extended id)
      (s.zoom m o left trials i) := by
  induction left generalizing trials i with
  | zero => exact .pure (Ending.narrowed i, trials)
  | succ left ih =>
    refine (halve_represents h s o i).bind fun halved => ?_
    cases halved with
    | found alpha cost => exact .pure (Ending.flat alpha cost, trials + 1)
    | narrowed half =>
      exact .ite Iff.rfl (fun _ => .pure (Ending.narrowed half, trials + 1)) fun _ => ih _ half

theorem bracket_represents (left trials : ℕ) (before costBefore alpha : ℝ) :
    (s.extended.bracket l o.extended left trials (finite before) (finite costBefore)
        (finite alpha)).Represents (Prod.map Ending.extended id)
      (s.bracket m o left trials before costBefore alpha) := by
  induction left generalizing trials before costBefore alpha with
  | zero => exact .pure (Ending.exhausted before costBefore, trials)
  | succ left ih =>
    refine (h.cost alpha).bind fun cost => .ite Iff.rfl (fun _ => zoom_represents h s o _ _ ⟨before, alpha,
      costBefore⟩) fun _ => ?_
    refine (h.slope alpha).bind fun slope => .ite Iff.rfl (fun _ => .pure (Ending.flat alpha cost,
      trials + 1)) fun _ => ?_
    exact .ite Iff.rfl (fun _ => zoom_represents h s o _ _ ⟨alpha, before, cost⟩) fun _ => ih _ _ _ _

omit h in
theorem Ending.step_extended (trials : ℕ) (ending : Ending ℝ) :
    Agree (fun x y => x = Step.extended y) (fun _ _ => True)
      (ending.extended.step s.extended trials) (ending.step s trials) := by
  cases ending with
  | flat alpha cost => exact .ok rfl
  | exhausted alpha cost =>
    by_cases ahead : 0 < alpha
    · have ahead' : (0 : Extended) < finite alpha := ahead
      simp only [extended, step, ahead, ahead', if_true]
      exact .ok rfl
    · have behind : ¬ (0 : Extended) < finite alpha := ahead
      simp only [extended, step, ahead, behind, if_false]
      exact .error trivial
  | narrowed i =>
    by_cases ahead : 0 < i.low
    · have ahead' : (0 : Extended) < i.extended.low := ahead
      simp only [extended, step, ahead, ahead', if_true]
      exact .ok rfl
    · have behind : ¬ (0 : Extended) < i.extended.low := ahead
      simp only [extended, step, ahead, behind, if_false]
      exact .error trivial

theorem search_represents (startCost startSlope : ℝ) :
    (s.extended.search l (finite startCost) (finite startSlope)).Represents Step.extended
      (s.search m startCost startSlope) := by
  exact (bracket_represents h s ⟨startCost, startSlope⟩ s.trials 0 0 startCost s.firstStep).bind
    fun ending => .ofExcept (ending.1.step_extended s ending.2)

end Wolfe

namespace Secant

omit h in
/-- The search with its settings read in the extended numbers. -/
def extended (s : Secant ℝ) : Secant Extended := ⟨finite s.firstStep, finite s.tolerance, s.trials⟩

variable (s : Secant ℝ) (startSlope : ℝ)

omit h in
/-- Where a search has not settled, a secant step is finite. -/
theorem nextStep_extended {slopeBefore slope : ℝ} (open_ : ¬ s.settles startSlope slopeBefore slope = true)
    (before alpha : ℝ) :
    nextStep (finite before) (finite slopeBefore) (finite alpha) (finite slope) =
      finite (nextStep before slopeBefore alpha slope) := by
  have apart : slope - slopeBefore ≠ 0 := by
    intro same
    rw [sub_eq_zero] at same
    simp [settles, same] at open_
  unfold nextStep
  simp only [Extended.sub_finite, Extended.mul_finite, Extended.div_finite _ _ apart]

theorem locate_represents (left : ℕ) (before slopeBefore alpha : ℝ) :
    (s.extended.locate l (finite startSlope) left (finite before) (finite slopeBefore)
        (finite alpha)).Represents (Prod.map finite id)
      (s.locate m startSlope left before slopeBefore alpha) := by
  induction left generalizing before slopeBefore alpha with
  | zero => exact .pure (alpha, 0)
  | succ left ih =>
    refine (h.slope alpha).bind fun slope => .ite Iff.rfl (fun _ => .pure (alpha, left)) fun open_ => ?_
    rw [nextStep_extended s startSlope open_]
    exact .ite Iff.rfl (fun _ => .throw _ _) fun _ => ih _ _ _

theorem search_represents (startCost : ℝ) :
    (s.extended.search l (finite startCost) (finite startSlope)).Represents Step.extended
      (s.search m startCost startSlope) := by
  refine (locate_represents h s startSlope s.trials 0 startSlope s.firstStep).bind fun found => ?_
  exact (h.cost found.1).bind fun cost => .ite Iff.rfl (fun _ => .throw _ _)
    fun _ => .pure (Step.mk found.1 cost (s.trials - found.2))

end Secant

/-- The method with its settings read in the extended numbers. -/
def Method.extended : Method ℝ → Method Extended
  | backtracking s => backtracking s.extended
  | wolfe s => wolfe s.extended
  | secant s => secant s.extended

/-- **A search with finite answers is exact.** -/
theorem Method.search_represents (method : Method ℝ) (startCost startSlope : ℝ) :
    (method.extended.search l (finite startCost) (finite startSlope)).Represents Step.extended
      (method.search m startCost startSlope) := by
  cases method with
  | backtracking s => exact Backtracking.searchFrom_represents h s startCost startSlope _ _
  | wolfe s => exact Wolfe.search_represents h s startCost startSlope
  | secant s => exact Secant.search_represents h s startSlope startCost

end Methods

/-- **A search with finite answers lowers the cost.** A step lies ahead of the start, its cost is what the
line answered there, and this cost does not exceed the cost at the start. -/
theorem Method.search_extended {l : Line Extended σ} {I : σ → Prop} {Φ Ψ : Extended → Extended → Prop}
    {E : Fault Extended → Prop} (h : l.Answers I Φ Ψ E) (answers : l.Finite) {method : Method ℝ}
    (hm : method.Admissible) {startCost startSlope : ℝ} (descent : startSlope < 0) {s : σ} (hI : I s) :
    (method.extended.search l (finite startCost) (finite startSlope)).Ensures s
      (fun step _ => ∃ found : Step ℝ, step = found.extended ∧ 0 < found.alpha ∧ Φ step.alpha step.cost ∧
        found.cost ≤ startCost ∧ (method.Strict → found.cost < startCost))
      fun _ _ => True := by
  have represents := Method.search_represents answers.represents method startCost startSlope
  refine (represents.ensures (Method.search_ensures (h.real answers) hm descent hI)).mono
    (fun step _ found => ?_) fun _ _ _ => trivial
  obtain ⟨found, rfl, -, ahead, answered, low, lower⟩ := found
  exact ⟨found, rfl, ahead, answered, low, lower⟩

end QuasiNewton
