import QuasiNewton.Decimal.Text
import QuasiNewton.Proofs.Binary64.Order
import QuasiNewton.Proofs.Exact.Arrays
import QuasiNewton.Proofs.RankOne.Square

/-!
# The guard of the correction

A correction is meant to be made only if `v · y` is not zero and not smaller than a threshold
(`Guard.Passes`). It is skipped where one of the opposite comparisons holds (`Guard.Rejects`). In double
precision the two tests are the same as long as both sides of the comparison are defined; an overflow can leave
one of them undefined, and then the correction is made although it does not pass: `update_decides` tells both
cases apart, and `huge_change_unguarded` is a run into the second one.

Vectors of numbers and a square matrix always have a guard and a correction, whatever their entries are. In the
lenient family they may differ in precision.
-/

set_option autoImplicit false

namespace QuasiNewton

open Attempt
open QuasiNewton.Decimal (NumberText)

variable {α σ : Type} [Scalar α]

/-! ### Arrays of numbers -/

theorem Precision.join_self (p : Precision) : p.join p = p := by cases p <;> rfl

namespace Tensor

/-- An array of a family with the given axes, of which there is at least one, whose entries are numbers of a
precision. -/
structure Numbers (family : Family) (p : Precision) (k : Nat) (s : Shape) (t : Tensor α) : Prop where
  known : t.family? = some family
  type : t.entries.type = .real p
  extent : t.extent = k :: s

namespace Numbers

variable {family : Family} {p q : Precision} {n k l : Nat} {s s' : Shape} {t u : Tensor α}

omit [Scalar α] in
theorem meet (ht : t.Numbers family p k s) (hu : u.Numbers family q l s') :
    Tensor.meet t u = .ok ⟨family, family⟩ := by
  rw [Tensor.meet, ht.known, hu.known]
  cases family <;> rfl

omit [Scalar α] in
/-- They meet in the larger one of their precisions. -/
theorem meetingType (ht : t.Numbers family p k s) (hu : u.Numbers family q l s') :
    Tensor.meetingType family t u = .real (p.join q) := by
  cases family with
  | lenient => rw [Tensor.meetingType, ht.type, hu.type, ElementType.joinLenient]
  | strict =>
    rw [Tensor.meetingType, ht.type, hu.type, ht.extent, hu.extent]
    rfl

/-- What two of them are combined to is an array of numbers if it has axes. -/
theorem of_combine (family : Family) (t u : Tensor α)
    (f : (ε : Type) → Arithmetic ε → Dense ε → Dense ε → Option (Dense ε))
    {c : Dense α} (made : f α (.real p) (t.entries.toReal p) (u.entries.toReal p) = some c)
    (axes : c.shape = k :: s) :
    ∃ e, Entries.combine (.real p) f t.entries u.entries = some e ∧
      (⟨some family, e⟩ : Tensor α).Numbers family p k s := by
  refine ⟨.real p c, by rw [Entries.combine, made, Option.map_some], rfl, rfl, axes⟩

theorem zipWith (f : (ε : Type) → Arithmetic ε → ε → ε → ε) (ht : t.Numbers family p k s)
    (hu : u.Numbers family q k s) :
    ∃ v, Tensor.zipWith f t u = .ok v ∧ v.Numbers family (p.join q) k s := by
  have shape : (t.entries.toReal (p.join q)).shape = k :: s :=
    (Entries.shape_toReal _ _).trans ht.extent
  have same : (u.entries.toReal (p.join q)).shape = (t.entries.toReal (p.join q)).shape :=
    ((Entries.shape_toReal _ _).trans hu.extent).trans shape.symm
  obtain ⟨e, made, numbers⟩ := of_combine family t u
    (fun ε ar => Dense.combine ar (f ε ar)) (dif_pos same) shape
  simp only [Tensor.zipWith, ht.meet hu, ht.meetingType hu, bind, Except.bind, made]
  exact ⟨_, rfl, numbers⟩

theorem add (ht : t.Numbers family p k s) (hu : u.Numbers family q k s) :
    ∃ v, Tensor.add t u = .ok v ∧ v.Numbers family (p.join q) k s := by
  simp only [Tensor.add, ht.known]
  exact zipWith _ ht hu

theorem scale (ht : t.Numbers family p k s) (c : α) :
    ∃ v, t.scale (.real c) = .ok v ∧ v.Numbers family p k s := by
  obtain ⟨family?, e⟩ := t
  obtain rfl : family? = some family := ht.known
  cases e with
  | whole xs => cases ht.type
  | real p' xs =>
    obtain rfl := ElementType.real.inj ht.type
    refine ⟨⟨some family, (Factor.real c).scale family (.real p' xs)⟩, ?_, rfl, rfl, ht.extent⟩
    cases family <;> rfl

/-- Where the demands of the strict family are met, what comes behind them is the whole. -/
theorem of_demands {β : Type} {kinds fits : Prop} {_ : Decidable kinds} {_ : Decidable fits}
    {rest : Except Mismatch β} (met : family = .strict → kinds ∧ fits) :
    (do
      if family = Family.strict then
        unless kinds do throw Mismatch.kind
        unless fits do throw (Mismatch.operands .strict)
      rest) = rest := by
  cases family with
  | lenient => rfl
  | strict =>
    rw [if_pos rfl, if_pos (met rfl).1, if_pos (met rfl).2]

omit [Scalar α] in
theorem strict (ht : t.Numbers family p k s) (h : family = .strict) : t.family? = some .strict :=
  ht.known.trans (congrArg some h)

omit [Scalar α] in
theorem isVector (ht : t.Numbers family p k []) : Family.isVector t = true := by
  rw [Family.isVector, ht.extent]
  rfl

/-- The product with a vector; the strict family wants one precision on both sides. -/
theorem mulVec (ht : t.Numbers family p n [n]) (hu : u.Numbers family q n [])
    (uniform : family = .strict → p = q) :
    ∃ v, family.mulVec t u = .ok v ∧ v.Numbers family (p.join q) n [] := by
  obtain ⟨a, matrix, -⟩ := Dense.Square.of_shape ((Entries.shape_toReal (p.join q) _).trans ht.extent)
  obtain ⟨x, vector⟩ := Dense.exists_ofFn ((Entries.shape_toReal (p.join q) _).trans hu.extent)
  have product := Dense.mul_matrix_ofFn (.real (p.join q)) x a
  rw [← matrix, ← vector] at product
  obtain ⟨e, made, numbers⟩ := of_combine family t u (fun _ ar => Dense.mul ar) product rfl
  have same : ¬ (family = .strict ∧ t.entries.type ≠ u.entries.type) := by
    rw [ht.type, hu.type]
    exact fun ⟨strict, different⟩ => different (congrArg ElementType.real (uniform strict))
  have multiplied : t.mul u = .ok ⟨some family, e⟩ := by
    simp only [Tensor.mul, ht.meet hu, ht.meetingType hu, bind, Except.bind, if_neg same, made]
  refine ⟨_, ?_, numbers⟩
  rw [← multiplied, Family.mulVec]
  exact of_demands fun h => ⟨⟨ht.strict h, hu.strict h⟩, congrArg List.length ht.extent, hu.isVector⟩

/-- The inner product of two vectors; the strict family wants one precision on both sides. -/
theorem dot (ht : t.Numbers family p n []) (hu : u.Numbers family q n [])
    (uniform : family = .strict → p = q) : ∃ x, family.dot t u = .ok x := by
  obtain ⟨x, left⟩ := Dense.exists_ofFn ((Entries.shape_toReal (p.join q) _).trans ht.extent)
  obtain ⟨y, right⟩ := Dense.exists_ofFn ((Entries.shape_toReal (p.join q) _).trans hu.extent)
  have contracted : Family.contraction t u =
      .value ((Arithmetic.real (p.join q)).dot (.ofFn x) (.ofFn y)) := by
    rw [Family.contraction, ht.type, hu.type, ← Dense.inner_ofFn, ← left, ← right]
    rfl
  refine ⟨(Arithmetic.real (p.join q)).dot (.ofFn x) (.ofFn y), ?_⟩
  have answered : Family.ofContraction family (Family.contraction t u) =
      .ok ((Arithmetic.real (p.join q)).dot (.ofFn x) (.ofFn y)) := by
    rw [contracted, Family.ofContraction]
  rw [← answered]
  exact of_demands fun h =>
    ⟨⟨ht.strict h, hu.strict h⟩, ht.isVector, hu.isVector, by rw [ht.type, hu.type, uniform h]⟩

/-- The outer square of a vector. -/
theorem outer (ht : t.Numbers family p n []) :
    ∃ v, family.outer t t = .ok v ∧ v.Numbers family (p.join p) n [n] := by
  obtain ⟨x, vector⟩ := Dense.exists_ofFn ((Entries.shape_toReal (p.join p) _).trans ht.extent)
  obtain ⟨e, made, numbers⟩ := of_combine family t t (p := p.join p) (k := n) (s := [n])
    (fun _ ar x y => some (Dense.outer ar x.entries y.entries)) rfl (by rw [vector]; rfl)
  refine ⟨_, (of_demands fun h => ⟨⟨ht.strict h, ht.strict h⟩, ht.isVector, ht.isVector⟩).trans ?_, numbers⟩
  rw [ht.meetingType ht, made]

end Numbers

end Tensor

/-! ### The guard -/

namespace RankOne

/-- What decides on a correction: `v · y`, and how large it has to be. -/
structure Guard (α : Type) where
  denominator : α
  threshold : α

/-- The guard for a step and the change of the gradient along it. -/
def guard (r : RankOne α) (s y : Tensor α) : Except Mismatch (Guard α) := do
  let v ← s.sub (← r.family.mulVec r.inverse y)
  return ⟨← r.family.dot v y, r.tolerances.denominator * (← r.family.dot s s) * (← r.family.dot v v)⟩

namespace Guard

/-- The condition under which a correction is meant to be made. -/
def Passes (g : Guard α) : Prop :=
  (g.denominator == 0) = false ∧ g.threshold ≤ Scalar.abs g.denominator

/-- The condition under which a correction is skipped. -/
def Rejects (g : Guard α) : Prop :=
  (g.denominator == 0) = true ∨ Scalar.abs g.denominator < g.threshold

/-- One side of the comparison is no number. -/
def Undefined (g : Guard Float) : Prop :=
  (Scalar.abs g.denominator).isNaN = true ∨ g.threshold.isNaN = true

instance (g : Guard Float) : Decidable g.Passes := inferInstanceAs (Decidable (_ ∧ _))

instance (g : Guard Float) : Decidable g.Undefined := inferInstanceAs (Decidable (_ ∨ _))

/-- A guard that is defined rejects exactly what does not pass. -/
theorem not_rejects_iff_passes {g : Guard Float} (defined : ¬ g.Undefined) : ¬ g.Rejects ↔ g.Passes := by
  obtain ⟨size, threshold⟩ := not_or.mp defined
  rw [Passes, Rejects, not_or, Bool.not_eq_true,
    Binary64.le_iff_not_lt (Bool.not_eq_true _ ▸ size) (Bool.not_eq_true _ ▸ threshold)]

/-- A guard that is undefined never passes, and rejects nothing but a denominator of zero. -/
theorem not_rejects_iff_of_undefined {g : Guard Float} (undefined : g.Undefined) :
    ¬ g.Rejects ↔ (g.denominator == 0) = false := by
  rw [Rejects, not_or, Bool.not_eq_true, and_iff_left (Binary64.not_lt_of_isNaN undefined)]

theorem not_passes_of_undefined {g : Guard Float} (undefined : g.Undefined) : ¬ g.Passes :=
  fun passes => Binary64.not_le_of_isNaN undefined.symm passes.2

end Guard

/-- A square matrix and two vectors of numbers, all of the family of a solver; the strict family does not mix
precisions. -/
inductive Operands (r : RankOne α) (n : Nat) (s y : Tensor α) : Prop
  | intro {p q q' : Precision} (matrix : r.inverse.Numbers r.family p n [n])
    (step : s.Numbers r.family q n []) (change : y.Numbers r.family q' n [])
    (uniform : r.family = .strict → p = q ∧ p = q')

variable {r : RankOne α} {n : Nat} {s y : Tensor α}

/-- Such operands have a guard and a correction, which is made unless the guard rejects it. -/
theorem correction_of_operands (h : r.Operands n s y) :
    ∃ g c, r.guard s y = .ok g ∧ r.correction s y = .ok c ∧ (c.isMade = true ↔ ¬ g.Rejects) := by
  obtain ⟨matrix, step, change, uniform⟩ := h
  obtain ⟨z, multiplied, hz⟩ := matrix.mulVec change fun strict => (uniform strict).2
  obtain ⟨v, subtracted, hv⟩ := step.zipWith (fun _ ar => ar.sub) hz
  obtain ⟨denominator, hdenominator⟩ := hv.dot change fun strict => by
    obtain ⟨rfl, rfl⟩ := uniform strict
    rw [Precision.join_self, Precision.join_self]
  obtain ⟨length, hlength⟩ := step.dot step fun _ => rfl
  obtain ⟨missing, hmissing⟩ := hv.dot hv fun _ => rfl
  obtain ⟨square, squared, hsquare⟩ := hv.outer
  obtain ⟨scaled, multiple, hscaled⟩ := hsquare.scale (1 / denominator)
  obtain ⟨m, added, -⟩ := matrix.add hscaled
  let g : Guard α := ⟨denominator, r.tolerances.denominator * length * missing⟩
  have guarded : r.guard s y = .ok g := by
    simp only [guard, Tensor.sub, multiplied, subtracted, hdenominator, hlength, hmissing, bind, Except.bind]
    rfl
  have tested : (denominator == 0 || decide (Scalar.abs denominator < g.threshold)) = true ↔ g.Rejects := by
    rw [Bool.or_eq_true, decide_eq_true_iff, Guard.Rejects]
  by_cases rejected : g.Rejects
  · refine ⟨g, .skipped (Scalar.abs denominator) g.threshold, guarded, ?_,
      iff_of_false nofun (not_not.mpr rejected)⟩
    simp only [correction, Tensor.sub, multiplied, subtracted, hdenominator, hlength, hmissing, bind, Except.bind]
    exact if_pos (tested.mpr rejected)
  · refine ⟨g, .made m, guarded, ?_, iff_of_true rfl rejected⟩
    simp only [correction, Tensor.sub, multiplied, subtracted, hdenominator, hlength, hmissing, bind, Except.bind]
    rw [if_neg (mt tested.mp rejected)]
    simp only [squared, multiple, added]
    rfl

/-- **Which corrections are made.** A square matrix and two vectors always have a guard, and the answer tells what
was done: nothing but a skip was counted, or the matrix was replaced and a correction was counted. As long as the
guard is defined, exactly the corrections that pass are made. Where an overflow has left one of its sides
undefined, no correction passes, but those with a denominator other than zero are made. -/
theorem update_decides (w : Workspace (RankOne Float) σ) {n : Nat} {s y : Tensor Float}
    (operands : w.solver.Operands n s y) :
    ∃ g answer w', w.solver.guard s y = .ok g ∧ (update s y).outcome w = (.ok answer, w') ∧
      (answer = false → w'.solver = { w.solver with skips := w.solver.skips + 1 }) ∧
      (answer = true → ∃ inverse,
        w'.solver = { w.solver with inverse, updates := w.solver.updates + 1 }) ∧
      (¬ g.Undefined → (answer = true ↔ g.Passes)) ∧
      (g.Undefined → ¬ g.Passes ∧ (answer = true ↔ (g.denominator == 0) = false)) := by
  obtain ⟨g, c, guarded, computed, made⟩ := correction_of_operands operands
  have square : w.solver.inverse.Square False n := by
    obtain ⟨matrix, -, -, -⟩ := operands
    exact Tensor.square_of_shape (by rw [Tensor.shape, matrix.known, matrix.extent])
  obtain ⟨w', run, solver, -, -⟩ := update_succeeds computed fun inverse same =>
    (square_of_correction square False.elim (same ▸ computed)).isDefinite _
  refine ⟨g, c.isMade, w', guarded, run, fun skipped => ?_, fun correction => ?_, fun defined => ?_,
    fun undefined => ⟨Guard.not_passes_of_undefined undefined, ?_⟩⟩
  · cases c with
    | skipped size threshold => exact solver
    | made inverse => cases skipped
  · cases c with
    | skipped size threshold => cases correction
    | made inverse => exact ⟨inverse, solver⟩
  · rw [made, Guard.not_rejects_iff_passes defined]
  · rw [made, Guard.not_rejects_iff_of_undefined undefined]

/-- A solver for two unknowns that starts from the identity matrix. -/
def identityWork : Workspace (RankOne Float) Unit :=
  freshWork .lenient (.double .lenient (.matrix fun i j : Fin 2 => if i = j then 1 else 0))
    (.backtracking ⟨1, 0.5, 1e-4, 50⟩) ()

theorem identityWork_operands (s y : Fin 2 → Float) :
    identityWork.solver.Operands 2 (.double .lenient (.ofFn s)) (.double .lenient (.ofFn y)) :=
  .intro ⟨rfl, rfl, rfl⟩ ⟨rfl, rfl, rfl⟩ ⟨rfl, rfl, rfl⟩ nofun

/-- For instance, a change of the gradient that is twice the step is corrected. -/
theorem double_change_decided :
    ∃ w', (update (.double .lenient (.ofFn ![1, 0])) (.double .lenient (.ofFn ![2, 0]))).outcome identityWork =
      (.ok true, w') ∧ w'.solver.updates = 1 := by
  obtain ⟨g, answer, w', guarded, run, -, corrected, defined, -⟩ :=
    update_decides identityWork (identityWork_operands ![1, 0] ![2, 0])
  have passes : (identityWork.solver.guard (.double .lenient (.ofFn ![1, 0]))
      (.double .lenient (.ofFn ![2, 0]))).toOption.any (fun g => decide (¬ g.Undefined ∧ g.Passes)) = true := by
    decide +kernel
  rw [guarded] at passes
  obtain ⟨known, passes⟩ := of_decide_eq_true passes
  obtain rfl := (defined known).mpr passes
  obtain ⟨inverse, solver⟩ := corrected rfl
  exact ⟨w', run, by rw [solver]; rfl⟩

/-- Where the gradient changes hugely along a tiny step, the threshold is undefined; a correction is made, and
leaves a matrix with an undefined entry. -/
theorem huge_change_unguarded :
    ∃ g w', identityWork.solver.guard (.double .lenient (.ofFn ![1e-200, 0]))
        (.double .lenient (.ofFn ![1e200, 0])) = .ok g ∧ ¬ g.Passes ∧
      (update (.double .lenient (.ofFn ![1e-200, 0])) (.double .lenient (.ofFn ![1e200, 0]))).outcome
        identityWork = (.ok true, w') ∧ w'.solver.updates = 1 ∧
      w'.solver.inverse.values.all Scalar.isFinite = false := by
  have guarded : (identityWork.solver.guard (.double .lenient (.ofFn ![1e-200, 0]))
      (.double .lenient (.ofFn ![1e200, 0]))).toOption.any (fun g => decide (¬ g.Passes)) = true := by
    decide +kernel
  have updated : let after := (update (.double .lenient (.ofFn ![1e-200, 0]))
        (.double .lenient (.ofFn ![1e200, 0]))).outcome identityWork
      after.1.toOption = some true ∧ after.2.solver.updates = 1 ∧
        after.2.solver.inverse.values.all Scalar.isFinite = false := by
    decide +kernel
  rcases hg : identityWork.solver.guard (.double .lenient (.ofFn ![1e-200, 0]))
    (.double .lenient (.ofFn ![1e200, 0])) with cause | g <;> rw [hg] at guarded
  · cases guarded
  rcases run : (update (.double .lenient (.ofFn ![1e-200, 0]))
    (.double .lenient (.ofFn ![1e200, 0]))).outcome identityWork with ⟨fault | answer, w'⟩ <;> rw [run] at updated
  · cases updated.1
  obtain ⟨answered, updates, undefined⟩ := updated
  obtain rfl := Option.some.inj answered
  exact ⟨g, w', rfl, of_decide_eq_true guarded, rfl, updates, undefined⟩

end RankOne

end QuasiNewton
