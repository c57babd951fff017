import QuasiNewton.Proofs.Exact.Arrays
import QuasiNewton.Proofs.Exact.Contraction
import QuasiNewton.Proofs.RankOne.Step

/-!
# The matrix stays square

Whatever it is corrected with, the matrix of a rank-one solver keeps its shape: the inner products of a
correction have values only for vectors as long as the matrix has rows. If products commute, then a
symmetric matrix also stays symmetric, because the outer square of a vector is symmetric. A square matrix
can always be asked for its definiteness, and so a correction that fails has changed nothing.

Both facts are about the same operations. `Square R n` is the shape of `n` rows and columns together with
symmetry, the latter only under the condition `R`.
-/

set_option autoImplicit false

namespace QuasiNewton

open Attempt
open QuasiNewton.Decimal (NumberText)

/-! ### Square arrays -/

namespace Dense

variable {ε δ : Type} {R : Prop} {n : Nat}

/-- A matrix with `n` rows and columns, which is symmetric where `R` holds. -/
def Square (R : Prop) (n : Nat) (a : Dense ε) : Prop :=
  ∃ f : Fin n → Fin n → ε, a = .matrix f ∧ (R → ∀ i j, f i j = f j i)

theorem matrix_inj {f g : Fin n → Fin n → ε} (h : matrix f = matrix g) : f = g := by
  funext i j
  rw [← getD_matrix f i j (f i j), ← getD_matrix g i j (f i j), h]

namespace Square

variable {a b : Dense ε}

theorem shape (h : a.Square R n) : a.shape = [n, n] := by
  obtain ⟨f, rfl, -⟩ := h
  rfl

theorem of_shape (h : a.shape = [n, n]) : a.Square False n := by
  obtain ⟨shape, entries⟩ := a
  obtain rfl : shape = [n, n] := h
  refine ⟨fun i j => Vector.get (n := n * n) entries (Shape.cell i j), ?_, False.elim⟩
  have same : entries = Vector.ofFn fun place : Fin (n * n) =>
      Vector.get (n := n * n) entries (Shape.cell (Shape.row place) (Shape.column place)) := by
    simp only [Shape.cell_row_column]
    exact Vector.ofFn_getElem.symm
  exact congrArg (Dense.mk [n, n]) same

theorem map (h : a.Square R n) (f : ε → δ) : (a.map f).Square R n := by
  obtain ⟨g, rfl, symmetric⟩ := h
  exact ⟨_, map_matrix g f, fun r i j => congrArg f (symmetric r i j)⟩

theorem combine (ha : a.Square R n) (hb : b.Square R n) (ar : Arithmetic ε) (f : ε → ε → ε) :
    ∃ c, Dense.combine ar f a b = some c ∧ c.Square R n := by
  obtain ⟨g, rfl, hg⟩ := ha
  obtain ⟨k, rfl, hk⟩ := hb
  exact ⟨_, combine_matrix ar g k f, _, rfl, fun r i j => congr (congrArg f (hg r i j)) (hk r i j)⟩

/-- The symmetry of a square matrix is that its transpose is itself. -/
theorem of_transpose (h : a.Square False n) (default : ε) (same : R → a.transpose default = a) :
    a.Square R n := by
  obtain ⟨f, rfl, -⟩ := h
  refine ⟨f, rfl, fun r i j => ?_⟩
  have equal := matrix_inj ((transpose_matrix f default).symm.trans (same r))
  exact congrFun (congrFun equal j) i

theorem transpose_eq (h : a.Square R n) (r : R) (default : ε) : a.transpose default = a := by
  obtain ⟨f, rfl, symmetric⟩ := h
  rw [transpose_matrix]
  exact congrArg matrix (funext fun i => funext fun j => symmetric r j i)

/-- The outer square of a vector is a symmetric matrix where products commute. -/
theorem outer {ar : Arithmetic ε} (commute : R → ∀ x y, ar.mul x y = ar.mul y x)
    (v : Dense ε) (h : v.shape = [n]) : (Dense.outer ar v.entries v.entries).Square R n := by
  obtain ⟨shape, entries⟩ := v
  obtain rfl : shape = [n] := h
  exact ⟨_, rfl, fun r i j => commute r _ _⟩

end Square

/-- A matrix is multiplied with an array of axes only, and with a vector as long as its rows. -/
theorem shape_of_mul {ar : Arithmetic ε} {a b c : Dense ε} (square : a.shape = [n, n])
    (h : mul ar a b = some c) : b.shape ≠ [] ∧ ∀ k, b.shape = [k] → k = n := by
  obtain ⟨s, xs⟩ := a
  obtain ⟨t, ys⟩ := b
  obtain rfl : s = [n, n] := square
  rcases t with _ | ⟨k, _ | ⟨l, t⟩⟩
  · exact absurd h nofun
  · refine ⟨nofun, fun k' same => ?_⟩
    obtain rfl : k = k' := by simpa using same
    by_contra different
    rw [mul, dif_neg different] at h
    cases h
  · exact ⟨nofun, nofun⟩

end Dense

variable {α σ : Type} [Scalar α] {R : Prop} {n : Nat}

namespace Arithmetic

/-- Rounded products commute where products do. -/
theorem real_mul_comm (commute : ∀ a b : α, a * b = b * a) (p : Precision) (x y : α) :
    (real p).mul x y = (real p).mul y x :=
  congrArg p.round (commute x y)

theorem whole_mul_comm (x y : Int) : whole.mul x y = whole.mul y x :=
  congrArg wrap (Int.mul_comm x y)

end Arithmetic

namespace Entries

/-- Entries that make up a square array. -/
def Square (R : Prop) (n : Nat) : Entries α → Prop
  | real _ xs => xs.Square R n
  | whole xs => xs.Square R n

@[simp] theorem shape_toReal (p : Precision) (e : Entries α) : (e.toReal p).shape = e.shape := by
  cases e with
  | real q xs => cases q <;> cases p <;> rfl
  | whole xs => rfl

omit [Scalar α] in
@[simp] theorem shape_toWhole [Scalar α] (e : Entries α) : e.toWhole.shape = e.shape := by
  cases e <;> rfl

namespace Square

variable {a b : Entries α}

omit [Scalar α] in
theorem shape (h : a.Square R n) : a.shape = [n, n] := by
  cases a <;> exact Dense.Square.shape h

theorem toReal (h : a.Square R n) (p : Precision) : (a.toReal p).Square R n := by
  cases a with
  | real q xs =>
    cases q <;> cases p
    · exact h
    · exact h
    · exact Dense.Square.map h _
    · exact h
  | whole xs => exact Dense.Square.map h _

theorem toWhole (h : a.Square R n) : a.toWhole.Square R n := by
  cases a with
  | real q xs => exact Dense.Square.map h _
  | whole xs => exact h

theorem combine (ha : a.Square R n) (hb : b.Square R n) (t : ElementType)
    (f : (ε : Type) → Arithmetic ε → ε → ε → ε) :
    ∃ c, Entries.combine t (fun ε ar => Dense.combine ar (f ε ar)) a b = some c ∧ c.Square R n := by
  cases t with
  | real p =>
    obtain ⟨c, made, square⟩ := (ha.toReal p).combine (hb.toReal p) (.real p) (f α (.real p))
    exact ⟨.real p c, by rw [Entries.combine, made, Option.map_some], square⟩
  | whole =>
    obtain ⟨c, made, square⟩ := ha.toWhole.combine hb.toWhole .whole (f Int .whole)
    exact ⟨.whole c, by rw [Entries.combine, made, Option.map_some], square⟩

theorem outer (commute : R → ∀ x y : α, x * y = y * x) {v c : Entries α} (h : v.shape = [n])
    {t : ElementType} (made : Entries.combine t
      (fun _ ar x y => some (Dense.outer ar x.entries y.entries)) v v = some c) : c.Square R n := by
  cases t with
  | real p =>
    obtain rfl := Option.some.inj made
    exact Dense.Square.outer (fun r => Arithmetic.real_mul_comm (commute r) p) (v.toReal p)
      ((shape_toReal p v).trans h)
  | whole =>
    obtain rfl := Option.some.inj made
    exact Dense.Square.outer (fun _ => Arithmetic.whole_mul_comm) v.toWhole ((shape_toWhole v).trans h)

theorem scale (h : a.Square R n) (f : Factor α) (family : Family) :
    (f.scale family a).Square R n := by
  cases a with
  | real p xs => exact Dense.Square.map h _
  | whole xs => cases f <;> exact Dense.Square.map h _

end Square

theorem shape_of_mul {a b c : Entries α} (square : a.shape = [n, n]) {t : ElementType}
    (h : combine t (fun _ ar => Dense.mul ar) a b = some c) :
    b.shape ≠ [] ∧ ∀ k, b.shape = [k] → k = n := by
  cases t with
  | real p =>
    obtain ⟨d, product, -⟩ := Option.map_eq_some_iff.mp h
    have shapes := Dense.shape_of_mul ((shape_toReal p a).trans square) product
    rwa [shape_toReal] at shapes
  | whole =>
    obtain ⟨d, product, -⟩ := Option.map_eq_some_iff.mp h
    have shapes := Dense.shape_of_mul ((shape_toWhole a).trans square) product
    rwa [shape_toWhole] at shapes

end Entries

namespace Tensor

/-- A square matrix of either family. -/
structure Square (R : Prop) (n : Nat) (t : Tensor α) : Prop where
  known : ∃ family, t.family? = some family
  entries : t.entries.Square R n

omit [Scalar α] in
theorem square_of_shape {t : Tensor α} (h : t.shape = .ok [n, n]) : t.Square False n := by
  obtain ⟨_ | family, entries⟩ := t
  · cases h
  · have extent : entries.shape = [n, n] := Except.ok.inj h
    refine ⟨⟨family, rfl⟩, ?_⟩
    cases entries <;> exact Dense.Square.of_shape extent

theorem square_of_transpose {t : Tensor α} (h : t.Square False n)
    (same : R → t.transpose = .ok t) : t.Square R n := by
  obtain ⟨⟨family, known⟩, square⟩ := h
  obtain ⟨_, entries⟩ := t
  obtain rfl := known
  refine ⟨⟨family, rfl⟩, ?_⟩
  cases entries with
  | real p xs =>
    exact Dense.Square.of_transpose square (Arithmetic.real p).zero fun r => by
      simpa [transpose, Entries.rearrange] using same r
  | whole xs =>
    exact Dense.Square.of_transpose square Arithmetic.whole.zero fun r => by
      simpa [transpose, Entries.rearrange] using same r

namespace Square

variable {t u v : Tensor α}

omit [Scalar α] in
theorem extent (h : t.Square R n) : t.extent = [n, n] := Entries.Square.shape h.entries

theorem transpose_eq (h : t.Square R n) (r : R) : t.transpose = .ok t := by
  obtain ⟨⟨family, known⟩, square⟩ := h
  obtain ⟨_, entries⟩ := t
  obtain rfl := known
  cases entries with
  | real p xs =>
    have same := Dense.Square.transpose_eq square r (Arithmetic.real p).zero
    simp only [transpose, Entries.rearrange, same]
  | whole xs =>
    have same := Dense.Square.transpose_eq square r Arithmetic.whole.zero
    simp only [transpose, Entries.rearrange, same]

/-- A square matrix can be asked for its definiteness. -/
theorem isDefinite (h : t.Square R n) (tolerance : α) :
    ∃ answer, t.isDefinite tolerance = .ok answer := by
  obtain ⟨f, holds, -⟩ : t.values.Square R n := h.entries.toReal .double
  exact ⟨_, isDefinite_of_values holds tolerance⟩

theorem scale (h : t.Square R n) {f : Factor α} (made : t.scale f = .ok u) : u.Square R n := by
  obtain ⟨family, known⟩ := h.known
  simp only [Tensor.scale, known] at made
  split at made
  · obtain rfl := Except.ok.inj made
    exact ⟨⟨family, rfl⟩, h.entries.scale f family⟩
  · cases made

theorem add (ht : t.Square R n) (hu : u.Square R n) (made : t.add u = .ok v) : v.Square R n := by
  obtain ⟨family, known⟩ := ht.known
  simp only [Tensor.add, known, zipWith] at made
  obtain ⟨⟨rules, result⟩, -, made⟩ := except_bind_ok.mp made
  obtain ⟨c, found, square⟩ := ht.entries.combine hu.entries (meetingType rules t u) fun _ ar => ar.add
  dsimp only at made
  rw [found] at made
  obtain rfl := Except.ok.inj made
  exact ⟨⟨result, rfl⟩, square⟩

end Square

end Tensor

namespace Family

variable {family : Family} {t u v : Tensor α} {x : α}

/-- Only vectors of one length and single entries have an inner product. -/
theorem extent_of_dot (h : family.dot t u = .ok x) :
    (∃ k, t.extent = [k] ∧ u.extent = [k]) ∨ t.extent = [] ∧ u.extent = [] := by
  have found := contraction_of_dot h
  unfold contraction at found
  split at found
  · next p _ =>
    have shapes := Dense.shape_of_inner found
    rwa [Entries.shape_toReal, Entries.shape_toReal] at shapes
  · split at found
    · next k inner =>
      have shapes := Dense.shape_of_inner inner
      rwa [Entries.shape_toWhole, Entries.shape_toWhole] at shapes
    · cases found
    · cases found

/-- A square matrix is multiplied with an array of axes only, and with a vector as long as its rows. -/
theorem extent_of_mulVec (square : t.Square R n) (h : family.mulVec t u = .ok v) :
    u.extent ≠ [] ∧ ∀ k, u.extent = [k] → k = n := by
  have product : t.mul u = .ok v := ok_of_demands h
  obtain ⟨⟨rules, result⟩, -, product⟩ := except_bind_ok.mp product
  dsimp only at product
  split at product
  · cases product
  · split at product
    · next c found => exact Entries.shape_of_mul square.extent found
    · cases product

/-- The outer square of a vector is a symmetric matrix where products commute. -/
theorem square_of_outer (commute : R → ∀ x y : α, x * y = y * x) (vector : t.extent = [n])
    (h : family.outer t t = .ok v) : v.Square R n := by
  unfold outer at h
  have made := ok_of_demands h
  split at made
  · next entries found =>
    obtain rfl := Except.ok.inj made
    exact ⟨⟨family, rfl⟩, .outer commute vector found⟩
  · cases made

end Family

/-! ### Corrections -/

namespace RankOne

variable {r : RankOne α}

/-- **A correction that is made gives a square matrix**, symmetric again where products commute. -/
theorem square_of_correction (held : r.inverse.Square R n) (commute : R → ∀ x y : α, x * y = y * x)
    {s y m : Tensor α} (h : r.correction s y = .ok (.made m)) : m.Square R n := by
  simp only [correction, except_bind_ok] at h
  obtain ⟨z, product, v, -, denominator, inner, length, -, missing, -, h⟩ := h
  split at h
  · cases h
  · obtain ⟨square, hsquare, h⟩ := except_bind_ok.mp h
    obtain ⟨k, hk, h⟩ := except_bind_ok.mp h
    obtain ⟨m', hm, same⟩ := except_bind_ok.mp h
    obtain rfl := Correction.made.inj (Except.ok.inj same)
    obtain ⟨notEmpty, long⟩ := Family.extent_of_mulVec held product
    have vector : v.extent = [n] := by
      rcases Family.extent_of_dot inner with ⟨k, hv, hy⟩ | ⟨-, hy⟩
      · rw [hv, long k hy]
      · exact absurd hy notEmpty
    exact held.add ((Family.square_of_outer commute vector hsquare).scale hk) hm

/-- A solver keeps the shape of its matrix with every correction. -/
theorem square_apply (held : r.inverse.Square R n) (commute : R → ∀ x y : α, x * y = y * x)
    {s y : Tensor α} {c : Correction α} (h : r.correction s y = .ok c) :
    (r.apply c).inverse.Square R n := by
  cases c with
  | skipped size threshold => exact held
  | made m => exact square_of_correction held commute h

/-- The matrix a solver is made with is square. -/
theorem square_of_make {inverse : Tensor α} {search? : Option (LineSearch α)}
    {tolerances : Tolerances α} (h : make inverse search? tolerances = .ok r) :
    ∃ n, r.inverse.Square False n := by
  simp only [make, except_bind_ok, mapError_ok] at h
  obtain ⟨family, -, shape, hshape, h⟩ := h
  split at h
  case isFalse => cases h
  case isTrue square =>
    rcases search? with _ | search
    · cases h
    · obtain ⟨copied, hcopy, same⟩ := except_bind_ok.mp h
      obtain rfl := Except.ok.inj same
      rw [mapError_ok] at hcopy
      obtain ⟨n, rfl⟩ : ∃ n, shape = [n, n] := by
        unfold isSquare at square
        split at square
        · next n m => exact ⟨n, by rw [beq_iff_eq.mp square]⟩
        · cases square
      have given := Tensor.square_of_shape hshape
      refine ⟨n, ?_⟩
      cases family with
      | lenient =>
        obtain rfl := Except.ok.inj hcopy
        exact ⟨⟨.lenient, rfl⟩, given.entries.toReal .double⟩
      | strict =>
        simp only [Family.copy] at hcopy
        split at hcopy
        · obtain rfl := Except.ok.inj hcopy
          exact given
        · cases hcopy

variable [NumberText α] {w : Workspace (RankOne α) σ}

/-- **A correction is made or skipped or changes nothing.** Where it fails, the solver and its stage are
those from before; where it does not, the matrix is square as before. -/
theorem update_ensures (held : w.solver.inverse.Square R n) (commute : R → ∀ x y : α, x * y = y * x)
    (s y : Tensor α) :
    (update s y).Ensures w
      (fun _ t => (∃ c, w.solver.correction s y = .ok c ∧ t.solver = w.solver.apply c) ∧
        t.solver.inverse.Square R n ∧ t.lifecycle = w.lifecycle)
      fun _ t => t.solver = w.solver ∧ t.lifecycle = w.lifecycle := by
  rcases computed : w.solver.correction s y with cause | c
  · simp only [Ensures, update_fails computed, and_self]
  · obtain ⟨t, run, solver, -, lifecycle⟩ := update_succeeds computed fun inverse same =>
      (square_of_correction held commute (same ▸ computed)).isDefinite _
    refine ensures_of_ok run ⟨⟨c, rfl, solver⟩, ?_, lifecycle⟩
    rw [solver]
    exact square_apply held commute computed

end RankOne

end QuasiNewton
