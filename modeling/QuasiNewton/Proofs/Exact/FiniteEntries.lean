import QuasiNewton.Proofs.Exact.Contraction
import QuasiNewton.Proofs.Exact.Extended

/-!
# Finite entries

Arrays over the extended numbers all of whose entries are finite: their inner products are finite
(`Family.dot_finite`), and integers count as finite entries.
-/

set_option autoImplicit false

namespace QuasiNewton

open Extended (finite)

/-- All entries are finite. -/
def Entries.Finite {α : Type} [Scalar α] : Entries α → Prop
  | real _ xs => xs.all Scalar.isFinite = true
  | whole _ => True

/-- All entries of the array are finite. -/
def Tensor.Finite {α : Type} [Scalar α] (t : Tensor α) : Prop := t.entries.Finite

theorem Family.finite_of_allFinite {α : Type} [Scalar α] {family : Family} {t : Tensor α}
    (h : family.allFinite t = .ok true) : t.Finite := by
  unfold Family.allFinite at h
  split at h
  · cases h
  · obtain ⟨family?, entries⟩ := t
    cases entries with
    | real p xs => exact Except.ok.inj h
    | whole xs => exact trivial

namespace Dense

theorem isFinite_get {a : Dense Extended} (h : a.all Scalar.isFinite = true) (i : Fin a.shape.size) :
    ∃ x, a.entries.get i = finite x :=
  Extended.isFinite_iff.mp (Vector.all_iff_forall.mp h i i.isLt)

end Dense

theorem Entries.Finite.toReal {e : Entries Extended} (h : e.Finite) (p : Precision) :
    (e.toReal p).all Scalar.isFinite = true := by
  cases e with
  | real q xs =>
    have rounded : (xs.map (Precision.round .single)).all Scalar.isFinite = xs.all Scalar.isFinite :=
      Vector.all_map
    cases q <;> cases p
    · exact h
    · exact h
    · exact rounded.trans h
    · exact h
  | whole xs =>
    refine Vector.all_iff_forall.mpr fun i inside => ?_
    have entry : (xs.map p.ofInt).entries[i] = (p.ofInt xs.entries[i] : Extended) := Vector.getElem_map _ _
    exact (congrArg Scalar.isFinite entry).trans (by cases p <;> rfl)

namespace Arithmetic

variable {n : ℕ}

theorem sum_finite (p : Precision) {f : Fin n → Extended} (h : ∀ i, ∃ x, f i = finite x) :
    ∃ x, (real p).sum f = finite x := by
  induction n with
  | zero => exact ⟨0, rfl⟩
  | succ n ih =>
    obtain ⟨x, before⟩ := ih fun i => h i.castSucc
    obtain ⟨y, last⟩ := h (Fin.last n)
    refine ⟨x + y, ?_⟩
    rw [sum_succ, before, last]
    cases p <;> rfl

theorem dot_finite (p : Precision) {xs ys : Vector Extended n} (hx : ∀ i, ∃ x, xs.get i = finite x)
    (hy : ∀ i, ∃ y, ys.get i = finite y) : ∃ z, (real p).dot xs ys = finite z := by
  refine sum_finite p fun i => ?_
  obtain ⟨x, first⟩ := hx i
  obtain ⟨y, second⟩ := hy i
  refine ⟨x * y, ?_⟩
  rw [first, second]
  cases p <;> rfl

end Arithmetic

theorem Dense.inner_finite (p : Precision) {a b : Dense Extended} (ha : a.all Scalar.isFinite = true)
    (hb : b.all Scalar.isFinite = true) {c : Extended} (h : inner (.real p) a b = .value c) :
    ∃ z, c = finite z := by
  have first := isFinite_get ha
  have second := isFinite_get hb
  rcases shape_of_inner h with ⟨n, sa, sb⟩ | ⟨sa, sb⟩
  · obtain ⟨s, xs⟩ := a
    obtain ⟨t, ys⟩ := b
    obtain rfl : s = [n] := sa
    obtain rfl : t = [n] := sb
    obtain ⟨z, product⟩ := Arithmetic.dot_finite p first second
    rw [inner, dif_pos rfl] at h
    exact ⟨z, (Inner.value.inj h).symm.trans product⟩
  · obtain ⟨s, xs⟩ := a
    obtain ⟨t, ys⟩ := b
    obtain rfl : s = [] := sa
    obtain rfl : t = [] := sb
    obtain ⟨x, only⟩ := first (0 : Fin 1)
    obtain ⟨y, other⟩ := second (0 : Fin 1)
    refine ⟨x * y, ?_⟩
    rw [← Inner.value.inj h]
    change (Arithmetic.real p).mul (Vector.get xs (0 : Fin 1)) (Vector.get ys (0 : Fin 1)) = _
    rw [show Vector.get xs (0 : Fin 1) = finite x from only,
      show Vector.get ys (0 : Fin 1) = finite y from other]
    cases p <;> rfl

/-- **Inner products of finite arrays are finite.** -/
theorem Family.dot_finite {family : Family} {t u : Tensor Extended} (ht : t.Finite) (hu : u.Finite)
    {c : Extended} (h : family.dot t u = .ok c) : ∃ z, c = finite z := by
  have contracted := contraction_of_dot h
  unfold contraction at contracted
  split at contracted
  · next p _ => exact Dense.inner_finite p (Entries.Finite.toReal ht p) (Entries.Finite.toReal hu p) contracted
  · split at contracted
    · next k _ => exact ⟨k, (Dense.Inner.value.inj contracted).symm⟩
    · cases contracted
    · cases contracted

end QuasiNewton
