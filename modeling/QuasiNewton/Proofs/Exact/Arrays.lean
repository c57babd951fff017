import QuasiNewton.Proofs.Exact.Shapes
import QuasiNewton.Tensor.Definite
import QuasiNewton.Tensor.Family

/-!
# Arrays of double precision

On arrays of double precision with one axis, and on square matrices, each operation has one outcome, which
does not depend on the family that carries it out: the same sums in the same order, and an array of that
family. Each operation has one lemma here, for both families and for every number system.
-/

set_option autoImplicit false

namespace QuasiNewton

variable {α : Type} {n : Nat}

theorem Dense.exists_ofFn {ε : Type} {a : Dense ε} (h : a.shape = [n]) :
    ∃ x : Fin n → ε, a = .ofFn x := by
  obtain ⟨shape, entries⟩ := a
  obtain rfl : shape = [n] := h
  have read : Vector.ofFn (fun i : Fin n => Vector.get entries i) = entries := Vector.ofFn_getElem
  exact ⟨fun i => Vector.get entries i, congrArg (Dense.mk [n]) read.symm⟩

namespace Tensor

/-- The array of a family that holds numbers of double precision. -/
def double (family : Family) (xs : Dense α) : Tensor α := ⟨some family, .real .double xs⟩

variable (family : Family) (xs ys : Dense α) (x y : Fin n → α) (a b : Fin n → Fin n → α)

theorem meet_double : meet (double family xs) (double family ys) = .ok ⟨family, family⟩ := by
  cases family <;> rfl

theorem meetingType_double (rules : Family) :
    meetingType rules (double family xs) (double family ys) = .real .double := by
  cases rules
  · rfl
  · simp only [meetingType, double, Entries.type, ElementType.joinStrict]
    split <;> simp_all [ElementType.joinEqualRank, Precision.join]

variable [Scalar α]

theorem combine_double (f : (ε : Type) → Arithmetic ε → Dense ε → Dense ε → Option (Dense ε)) :
    Entries.combine (.real .double) f (double family xs).entries (double family ys).entries =
      (f α (.real .double) xs ys).map (Entries.real .double) := rfl

theorem zipWith_double (f : (ε : Type) → Arithmetic ε → ε → ε → ε) {zs : Dense α}
    (h : Dense.combine (.real .double) (f α (.real .double)) xs ys = some zs) :
    zipWith f (double family xs) (double family ys) = .ok (double family zs) := by
  simp only [zipWith, meet_double, bind, Except.bind, meetingType_double, combine_double, h]
  rfl

theorem sub_double :
    (double family (.ofFn x)).sub (double family (.ofFn y)) =
      .ok (double family (.ofFn fun i => x i - y i)) :=
  zipWith_double family _ _ _ (Dense.combine_ofFn _ x y _)

theorem add_double :
    (double family (.ofFn x)).add (double family (.ofFn y)) =
      .ok (double family (.ofFn fun i => x i + y i)) :=
  zipWith_double family _ _ _ (Dense.combine_ofFn _ x y _)

theorem addMatrix_double :
    (double family (.matrix a)).add (double family (.matrix b)) =
      .ok (double family (.matrix fun i j => a i j + b i j)) :=
  zipWith_double family _ _ _ (Dense.combine_matrix _ a b _)

theorem scale_double (c : α) :
    (double family xs).scale (.real c) = .ok (double family (xs.map (c * ·))) := by
  cases family <;> rfl

theorem scaleVector_double (c : α) :
    (double family (.ofFn x)).scale (.real c) = .ok (double family (.ofFn fun i => c * x i)) := by
  rw [scale_double, Dense.map_ofFn]
  rfl

theorem scaleMatrix_double (c : α) :
    (double family (.matrix a)).scale (.real c) =
      .ok (double family (.matrix fun i j => c * a i j)) := by
  rw [scale_double, Dense.map_matrix]

theorem mul_double :
    (double family (.matrix a)).mul (double family (.ofFn x)) =
      .ok (double family (.ofFn fun i => (Arithmetic.real .double).sum fun j => a i j * x j)) := by
  have product := Dense.mul_matrix_ofFn (.real .double) x a
  have sameType : (double family (.matrix a)).entries.type = (double family (.ofFn x)).entries.type :=
    rfl
  simp only [mul, meet_double, bind, Except.bind, meetingType_double, combine_double, product, sameType,
    ne_eq, not_true_eq_false, and_false, if_false]
  rfl

/-- The symmetric part of a square matrix has its size, so that its definiteness can be asked for, whatever the
matrix is stored as. -/
theorem isDefinite_of_values {t : Tensor α} {a : Fin n → Fin n → α} (holds : t.values = .matrix a)
    (tolerance : α) :
    t.isDefinite tolerance =
      .ok (Dense.positivePivots n (Vector.ofFn fun i => Vector.ofFn fun j =>
        let entry := 0.5 * (a i j + a j i)
        if i = j then entry - tolerance else entry)) := by
  have symmetric : t.values.symmetricPart = some (.matrix fun i j => 0.5 * (a i j + a j i)) := by
    rw [holds, Dense.symmetricPart, Dense.transpose_matrix, Dense.combine_matrix, Option.map_some, Dense.map_matrix]
  have first (i j : Fin n) : 0 * (n * n) + ((i : Nat) * n + (j : Nat)) = Shape.cell i j := by
    rw [Nat.zero_mul, Nat.zero_add]
    rfl
  have only : List.range (Shape.size []) = [0] := rfl
  simp only [isDefinite, symmetric]
  refine (if_pos rfl).trans ?_
  simp only [only, List.all_cons, List.all_nil, Bool.and_true, Dense.lowered, first, Dense.getD_matrix]

end Tensor

namespace Family

open Tensor

variable (family : Family) (xs : Dense α) (x y : Fin n → α) (a : Fin n → Fin n → α)

theorem ofTensor_double : ofTensor (double family xs) = .ok family := by
  cases family <;> rfl

variable [Scalar α]

theorem copy_double : family.copy (double family xs) = .ok (double family xs) := by
  cases family <;> rfl

theorem adopt_double (zs : Dense α) : family.adopt zs (double family xs) = double family zs := by
  cases family <;> rfl

theorem allFinite_double : family.allFinite (double family xs) = .ok (xs.all Scalar.isFinite) := by
  cases family <;> rfl

theorem dot_double :
    family.dot (double family (.ofFn x)) (double family (.ofFn y)) =
      .ok ((Arithmetic.real .double).dot (Vector.ofFn x) (Vector.ofFn y)) := by
  have contracted := Dense.inner_ofFn (.real .double) x y
  have joined : (double family (.ofFn x)).entries.type.joinLenient
      (double family (.ofFn y)).entries.type = .real .double := rfl
  have read (t : Fin n → α) : (double family (.ofFn t)).entries.toReal .double = .ofFn t := rfl
  cases family <;> simp only [dot, joined, read, contracted] <;> rfl

theorem outer_double :
    family.outer (double family (.ofFn x)) (double family (.ofFn y)) =
      .ok (double family (.matrix fun i j => x i * y j)) := by
  have answered : family.outer (double family (.ofFn x)) (double family (.ofFn y)) =
      .ok (double family (Dense.outer (n := n) (m := n) (.real .double)
        (Dense.ofFn x).entries (Dense.ofFn y).entries)) := by
    cases family <;> rfl
  rw [answered, Dense.outer_ofFn]
  rfl

theorem mulVec_double :
    family.mulVec (double family (.matrix a)) (double family (.ofFn x)) =
      .ok (double family (.ofFn fun i => (Arithmetic.real .double).sum fun j => a i j * x j)) := by
  rw [mulVec, mul_double]
  cases family <;> rfl

theorem norm_double :
    family.norm (double family xs) =
      .ok (Scalar.sqrt ((Arithmetic.real .double).dot xs.entries xs.entries)) := by
  cases family <;> rfl

/-- The lenient family scales before it adds, the strict one does both at once. -/
theorem scaledAdd_double (c : α) :
    family.scaledAdd (double family (.ofFn x)) (.real c) (double family (.ofFn y)) =
      .ok (double family (.ofFn fun i => x i + c * y i)) := by
  cases family with
  | lenient =>
    have added := add_double .lenient x fun i => c * y i
    simp only [scaledAdd, scaleVector_double, bind, Except.bind, added]
  | strict =>
    have combined := Dense.combine_ofFn (.real .double) x y fun s t : α => s + c * t
    have answered : strict.scaledAdd (double .strict (.ofFn x)) (.real c) (double .strict (.ofFn y)) =
        ((Dense.combine (.real .double) (fun s t : α => s + c * t) (.ofFn x) (.ofFn y)).map
          (double .strict)).elim (.error (.operands .strict)) .ok := by
      rfl
    rw [answered, combined]
    rfl

end Family

end QuasiNewton
