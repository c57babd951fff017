import QuasiNewton.Tensor.Family

/-!
# Inner products of either family

Both families contract two arrays alike; the strict one makes demands on them first. Where an inner product
has a value, that value is the contraction (`Family.contraction_of_dot`). An array that has an inner product with
numbers also has a norm in the same family (`Family.norm_of_dot`).
-/

set_option autoImplicit false

namespace QuasiNewton

/-- Only vectors of one length and single entries have an inner product. -/
theorem Dense.shape_of_inner {ε : Type} {ar : Arithmetic ε} {a b : Dense ε} {x : ε} (h : inner ar a b = .value x) :
    (∃ k, a.shape = [k] ∧ b.shape = [k]) ∨ a.shape = [] ∧ b.shape = [] := by
  obtain ⟨s, xs⟩ := a
  obtain ⟨t, ys⟩ := b
  unfold inner at h
  split at h
  · split at h
    · next same => simp_all
    · cases h
  · simp_all
  · split at h
    · cases h
    · split at h <;> cases h

namespace Family

variable {α : Type} [Scalar α] {family : Family} {t u : Tensor α} {x : α}

/-- The contraction of two arrays in the kind of entries in which they meet. -/
def contraction (t u : Tensor α) : Dense.Inner α :=
  match t.entries.type.joinLenient u.entries.type with
  | .real p => Dense.inner (.real p) (t.entries.toReal p) (u.entries.toReal p)
  | .whole =>
    match Dense.inner Arithmetic.whole t.entries.toWhole u.entries.toWhole with
    | .value k => .value (Scalar.ofInt k)
    | .array => .array
    | .mismatch => .mismatch

/-- A contraction as a number, where it is one. -/
def ofContraction (family : Family) : Dense.Inner α → Except Mismatch α
  | .value x => .ok x
  | .array => .error .notNumber
  | .mismatch => .error (.operands family)

/-- What comes behind the demands of the strict family has succeeded where the whole has. -/
theorem ok_of_demands {β : Type} {kinds fits : Prop} {_ : Decidable kinds} {_ : Decidable fits}
    {rest : Except Mismatch β} {y : β}
    (h : (do
      if family = strict then
        unless kinds do throw Mismatch.kind
        unless fits do throw (Mismatch.operands strict)
      rest) = .ok y) : rest = .ok y := by
  cases family with
  | lenient => exact h
  | strict =>
    simp only [if_true] at h
    split at h
    · split at h
      · exact h
      · cases h
    · cases h

/-- Then the demands were met. -/
theorem demands_of_ok {β : Type} {kinds fits : Prop} {_ : Decidable kinds} {_ : Decidable fits}
    {rest : Except Mismatch β} {y : β}
    (h : (do
      if strict = strict then
        unless kinds do throw Mismatch.kind
        unless fits do throw (Mismatch.operands strict)
      rest) = .ok y) : kinds ∧ fits := by
  simp only [if_true] at h
  split at h
  case isFalse => cases h
  case isTrue first =>
    split at h
    case isFalse => cases h
    case isTrue second => exact ⟨first, second⟩

/-- An inner product of either family is the value of the contraction. -/
theorem contraction_of_dot (h : family.dot t u = .ok x) : contraction t u = .value x := by
  have contracted : ofContraction family (contraction t u) = .ok x := ok_of_demands h
  rcases found : contraction t u with y | _ | _ <;> rw [found] at contracted
  · rw [Except.ok.inj contracted]
  · cases contracted
  · cases contracted

/-- An array that has an inner product with numbers has a norm: it is of the family, and its entries are numbers too. -/
theorem norm_of_dot (h : family.dot t u = .ok x) (numbers : u.entries.type ≠ .whole) :
    ∃ norm, family.norm t = .ok norm := by
  cases family with
  | lenient => exact ⟨_, rfl⟩
  | strict =>
    obtain ⟨⟨own, -⟩, -, -, same⟩ := demands_of_ok h
    rw [← same] at numbers
    simp only [norm, own, numbers, if_true, if_false]
    exact ⟨_, rfl⟩

end Family

/-- An array that was scaled by a number has numbers as entries. -/
theorem Tensor.type_of_scale {α : Type} [Scalar α] {t t' : Tensor α} {x : α}
    (scaled : t.scale (.real x) = .ok t') : t'.entries.type ≠ .whole := by
  rcases t with ⟨_ | family, p | _⟩
  · cases scaled
  · cases scaled
  · obtain rfl := Except.ok.inj scaled
    exact nofun
  · obtain rfl := Except.ok.inj scaled
    exact nofun

end QuasiNewton
