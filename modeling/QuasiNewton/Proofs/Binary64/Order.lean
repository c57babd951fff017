import Mathlib.Order.Compare
import QuasiNewton.Binary64.Arithmetic

/-!
# Comparisons in double precision

Two numbers of double precision compare as their unpacked forms do: not at all if one of them is undefined, and
otherwise in one order, which is reversed when they change places. Among defined numbers `b ≤ a` is therefore the
negation of `a < b` (`le_iff_not_lt`); beside an undefined one both are false.
-/

set_option autoImplicit false

namespace QuasiNewton.Binary64

open Float.Model (UnpackedFloat)

/-- Numbers that change places compare the other way round. -/
theorem compare_swap (a b : UnpackedFloat) : (a.compare b).map Ordering.swap = b.compare a := by
  have turned (m m' : Nat) (e e' : Int) :
      ((compare e e').then (compare m m')).swap = (compare e' e).then (compare m' m) := by
    rw [Ordering.swap_then, ← Std.OrientedCmp.eq_swap, ← Std.OrientedCmp.eq_swap]
  -- only two numbers of one sign compare by their exponents and mantissas
  rcases a with ⟨_ | _⟩ | _ | _ | ⟨_ | _, m, e, -⟩ <;> rcases b with ⟨_ | _⟩ | _ | _ | ⟨_ | _, m', e', -⟩ <;>
    first
    | rfl
    | exact congrArg some (turned _ _ _ _)
    | exact congrArg (fun order => some order.swap) (turned _ _ _ _)

theorem compare_eq_none_iff (a b : UnpackedFloat) :
    a.compare b = none ↔ a.isNaN = true ∨ b.isNaN = true := by
  rcases a with ⟨_ | _⟩ | _ | _ | ⟨_ | _, m, e, -⟩ <;> rcases b with ⟨_ | _⟩ | _ | _ | ⟨_ | _, m', e', -⟩ <;>
    first
    | exact iff_of_true rfl (.inl rfl)
    | exact iff_of_true rfl (.inr rfl)
    | exact iff_of_false nofun (not_or.mpr ⟨nofun, nofun⟩)

variable {a b : Float}

theorem lt_iff_compare : a < b ↔ a.toModel.unpack.compare b.toModel.unpack = some .lt := by
  have unpacked : a < b ↔ a.toModel < b.toModel := decide_eq_true_iff
  rw [unpacked]
  exact beq_iff_eq

theorem le_iff_compare :
    a ≤ b ↔ (a.toModel.unpack.compare b.toModel.unpack).any Ordering.isLE = true :=
  decide_eq_true_iff

/-- Two numbers that are both defined are in one of two orders. -/
theorem le_iff_not_lt (ha : a.isNaN = false) (hb : b.isNaN = false) : b ≤ a ↔ ¬ a < b := by
  rw [le_iff_compare, lt_iff_compare, ← compare_swap]
  rcases found : a.toModel.unpack.compare b.toModel.unpack with _ | order
  · rcases (compare_eq_none_iff _ _).mp found with undefined | undefined
    · exact absurd (ha.symm.trans undefined) (by decide)
    · exact absurd (hb.symm.trans undefined) (by decide)
  · cases order <;> decide

/-- An undefined number is in no order with any other. -/
theorem not_lt_of_isNaN (undefined : a.isNaN = true ∨ b.isNaN = true) : ¬ a < b := by
  rw [lt_iff_compare, (compare_eq_none_iff _ _).mpr undefined]
  exact nofun

theorem not_le_of_isNaN (undefined : a.isNaN = true ∨ b.isNaN = true) : ¬ a ≤ b := by
  rw [le_iff_compare, (compare_eq_none_iff _ _).mpr undefined]
  exact nofun

end QuasiNewton.Binary64
