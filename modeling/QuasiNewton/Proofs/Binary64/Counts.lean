import Mathlib
import QuasiNewton.Proofs.Binary64.Order
import QuasiNewton.Setting

/-!
# Counts in double precision

A word of double precision reads as it unpacks (`Reading.ofWord_eq`). What is left of a positive number without its
fraction is therefore at least one exactly if the number is at least one (`one_le_countOf_iff`): the exponents decide,
as they do in the comparison, and in the one case in which they do not, the mantissas do.
-/

set_option autoImplicit false

namespace QuasiNewton.Binary64

open Float.Model (UnpackedFloat Format)
open Float.Model.UnpackedFloat (Sign unpackExponent unpackMantissa unpackSign unpack)

/-- What an unpacked number says. -/
def Reading.ofUnpacked : UnpackedFloat → Reading
  | .infinity s => .infinite (s == .negative)
  | .notANumber => .undefined
  | .zero s => .finite (s == .negative) 0 (-1074)
  | .finite s m e _ => .finite (s == .negative) m e

variable (b : BitVec Format.binary64.numBits)

/-! ### Words and what they unpack to -/

theorem exponentBits_eq : exponentBits b.toNat = (unpackExponent b).toNat := by
  simp only [exponentBits, unpackExponent, BitVec.toNat_cast, BitVec.extractLsb_toNat,
    Nat.shiftRight_eq_div_pow]

theorem fractionBits_eq : fractionBits b.toNat = (unpackMantissa b).toNat := by
  simp only [fractionBits, unpackMantissa, BitVec.toNat_cast, BitVec.extractLsb_toNat,
    Nat.shiftRight_eq_div_pow, Nat.pow_zero, Nat.div_one]

theorem signBit_eq : signBit b.toNat = (Sign.ofBitVec (unpackSign b) == .negative) := by
  have bit : b.toNat / 2 ^ 63 % 2 = (unpackSign b).toNat := by
    simp only [unpackSign, BitVec.toNat_cast, BitVec.extractLsb_toNat, Nat.shiftRight_eq_div_pow]
  have which (c : BitVec 1) : (c.toNat == 1) = (Sign.ofBitVec c == .negative) := by
    decide +revert
  exact (congrArg (· == 1) bit).trans (which _)

/-- A word reads as it unpacks. -/
theorem Reading.ofWord_eq : ofWord b.toNat = ofUnpacked (unpack Format.binary64 b) := by
  have infinite : unpackExponent b = -1#_ ↔ exponentBits b.toNat = 2047 := by
    rw [exponentBits_eq, ← BitVec.toNat_inj]
    rfl
  have subnormal : unpackExponent b = 0#_ ↔ exponentBits b.toNat = 0 := by
    rw [exponentBits_eq, ← BitVec.toNat_inj]
    rfl
  have none : unpackMantissa b = 0#_ ↔ fractionBits b.toNat = 0 := by
    rw [fractionBits_eq, ← BitVec.toNat_inj]
    rfl
  have hidden : (1#1 ++ unpackMantissa b).toNat = Nat.pow 2 52 + fractionBits b.toNat := by
    rw [BitVec.toNat_append, ← Nat.shiftLeft_add_eq_or_of_lt (unpackMantissa b).isLt, fractionBits_eq]
    rfl
  unfold unpack ofWord
  simp only [infinite, subnormal, none]
  split
  case isTrue =>
    split
    case isTrue => exact congrArg Reading.infinite (signBit_eq b)
    case isFalse => rfl
  case isFalse =>
    split
    case isTrue low =>
      split
      case isTrue zero =>
        rw [ofUnpacked, zero, signBit_eq]
      case isFalse =>
        rw [ofUnpacked, signBit_eq, fractionBits_eq, ← exponentBits_eq, low]
        rfl
    case isFalse =>
      rw [ofUnpacked, signBit_eq, hidden, exponentBits_eq]
      congr 1

/-- Mantissas have fifty-three bits, and only the smallest exponent goes with mantissas that have less. -/
theorem Reading.canonical {word : Nat} {negative : Bool} {m : Nat} {e : Int}
    (h : ofWord word = .finite negative m e) :
    m < 2 ^ 52 ∧ e = -1074 ∨ 2 ^ 52 ≤ m ∧ m < 2 ^ 53 ∧ -1074 ≤ e := by
  have fraction : fractionBits word < 2 ^ 52 := Nat.mod_lt _ (by decide)
  unfold ofWord at h
  split at h
  case isTrue => split at h <;> cases h
  case isFalse =>
    split at h
    case isTrue =>
      cases h
      exact .inl ⟨fraction, rfl⟩
    case isFalse nonzero =>
      cases h
      have hidden : Nat.pow 2 52 = 2 ^ 52 := rfl
      refine .inr ⟨?_, ?_, ?_⟩ <;> omega

/-! ### Whole parts -/

/-- A number has a whole part if it is not below `2 ^ 52 · 2 ^ (-52)`. -/
theorem one_le_wholePart_iff {m : Nat} {e : Int}
    (canonical : m < 2 ^ 52 ∧ e = -1074 ∨ 2 ^ 52 ≤ m ∧ m < 2 ^ 53 ∧ -1074 ≤ e) :
    1 ≤ wholePart m e ↔ -52 < e ∨ -52 = e ∧ 2 ^ 52 ≤ m := by
  unfold wholePart
  split
  case isTrue nonneg =>
    have some : 0 < m := by omega
    have scaled : 1 ≤ m * Nat.pow 2 e.toNat := Nat.mul_pos some (Nat.pow_pos Nat.two_pos)
    exact iff_of_true scaled (.inl (by omega))
  case isFalse negative =>
    obtain ⟨k, rfl⟩ : ∃ k : ℕ, e = -k := ⟨(-e).toNat, by omega⟩
    have halved : 1 ≤ m / Nat.pow 2 (- -(k : ℤ)).toNat ↔ 2 ^ k ≤ m := by
      rw [neg_neg, Int.toNat_natCast]
      exact Nat.one_le_div_iff (Nat.pow_pos Nat.two_pos)
    rw [halved]
    rcases lt_trichotomy k 52 with short | rfl | long
    · have few : 2 ^ k ≤ 2 ^ 52 := Nat.pow_le_pow_right Nat.two_pos short.le
      exact iff_of_true (by omega) (.inl (by omega))
    · simp
    · have many : 2 ^ 53 ≤ 2 ^ k := Nat.pow_le_pow_right Nat.two_pos long
      refine iff_of_false ?_ ?_ <;> omega

theorem isLE_then_iff {e e' : Int} {m m' : Nat} :
    ((compare e e').then (compare m m')).isLE = true ↔ e < e' ∨ e = e' ∧ m ≤ m' := by
  rcases lt_trichotomy e e' with less | rfl | more
  · rw [compare_lt_iff_lt.mpr less]
    exact iff_of_true rfl (.inl less)
  · rw [compare_eq_iff_eq.mpr rfl, Ordering.then, Nat.isLE_compare]
    simp
  · rw [compare_gt_iff_gt.mpr more]
    exact iff_of_false nofun (by omega)

theorem eq_notANumber {u : UnpackedFloat} (undefined : u.isNaN = true) : u = .notANumber := by
  cases u with
  | notANumber => rfl
  | _ => cases undefined

/-- A number that stands for a count is positive unless it is at most zero. -/
theorem pos_of_countOf {x : Float} (checked : ¬ x ≤ 0) {k : Nat}
    (h : (countOf x : Except (Fault Float) Nat) = .ok k) : 0 < x := by
  by_contra other
  have undefined : x.isNaN = true := by
    by_contra defined
    exact checked ((le_iff_not_lt rfl (by simpa using defined)).mpr other)
  have reading : Reading.of x = .undefined :=
    (Reading.ofWord_eq _).trans (congrArg Reading.ofUnpacked (eq_notANumber undefined))
  rw [countOf] at h
  simp only [Scalar.truncate, truncate, reading] at h
  cases h

/-- A positive number of double precision stands for a count of at least one if it is at least one. -/
theorem one_le_countOf_iff {x : Float} (positive : 0 < x) {k : ℕ}
    (h : (countOf x : Except (Fault Float) ℕ) = .ok k) : 1 ≤ k ↔ 1 ≤ x := by
  have zero : (0 : Float).toModel.unpack = .zero .positive := by rfl
  have one : (1 : Float).toModel.unpack = .finite .positive (2 ^ 52) (-52) (by decide) := by rfl
  have reading : Reading.of x = .ofUnpacked x.toModel.unpack := Reading.ofWord_eq _
  rw [lt_iff_compare, zero] at positive
  rw [le_iff_compare, one]
  simp only [countOf, Scalar.truncate, truncate] at h
  rcases unpacked : x.toModel.unpack with ⟨_ | _⟩ | _ | _ | ⟨_ | _, m, e, some⟩ <;>
    rw [unpacked] at positive reading <;> try cases positive
  · rw [reading] at h
    cases h
  · have canonical := Reading.canonical reading
    rw [reading] at h
    cases h
    exact (one_le_wholePart_iff canonical).trans isLE_then_iff.symm

end QuasiNewton.Binary64
