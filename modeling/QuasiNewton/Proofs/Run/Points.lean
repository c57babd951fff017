import QuasiNewton.Proofs.Exact.Vectors
import QuasiNewton.Proofs.Outcomes
import QuasiNewton.Run

/-!
# Points of a run

A run computes with points of one family throughout. `Family.Holds` says what these points are: a copy
of any array is one, a point plus a multiple of an array is one, and a copy of one is the same array
again.
-/

set_option autoImplicit false

namespace QuasiNewton

variable {α : Type}

namespace Family

/-- The arrays that a family keeps as points: lenient ones with numbers of double precision, and
strict ones. -/
def Holds : Family → Tensor α → Prop
  | lenient, t => ∃ xs, t = .lenient xs
  | strict, t => t.family? = some .strict

theorem Holds.ofTensor_ok {family f : Family} {t : Tensor α} (h : family.Holds t)
    (found : ofTensor t = .ok f) : f = family := by
  cases family with
  | lenient =>
    obtain ⟨xs, rfl⟩ := h
    exact (Except.ok.inj found).symm
  | strict =>
    have strict : t.family? = some .strict := h
    unfold ofTensor at found
    rw [if_pos strict] at found
    split at found
    · exact absurd found nofun
    · exact (Except.ok.inj found).symm

variable [Scalar α]

theorem holds_of_copy {family : Family} {t t' : Tensor α} (h : family.copy t = .ok t') :
    family.Holds t' := by
  cases family with
  | lenient => exact ⟨_, (Except.ok.inj h).symm⟩
  | strict =>
    unfold copy at h
    dsimp only at h
    split at h
    case isTrue strict => exact (Except.ok.inj h) ▸ strict
    case isFalse => exact absurd h nofun

theorem Holds.copy_eq {family : Family} {t : Tensor α} (h : family.Holds t) :
    family.copy t = .ok t := by
  cases family with
  | lenient =>
    obtain ⟨xs, rfl⟩ := h
    rfl
  | strict => exact if_pos h

theorem holds_of_add {xs : Dense α} {b t : Tensor α} (h : (Tensor.lenient xs).add b = .ok t) :
    lenient.Holds t := by
  have entrywise : Tensor.zipWith (fun _ ar => ar.add) (.lenient xs) b = .ok t := by
    cases own : b.family? <;> simpa [Tensor.add, Tensor.lenient, own] using h
  have type : Tensor.meetingType .lenient (.lenient xs) b = .real .double := by
    rcases b with ⟨_, p | _⟩ <;> rfl
  have meeting : Tensor.meet (.lenient xs) b = .ok ⟨.lenient, .lenient⟩ ∨
      Tensor.meet (.lenient xs) b = .error .kind := by
    rcases b with ⟨_ | _ | _, _⟩ <;> simp [Tensor.meet, Tensor.lenient]
  unfold Tensor.zipWith at entrywise
  rcases meeting with meeting | meeting <;>
    simp only [meeting, type, bind, Except.bind, Entries.combine] at entrywise
  · split at entrywise
    case h_1 entries combined =>
      obtain ⟨zs, -, rfl⟩ := Option.map_eq_some_iff.mp combined
      exact ⟨zs, (Except.ok.inj entrywise).symm⟩
    case h_2 => exact absurd entrywise nofun
  · exact absurd entrywise nofun

omit [Scalar α] in
theorem strict_of_elim {β : Type} {o : Option β} {made : β → Tensor α} {cause : Mismatch}
    {t : Tensor α} (all : ∀ x, (made x).family? = some .strict)
    (h : (o.map made).elim (Except.error cause) Except.ok = .ok t) : t.family? = some .strict := by
  cases o with
  | none => exact absurd h nofun
  | some x => exact Except.ok.inj h ▸ all x

theorem Holds.scaledAdd_ok {family : Family} {a b t : Tensor α} {c : α} (h : family.Holds a)
    (found : family.scaledAdd a (.real c) b = .ok t) : family.Holds t := by
  cases family with
  | lenient =>
    obtain ⟨xs, rfl⟩ := h
    rcases scaled : b.scale (.real c) with cause | b'
    · simp [scaledAdd, scaled, bind, Except.bind] at found
    · exact holds_of_add (by simpa [scaledAdd, scaled, bind, Except.bind] using found)
  | strict =>
    unfold scaledAdd at found
    dsimp only at found
    split at found
    case h_2 => cases found
    case h_1 =>
      split at found
      case isFalse => cases found
      case isTrue =>
        split at found
        case h_1 =>
          split at found
          case isTrue => exact strict_of_elim (fun _ => rfl) found
          case isFalse => cases found
        case h_2 => exact strict_of_elim (fun _ => rfl) found
        case h_3 => cases found

end Family

theorem Plan.start_held [Scalar α] {o : RunOptions α} {plan : Plan α} (h : Plan.ofOptions o = .ok plan) :
    plan.family.Holds plan.start := by
  simp only [ofOptions, except_bind_ok, mapError_ok] at h
  obtain ⟨_, -, _, -, family, -, start, copied, steps, -, made⟩ := h
  obtain rfl := Except.ok.inj made
  exact Family.holds_of_copy copied

theorem Plan.ofOptions_ofVector {n : ℕ} (family : Family) (x : Fin n → ℝ) {maxSteps : ℝ}
    (h : 0 ≤ maxSteps) (history : Bool) :
    Plan.ofOptions ⟨.ofVector family x, maxSteps, none, history⟩ =
      .ok ⟨family, .ofVector family x, ⌊maxSteps⌋₊, none, history⟩ := by
  simp only [ofOptions, Family.ofTensor_ofVector, Family.copy_ofVector, Exact.countOf_of_nonneg h,
    require, not_lt.mpr h, bind, Except.bind, mapError_of_ok]
  rfl

/-- A run with at most two steps from the point `(3, 4)`. -/
noncomputable def Plan.short (history : Bool) : Plan ℝ :=
  ⟨.lenient, .ofVector .lenient ![3, 4], 2, none, history⟩

theorem Plan.short_planned (history : Bool) :
    Plan.ofOptions ⟨.ofVector .lenient ![3, 4], 2, none, history⟩ = .ok (short history) := by
  rw [ofOptions_ofVector .lenient ![3, 4] zero_le_two history, Nat.floor_ofNat]
  rfl

/-- A clock that stands still. -/
noncomputable def Clock.still : Clock ℝ := { reading := fun _ => 0 }

end QuasiNewton
