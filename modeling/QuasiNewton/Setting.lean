import QuasiNewton.Fault

/-!
# Settings

Settings are numbers of the number system, whatever they stand for. They are checked before they are
used, and those that stand for counts lose their fraction after the checks.
-/

set_option autoImplicit false

namespace QuasiNewton

/-- The count that a number stands for, with its fraction cut off. -/
def countOf {α : Type} [Scalar α] (x : α) : Except (Fault α) Nat :=
  match Scalar.truncate x with
  | .ok k => .ok k.toNat
  | .error why => .error (.mismatch (.count why))

/-- A requirement on settings. -/
def require {α : Type} (holds : Bool) (otherwise : SettingFault) : Except (Fault α) Unit :=
  if holds then .ok () else .error (.setting otherwise)

end QuasiNewton
