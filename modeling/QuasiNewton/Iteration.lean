import QuasiNewton.Lifecycle
import QuasiNewton.Tensor.Basic

/-!
# Iterates

A solver hands out iterates: a point, its cost and, as a rule, its gradient. An iteration state holds
the current iterate, what is known of the one before, and the number of steps taken. A cost that is
not known counts as infinitely large, so that no change of it is ever small.
-/

set_option autoImplicit false

namespace QuasiNewton

variable {α : Type}

/-- What a solver hands out. -/
structure Iterate (α : Type) where
  point : Tensor α
  cost : α
  gradient? : Option (Tensor α)

/-- What is known of the iterate before the current one. -/
structure Previous (α : Type) where
  point? : Option (Tensor α) := none
  cost? : Option α := none
  gradient? : Option (Tensor α) := none

/-- The state between two steps. -/
structure IterState (α : Type) where
  point : Tensor α
  cost? : Option α := none
  gradient? : Option (Tensor α) := none
  previous : Previous α := {}
  steps : Int := 0

namespace IterState

/-- The state with another current iterate, and with everything else as it is. -/
def replace (s : IterState α) (i : Iterate α) : IterState α :=
  { s with point := i.point, cost? := some i.cost, gradient? := i.gradient? }

/-- The state after a step: what was current becomes previous. -/
def advance (s : IterState α) (i : Iterate α) : IterState α where
  point := i.point
  cost? := some i.cost
  gradient? := i.gradient?
  previous := ⟨some s.point, s.cost?, s.gradient?⟩
  steps := s.steps + 1

/-- By how much the last step has changed the cost, where both costs are known. -/
def costChange [Scalar α] (s : IterState α) : Option α := do
  return Scalar.abs ((← s.previous.cost?) - (← s.cost?))

end IterState

end QuasiNewton
