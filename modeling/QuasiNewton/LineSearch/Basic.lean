import QuasiNewton.Attempt
import QuasiNewton.Setting

/-!
# Costs along a line

A line search sees a problem only along a ray from the start point: it may ask for the cost and for
the slope at a step length. Both questions can fail, and both change the state, in which evaluations
are counted. Its answer is a `Step`.
-/

set_option autoImplicit false

namespace QuasiNewton

/-- The cost along a ray. -/
structure Line (α σ : Type) where
  cost : α → Attempt α σ α
  /-- The slope of the cost at a step length. -/
  slope : α → Attempt α σ α

/-- A step length that a search settled on. -/
structure Step (α : Type) where
  alpha : α
  cost : α
  trials : Nat
deriving DecidableEq, Repr

end QuasiNewton
