import QuasiNewton.Fault

/-!
# Problems

A problem is a cost to be made small and, where there is one, its gradient. Both are code of the
problem's own: they may fail with any report, and they may have a state of type `σ`, in which one
call can leave something for a later one.

A report stands for an exception of the class `Exception` or of one below it. What is raised to
end the whole program, such as an interrupt or an exit, is not a report, and is not described here.
The arrays that a gradient answers are numeric: their entries are whole or real numbers, and never
texts or other objects.
-/

set_option autoImplicit false

namespace QuasiNewton

/-- What a gradient answers. -/
inductive Reply (α : Type) where
  | number (x : α)
  | tensor (t : Tensor α)

/-- A cost and, where there is one, its gradient. -/
structure Problem (α σ : Type) where
  cost : Tensor α → ExceptT Raised (StateM σ) α
  gradient? : Option (Tensor α → ExceptT Raised (StateM σ) (Reply α))

/-- The report on a part of a problem that was never given. -/
def absentPart (part : String) : Raised :=
  ⟨.other "AttributeError", "'NoneType' object has no attribute '" ++ part ++ "'"⟩

/-- What stands for a problem that was never given: everything that is asked of it fails. -/
def Problem.absent {α σ : Type} : Problem α σ where
  cost _ := throw (absentPart "fun")
  gradient? := some fun _ => throw (absentPart "grad")

end QuasiNewton
