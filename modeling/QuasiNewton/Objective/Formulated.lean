import QuasiNewton.Binary64.Arithmetic
import QuasiNewton.Objective.Formula
import QuasiNewton.Objective.Problem

/-!
# Problems given by formulas

A cost and a gradient written as formulas make up a problem. Its state counts the calls of either
callable, including those that fail. A cost is a number of double precision or takes the precision
of the point; a gradient comes in one of several forms.
-/

set_option autoImplicit false

namespace QuasiNewton

/-- How a gradient hands out its components. -/
inductive GradientForm where
  | list
  | array
  | nested
  | scalar
deriving DecidableEq, Repr

/-- The components of a gradient. -/
inductive Components where
  | each (formulas : List Formula)
  /-- One formula for all entries of the point. -/
  | all (formula : Formula)
deriving Repr

namespace GradientForm

/-- An array of numbers with the family and the kind of entries of a point; a plain list stands for a
lenient array of double precision. -/
def likePoint (x : Tensor Float) (xs : Dense Float) : Tensor Float :=
  match x.family? with
  | some family => ⟨some family, (Entries.real .double xs).cast x.entries.type⟩
  | none => .lenient xs

/-- The report on a gradient without a first component. -/
def noComponent : Raised := ⟨.missing, "list index out of range"⟩

/-- The components of a gradient in a form. -/
def reply (x : Tensor Float) (components : List Float) : GradientForm → Except Raised (Reply Float)
  | list => .ok (.tensor (.list (.ofList components)))
  | array => .ok (.tensor (likePoint x (.ofList components)))
  | nested => .ok (.tensor (.list ⟨[1, components.length],
      components.toArray.toVector.cast (Nat.one_mul components.length).symm⟩))
  | scalar =>
    match components with
    | first :: _ => .ok (.number first)
    | [] => .error noComponent

end GradientForm

/-- The values of the components. -/
def Components.eval (s : Formula.Scope) : Components → Except Raised (List Float)
  | each formulas => Formula.evalAll s formulas
  | all formula => Formula.evalEach s formula

/-- How often the two callables of a problem were called. -/
structure Calls where
  cost : Nat := 0
  gradient : Nat := 0
deriving DecidableEq, Repr

/-- A problem in formulas. -/
structure Formulated where
  cost : Formula
  gradient? : Option Components
  /-- Whether the cost takes the precision of the point. -/
  costLikePoint : Bool
  form : GradientForm

namespace Formulated

/-- What the formulas can refer to at a point. -/
def scope (x : Tensor Float) (calls : Nat) : Formula.Scope := { point := x.values.toList, calls }

/-- The cost of a point; the call is counted first. -/
def costAt (f : Formulated) (x : Tensor Float) : ExceptT Raised (StateM Calls) Float := do
  let calls ← get
  set { calls with cost := calls.cost + 1 }
  let value ← f.cost.eval (scope x calls.cost)
  return if f.costLikePoint then (GradientForm.likePoint x (.point value)).values.getD 0 value
    else value

/-- The gradient at a point; the call is counted first. -/
def gradientAt (f : Formulated) (components : Components) (x : Tensor Float) :
    ExceptT Raised (StateM Calls) (Reply Float) := do
  let calls ← get
  set { calls with gradient := calls.gradient + 1 }
  f.form.reply x (← components.eval (scope x calls.gradient))

/-- The problem that the formulas make up. -/
def problem (f : Formulated) : Problem Float Calls where
  cost := f.costAt
  gradient? := f.gradient?.map f.gradientAt

end Formulated

end QuasiNewton
