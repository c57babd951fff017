import QuasiNewton.Fault

/-!
# Gradients by central differences

An entry of the gradient is the difference of the costs on either side of the point, divided by the
distance of the two sides. The entries are found one after another, and for each of them the cost is
asked for ahead of the point first and behind it second. An array with several axes is moved a whole
row at a time, and as many rows are asked for as there are entries, so that only arrays whose rows
have one entry get a gradient.
-/

set_option autoImplicit false

namespace QuasiNewton

/-- Why difference quotients fail. -/
inductive DifferenceFault where
  /-- There is no row with this index among that many. -/
  | noRow (index count : Nat)
  | noAxis
  | raised (report : Raised)
deriving DecidableEq, Repr

/-- Failed difference quotients in words. -/
def DifferenceFault.text : DifferenceFault → String
  | noRow index count =>
    "index " ++ toString index ++ " is out of bounds for axis 0 with size " ++ toString count
  | noAxis => "too many indices for array: array is 0-dimensional, but 1 were indexed"
  | raised report => report.message

namespace Differences

variable {α σ : Type} [Scalar α]

/-- The distance `eps` for the entries of row `i`, and zero for all others. -/
def offset (x : Dense α) (eps : α) (i : Nat) (place : Nat) : α :=
  if place / Shape.size x.shape.tail = i then eps else 0

/-- The point with row `i` moved by `eps` upwards. -/
def ahead (x : Dense α) (eps : α) (i : Nat) : Dense α :=
  ⟨x.shape, Vector.ofFn fun place => x.entries.get place + offset x eps i place⟩

/-- The point with row `i` moved by `eps` downwards. -/
def behind (x : Dense α) (eps : α) (i : Nat) : Dense α :=
  ⟨x.shape, Vector.ofFn fun place => x.entries.get place - offset x eps i place⟩

/-- The difference quotient of a cost for row `i`. -/
def quotient (f : Dense α → ExceptT Raised (StateM σ) α) (x : Dense α) (eps : α) (i : Nat) :
    ExceptT DifferenceFault (StateM σ) α := do
  let upper ← (f (ahead x eps i)).adapt .raised
  let lower ← (f (behind x eps i)).adapt .raised
  pure ((upper - lower) / (2.0 * eps))

/-- The gradient of a cost at a point by central differences at distance `eps`. -/
def gradient (f : Dense α → ExceptT Raised (StateM σ) α) (x : Dense α) (eps : α) :
    ExceptT DifferenceFault (StateM σ) (Dense α) :=
  match x.shape with
  | [] => throw .noAxis
  | rows :: _ => do
    if same : rows = x.shape.size then
      let quotients ← Vector.ofFnM fun i : Fin rows => quotient f x eps i
      pure ⟨x.shape, quotients.cast same⟩
    else if x.shape.size = 0 then pure x
    else
      let _ ← Vector.ofFnM fun i : Fin rows => quotient f x eps i
      throw (.noRow rows rows)

/-- How often a gradient that was found has asked for the cost. -/
def evaluations (x : Dense α) : Nat := 2 * x.size

/-- The distance that is used where none is given. -/
def standardStep : α := 1e-6

/-- Whether difference quotients can be taken at a distance. -/
def checkStep (eps : α) : Except SettingFault Unit :=
  if eps ≤ 0 then .error .differenceStep else .ok ()

end Differences

end QuasiNewton
