import QuasiNewton.Fault

/-!
# Formulas

Costs and gradients can be written as formulas over the entries of a point, in double precision. A
formula knows how often its callable was evaluated before, so that it can change from call to call,
and it can report a failure. Division by zero and arguments outside the domain of a function are
failures, overflow of sums, products and quotients is not.
-/

set_option autoImplicit false

namespace QuasiNewton

/-- A formula over the entries of a point. -/
inductive Formula where
  | number (x : Float)
  | entry (index : Nat)
  | current
  /-- The index of the entry that is being summed over. -/
  | index
  | length
  /-- How often the callable was evaluated before. -/
  | calls
  /-- The first formula in the call with the given number, the second one in all others. -/
  | atCall (call : Nat) (then_ else_ : Formula)
  | sum (summand : Formula)
  | add (a b : Formula)
  | sub (a b : Formula)
  | mul (a b : Formula)
  | div (a b : Formula)
  | neg (a : Formula)
  | square (a : Formula)
  | abs (a : Formula)
  /-- The third formula where the first is less than the second, and the fourth elsewhere. -/
  | ifLess (a b then_ else_ : Formula)
  | sqrt (a : Formula)
  | exp (a : Formula)
  | log (a : Formula)
  | sin (a : Formula)
  | cos (a : Formula)
  | fail (report : Raised)
deriving Repr

namespace Formula

/-- What a formula can refer to. -/
structure Scope where
  point : List Float
  /-- How often the callable was evaluated before. -/
  calls : Nat
  current : Float := 0
  /-- The index of the entry that is being summed over. -/
  index : Nat := 0

/-- The scope for the entry at an index. -/
def Scope.focus (s : Scope) (item : Float × Nat) : Scope :=
  { s with current := item.1, index := item.2 }

/-- The report on an entry that the point does not have. -/
def noEntry : Raised := ⟨.missing, "index out of range"⟩

/-- The report on a division by zero. -/
def zeroDivision : Raised := ⟨.division, "float division by zero"⟩

/-- The report on an argument outside the domain of a function. -/
def outsideDomain : Raised := ⟨.domain, "math domain error"⟩

/-- The report on a result that is too large. -/
def outsideRange : Raised := ⟨.overflow, "math range error"⟩

/-- A quotient with a divisor other than zero. -/
def quotient (a b : Float) : Except Raised Float :=
  if b == 0 then .error zeroDivision else .ok (a / b)

/-- A square root; negative numbers have none. -/
def squareRoot (a : Float) : Except Raised Float :=
  if a < 0 then .error outsideDomain else .ok a.sqrt

/-- The exponential function, whose finite arguments have finite results. -/
def exponential (a : Float) : Except Raised Float :=
  if a.isFinite && a.exp.isInf then .error outsideRange else .ok a.exp

/-- The logarithm of a positive number. -/
def logarithm (a : Float) : Except Raised Float :=
  if a ≤ 0 then .error outsideDomain else .ok a.log

/-- A periodic function, which has no value at infinity. -/
def periodic (f : Float → Float) (a : Float) : Except Raised Float :=
  if a.isInf then .error outsideDomain else .ok (f a)

/-- The value of a formula. Operands are evaluated before the operation, from left to right; of the
two branches of a choice only the chosen one is evaluated. -/
def eval (s : Scope) : Formula → Except Raised Float
  | number x => .ok x
  | entry k => (s.point[k]?).elim (.error noEntry) .ok
  | current => .ok s.current
  | index => .ok s.index.toFloat
  | length => .ok s.point.length.toFloat
  | calls => .ok s.calls.toFloat
  | atCall k a b => if s.calls = k then a.eval s else b.eval s
  | sum a => s.point.zipIdx.foldlM (fun total item => do return total + (← a.eval (s.focus item))) 0
  | add a b => do return (← a.eval s) + (← b.eval s)
  | sub a b => do return (← a.eval s) - (← b.eval s)
  | mul a b => do return (← a.eval s) * (← b.eval s)
  | div a b => do quotient (← a.eval s) (← b.eval s)
  | neg a => do return -(← a.eval s)
  | square a => do
    let x ← a.eval s
    return x * x
  | abs a => do return (← a.eval s).abs
  | ifLess a b then_ else_ => do
    if (← a.eval s) < (← b.eval s) then then_.eval s else else_.eval s
  | sqrt a => do squareRoot (← a.eval s)
  | exp a => do exponential (← a.eval s)
  | log a => do logarithm (← a.eval s)
  | sin a => do periodic Float.sin (← a.eval s)
  | cos a => do periodic Float.cos (← a.eval s)
  | fail report => .error report

/-- The value of a formula for every entry of the point, in order. -/
def evalEach (s : Scope) (f : Formula) : Except Raised (List Float) :=
  s.point.zipIdx.mapM fun item => f.eval (s.focus item)

/-- The values of several formulas, in order. -/
def evalAll (s : Scope) (fs : List Formula) : Except Raised (List Float) :=
  fs.mapM (eval s)

end Formula

end QuasiNewton
