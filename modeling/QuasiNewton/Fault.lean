import QuasiNewton.Decimal.Text
import QuasiNewton.Lifecycle
import QuasiNewton.Quotation
import QuasiNewton.Tensor.Basic

/-!
# What can go wrong

Every failure is a value that names its cause; `Fault.message` puts it into words. Operands that do
not fit have no words of their own. A problem may raise failures of its own choice, which are passed
on or reported as failed evaluations.
-/

set_option autoImplicit false

namespace QuasiNewton

open QuasiNewton.Decimal (NumberText)

/-- The sort of failure that a problem reports. -/
inductive RaisedKind where
  | evaluation
  | lineSearch
  /-- A failed optimisation, not specified further. -/
  | optimization
  /-- Something that is not there was asked for. -/
  | missing
  | division
  /-- An argument outside the domain of a function. -/
  | domain
  | overflow
  | lookup
  | other (name : String)
deriving DecidableEq, Repr

/-- Whether a report is about the optimisation itself. -/
def RaisedKind.ofOptimization : RaisedKind → Bool
  | evaluation => true
  | lineSearch => true
  | optimization => true
  | _ => false

/-- A failure reported by the code of a problem. -/
structure Raised where
  kind : RaisedKind
  text : String
deriving DecidableEq, Repr

/-- A report in words: a key that is not there is quoted. -/
def Raised.message (r : Raised) : String := if r.kind = .lookup then Quotation.quoted r.text else r.text

/-- Why an evaluation failed. -/
inductive EvaluationFault (α : Type) where
  | costFailed (text : String)
  | costNotFinite (value : α)
  | gradientFailed (text : String)
  /-- The gradient does not have the shape of the point. -/
  | gradientShape (found expected : Shape)
  /-- The gradient has infinite or undefined entries. -/
  | gradientNotFinite
deriving DecidableEq, Repr

/-- Why a line search failed. -/
inductive SearchFault (α : Type) where
  /-- No start point or no direction is known. -/
  | notConfigured
  /-- The cost does not fall along the direction. -/
  | notDescent (slope : α)
  /-- No step of the permitted number lowers the cost enough. -/
  | armijoExhausted (budget : Nat)
  /-- No step of the permitted number satisfies the conditions. -/
  | noWolfeStep (budget : Nat)
  /-- An interval was narrowed down to nothing. -/
  | zoomFailed
  /-- The next step length is no positive number. -/
  | secantLeft (alpha : α)
  | secantIncreased (cost start : α)
deriving DecidableEq, Repr

/-- Which setting is out of its range. -/
inductive SettingFault where
  | armijoConstant
  | shrinkFactor
  /-- The two constants of the strong conditions. -/
  | wolfeConstants
  | firstStep
  | trialLimit
  | trialLimits
  | slopeTolerance
  | tolerance (name : String)
  | stepLimit
  | timeLimit
  | differenceStep
deriving DecidableEq, Repr

/-- A setting out of its range in words. -/
def SettingFault.message : SettingFault → String
  | armijoConstant => "Armijo constant c must lie in (0, 1)"
  | shrinkFactor => "rho must lie in (0, 1)"
  | wolfeConstants => "Require 0 < c1 < c2 < 1 for Wolfe conditions."
  | firstStep => "alpha0 must be positive"
  | trialLimit => "max_iter must be positive"
  | trialLimits => "Iteration limits must be positive"
  | slopeTolerance => "tol must be positive"
  | tolerance name => name ++ " must be positive."
  | stepLimit => "maxiter must be non-negative."
  | timeLimit => "max_time must be positive."
  | differenceStep => "eps must be positive"

/-- A failed evaluation in words. -/
def EvaluationFault.message {α : Type} [NumberText α] : EvaluationFault α → String
  | costFailed text => "Cost evaluation failed: " ++ text
  | costNotFinite value =>
    "Cost evaluation returned a non-finite value (" ++ NumberText.shortest value ++ ")."
  | gradientFailed text => "Gradient evaluation failed: " ++ text
  | gradientShape found expected =>
    "Gradient shape " ++ found.text ++ " does not match parameter shape " ++ expected.text ++ "."
  | gradientNotFinite => "Gradient evaluation returned non-finite entries."

/-- A failed line search in words. -/
def SearchFault.message {α : Type} [NumberText α] : SearchFault α → String
  | notConfigured => "Line search run before configure()."
  | notDescent slope =>
    "Search direction must be a descent direction (slope " ++ NumberText.scientific 4 slope ++ ")."
  | armijoExhausted budget =>
    "Armijo condition not satisfied within " ++ toString budget ++ " backtracking steps."
  | noWolfeStep budget => "No Wolfe step found within " ++ toString budget ++ " iterations."
  | zoomFailed => "Zoom failed to find a point with sufficient decrease."
  | secantLeft alpha =>
    "Secant step left the admissible range (alpha=" ++ NumberText.shortest alpha ++ ")."
  | secantIncreased cost start =>
    "Secant step increased the cost (" ++ NumberText.scientific 7 cost ++ " > " ++
      NumberText.scientific 7 start ++ ")."

/-- A failure with its cause. -/
inductive Fault (α : Type) where
  | evaluation (cause : EvaluationFault α)
  | search (cause : SearchFault α)
  | setting (cause : SettingFault)
  /-- The solver of the given name is in the wrong stage. -/
  | stage (solver : String) (status : Status)
  /-- A strict array of integers is given as a point. -/
  | integerPoint
  /-- The inverse Hessian is not a square matrix. -/
  | notSquare (shape : Shape)
  /-- A line search is needed, and something else is given. -/
  | notLineSearch
  | mismatch (cause : Mismatch)
  /-- The problem reported a failure that is passed on as it is. -/
  | raised (report : Raised)
deriving DecidableEq, Repr

namespace Fault

variable {α : Type}

/-- A failure in words; operands that do not fit have none. -/
def message [NumberText α] : Fault α → Option String
  | evaluation cause => some cause.message
  | search cause => some cause.message
  | setting cause => some cause.message
  | stage solver status =>
    some (solver ++ " cannot proceed from status '" ++ status.text ++ "'.")
  | integerPoint => some "Tensor parameters must have a floating point dtype."
  | notSquare shape =>
    some ("Inverse Hessian must be a square matrix, got shape " ++ shape.text ++ ".")
  | notLineSearch => some "line_search must be a LineSearch instance."
  | mismatch _ => none
  | raised report => some report.message

/-- Whether a failure is one of the optimisation itself, which a run reports before it passes it
on. -/
def ofOptimization : Fault α → Bool
  | evaluation _ => true
  | search _ => true
  | raised report => report.kind.ofOptimization
  | _ => false

end Fault

end QuasiNewton
