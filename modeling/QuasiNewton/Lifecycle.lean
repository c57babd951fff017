/-!
# Reasons to stop and stages of a solver

A run ends for a reason, two of which mean success. A solver passes through three stages, forward
only: it is made, it iterates, and it has terminated.
-/

set_option autoImplicit false

namespace QuasiNewton

/-- Why a solver stopped, or that it has not. -/
inductive Reason where
  | notTerminated
  | targetPrecision
  /-- The last step changed the cost too little. -/
  | noChange
  | maxIterations
  | timeout
deriving DecidableEq, Repr

namespace Reason

/-- A reason in words. -/
def text : Reason → String
  | notTerminated => "not terminated"
  | targetPrecision => "target precision reached"
  | noChange => "no change in cost"
  | maxIterations => "maximum number of iterations reached"
  | timeout => "time limit reached"

/-- A reason as a sentence. -/
def sentence (r : Reason) : String := r.text.capitalize ++ "."

/-- Whether the solver has stopped. -/
def terminated : Reason → Bool
  | notTerminated => false
  | _ => true

/-- Whether the solver stopped because it succeeded. -/
def converged : Reason → Bool
  | targetPrecision => true
  | noChange => true
  | _ => false

/-- Who has converged has terminated. -/
theorem terminated_of_converged {r : Reason} (h : r.converged = true) : r.terminated = true := by
  cases r <;> simp_all [converged, terminated]

example : sentence timeout = "Time limit reached." := by decide +kernel

end Reason

/-- The stage of a solver. -/
inductive Status where
  | notStarted
  | iterating
  | terminated
deriving DecidableEq, Repr

/-- A stage in one word. -/
def Status.text : Status → String
  | notStarted => "not_started"
  | iterating => "iterating"
  | terminated => "terminated"

/-- What a solver remembers of its run: its stage and the reason it stopped for. -/
structure Lifecycle where
  status : Status := .notStarted
  termination : Reason := .notTerminated
deriving DecidableEq, Repr

end QuasiNewton
