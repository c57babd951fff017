/-!
# The journal of a run

Solvers and runs keep a journal: entries with a source, a severity and a text. A journal has a
threshold, and what is less severe is not entered at all.
-/

set_option autoImplicit false

namespace QuasiNewton

/-- Severities have a number, and the larger number is the more severe one. -/
abbrev Severity := Int

namespace Severity

/-- Details of the computation. -/
def debug : Severity := 10

/-- What happens. -/
def info : Severity := 20

/-- What should not have happened. -/
def warning : Severity := 30

/-- A failure. -/
def error : Severity := 40

/-- A failure after which nothing can go on. -/
def critical : Severity := 50

end Severity

/-- Who makes entries. -/
inductive Source where
  | run
  | rankOne
deriving DecidableEq, Repr

/-- The name of the logger that a source writes to. -/
def Source.logger : Source → String
  | run => "qnopt.optimize.executor"
  | rankOne => "qnopt.optimize.sr1"

/-- An entry. -/
structure Entry where
  source : Source
  severity : Severity
  text : String
deriving DecidableEq, Repr

/-- Entries in the order in which they were made. -/
structure Journal where
  threshold : Severity
  entries : Array Entry := #[]
deriving DecidableEq, Repr

namespace Journal

/-- Whether entries of a severity are made. -/
def enters (j : Journal) (severity : Severity) : Bool := j.threshold ≤ severity

/-- The journal with one more entry, if it is severe enough. -/
def enter (j : Journal) (e : Entry) : Journal :=
  if j.enters e.severity then { j with entries := j.entries.push e } else j

/-- An entry changes nothing but the entries. -/
@[simp] theorem threshold_enter (j : Journal) (e : Entry) : (j.enter e).threshold = j.threshold := by
  unfold enter; split <;> rfl

end Journal

end QuasiNewton
