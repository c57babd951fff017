import QuasiNewton.Logging.Template

/-!
# The registry of loggers

Loggers are known by names, in which dots separate the names of ancestors. All loggers that are handed
out lie below one common name, and each of them gets one handler and the level that was set last.
Loggers of other owners may be in the registry as well; they have no level of their own and pass
entries on to their ancestors.

An entry is written by every handler that its logger and the ancestors of this logger have, as long
as each logger on the way passes entries on, if neither the level of the logger nor that of the
handler keeps it back.
-/

set_option autoImplicit false

namespace QuasiNewton.Logging

/-- Where handlers write. -/
inductive Sink where
  | standard
  | stream (name : String)
deriving DecidableEq, Repr

/-- A handler. -/
structure Handler where
  /-- The least severity of an entry that is written. -/
  level : Severity
  sink? : Option Sink
  template : Template
deriving DecidableEq, Repr

/-- A logger. -/
structure Logger where
  name : String
  /-- The least severity that it lets pass; a level of zero leaves this to the ancestors. -/
  level : Severity := 0
  handlers : List Handler := []
  /-- Whether it passes entries on to its ancestors. -/
  propagates : Bool := true
  registered : Bool := false
deriving DecidableEq, Repr

/-- All loggers, with the level for new ones. -/
structure Registry where
  /-- The level for loggers that are handed out for the first time. -/
  defaultLevel : Severity
  /-- The loggers, in the order in which they were made. -/
  loggers : List Logger
deriving DecidableEq, Repr

/-- What is asked for when handlers are replaced. -/
structure Configuration where
  level : LevelRequest := .numbered .warning
  template? : Option String := none
  sink : Sink := .standard

/-- Why handlers are not replaced. -/
inductive ConfigurationFault where
  | noField
  | level (fault : LevelFault)
deriving DecidableEq, Repr

/-- The template that is asked for. -/
def Configuration.template (c : Configuration) : Option Template :=
  let text := c.template?.getD ""
  if text.isEmpty then some .standard else Template.ofText text

/-- The common name of all loggers that are handed out. -/
def rootName : String := "qnopt"

/-- The name under which a logger is handed out: other names are put below the common name. -/
def qualified (name? : Option String) : String :=
  let name := name?.getD rootName
  if name = rootName || (rootName ++ ".").isPrefixOf name then name else rootName ++ "." ++ name

/-- The part of a name before its last dot; both are written backwards. -/
def beforeDot (reversed : List Char) : List Char := (reversed.dropWhile (· != '.')).drop 1

/-- The names of the ancestors of a name, written backwards and at most `left` of them: each ends at
a dot, and none is empty. -/
def ancestorsFrom : (left : Nat) → (reversed : List Char) → List String
  | 0, _ => []
  | left + 1, reversed =>
    match beforeDot reversed with
    | [] => []
    | c :: cs => String.ofList (c :: cs).reverse :: ancestorsFrom left cs

/-- The names of the ancestors of a name, the nearest first. -/
def ancestors (name : String) : List String := ancestorsFrom name.length name.toList.reverse

namespace Logger

/-- A logger as it is handed out for the first time, unless somebody else has given it a handler. -/
def prepared (l : Logger) (level : Severity) : Logger :=
  if l.handlers.isEmpty then
    { l with level, handlers := [⟨level, some .standard, .standard⟩], propagates := false }
  else l

/-- A logger with its own level and those of its handlers set. -/
def withLevel (l : Logger) (level : Severity) : Logger :=
  { l with level, handlers := l.handlers.map fun h => { h with level } }

/-- A logger with its handlers replaced by a single one. -/
def withHandler (l : Logger) (h : Handler) : Logger := { l with level := h.level, handlers := [h] }

end Logger

namespace Registry

/-- The logger of a name. -/
def find? (r : Registry) (name : String) : Option Logger := r.loggers.find? (·.name == name)

/-- The registry with a logger put in the place of the one with the same name, or at the end. -/
def put (r : Registry) (l : Logger) : Registry :=
  if (r.find? l.name).isSome then
    { r with loggers := r.loggers.map fun m => if m.name = l.name then l else m }
  else { r with loggers := r.loggers ++ [l] }

/-- The registry after a change of all loggers that were handed out. -/
def mapRegistered (r : Registry) (f : Logger → Logger) : Registry :=
  { r with loggers := r.loggers.map fun l => if l.registered then f l else l }

/-- The logger that is handed out for a name, and the registry after that. -/
def get (r : Registry) (name? : Option String) : Logger × Registry :=
  let name := qualified name?
  let known := (r.find? name).getD { name }
  if known.registered then (known, r)
  else
    let l := { known.prepared r.defaultLevel with registered := true }
    (l, r.put l)

/-- The registry after a level was set for all loggers, those to come included. -/
def setLevel (r : Registry) (request : LevelRequest) : Except LevelFault Registry := do
  let level ← request.level
  return { r.mapRegistered (·.withLevel level) with defaultLevel := level }

/-- The registry after the handlers of all loggers were replaced. -/
def configure (r : Registry) (c : Configuration) : Except ConfigurationFault Registry :=
  match c.template, c.level.level with
  | none, _ => .error .noField
  | some _, .error fault => .error (.level fault)
  | some template, .ok level =>
    .ok { r.mapRegistered (·.withHandler ⟨level, some c.sink, template⟩) with defaultLevel := level }

/-- The registry after somebody else has given a logger a handler that writes nothing. -/
def attach (r : Registry) (name : String) : Registry :=
  let l := (r.find? name).getD { name }
  r.put { l with handlers := l.handlers ++ [⟨0, none, .standard⟩] }

/-- A logger and those of its ancestors that are in the registry, the nearest first, at most `left` of
them. -/
def lineageFrom (r : Registry) : (left : Nat) → Logger → List Logger
  | 0, _ => []
  | left + 1, l =>
    l :: match (ancestors l.name).findSome? r.find? with
      | some parent => r.lineageFrom left parent
      | none => []

/-- A logger and those of its ancestors that are in the registry, the nearest first. -/
def lineage (r : Registry) (l : Logger) : List Logger := r.lineageFrom (l.name.length + 1) l

/-- The least severity that a logger lets pass: its own level, that of its nearest ancestor with a
level, or warnings. -/
def effectiveLevel (r : Registry) (l : Logger) : Severity :=
  (((r.lineage l).map Logger.level).find? (· != 0)).getD .warning

/-- Whether a logger lets entries of a severity pass; those without a positive severity never are. -/
def isEnabled (r : Registry) (l : Logger) (severity : Severity) : Bool :=
  0 < severity && r.effectiveLevel l ≤ severity

/-- The loggers whose handlers see an entry: up to the first one that does not pass it on. -/
def reached : List Logger → List Logger
  | [] => []
  | l :: rest => if l.propagates then l :: reached rest else [l]

/-- What an entry makes a handler write: a line with its end. -/
def written (line : Line) (h : Handler) : Option (Sink × String) := do
  let sink ← h.sink?
  if h.level ≤ line.level then some (sink, h.template.render line ++ "\n") else none

/-- What an entry of a logger makes handlers write, in order. -/
def log (r : Registry) (l : Logger) (severity : Severity) (message : String) :
    List (Sink × String) :=
  if r.isEnabled l severity then
    ((reached (r.lineage l)).flatMap Logger.handlers).filterMap (written ⟨l.name, severity, message⟩)
  else []

/-- The loggers that were handed out, in the order of their names. -/
def registered (r : Registry) : List Logger :=
  (r.loggers.filter Logger.registered).mergeSort fun l m => decide (l.name ≤ m.name)

/-- The registry with the loggers of all sources of entries. -/
def initial : Registry :=
  let r : Registry := ⟨.warning, []⟩
  ((r.get (some Source.run.logger)).2.get (some Source.rankOne.logger)).2

/-- The least severity that a source lets pass. -/
def threshold (r : Registry) (source : Source) : Severity := r.effectiveLevel (r.get (some source.logger)).1

/-- What the entries of a journal make handlers write, in order. -/
def replay (r : Registry) (j : Journal) : List (Sink × String) :=
  j.entries.toList.flatMap fun e => r.log (r.get (some e.source.logger)).1 e.severity e.text

end Registry

example : ancestors "a.b.c" = ["a.b", "a"] ∧ ancestors "a..b" = ["a."] := by decide +kernel

end QuasiNewton.Logging
