import QuasiNewton.Journal

/-!
# Levels

The severity from which a logger or a handler lets entries pass is called its level. Some levels have
names, and a level may be asked for by name, in upper or lower case; a name that nothing has stands
for warnings.
-/

set_option autoImplicit false

namespace QuasiNewton.Logging

/-- The names of levels, the usual name of a level first. -/
def levelNames : List (String × Severity) :=
  [("CRITICAL", .critical), ("FATAL", .critical), ("ERROR", .error), ("WARNING", .warning),
   ("WARN", .warning), ("INFO", .info), ("DEBUG", .debug), ("NOTSET", 0)]

/-- The name of a level, made up from its number if it has none. -/
def levelName (level : Severity) : String :=
  match levelNames.find? fun entry => entry.2 == level with
  | some entry => entry.1
  | none => "Level " ++ toString level

/-- The capital letter of a letter. Apart from the letters of the Latin alphabet two others have a
capital in that alphabet, the dotless i and the long s; all else is in no name of a level. -/
def capital (c : Char) : Char :=
  if c = 'ı' then 'I' else if c = 'ſ' then 'S' else c.toUpper

/-- A level that is asked for. -/
inductive LevelRequest where
  | numbered (level : Severity)
  | named (name : String)
  /-- By something that is neither an integer nor a name. -/
  | unreadable
deriving DecidableEq, Repr

/-- Why there is no level for a request. -/
inductive LevelFault where
  /-- A text is asked for that is the name of no level. -/
  | unknown
  /-- What is asked for is neither an integer nor a text. -/
  | notLevel
deriving DecidableEq, Repr

/-- What other names than those of levels stand for: one for a template, and one for the table of
template styles. -/
def otherNames : List (String × LevelFault) := [("BASIC_FORMAT", .unknown), ("_STYLES", .notLevel)]

/-- The level that is asked for. -/
def LevelRequest.level : LevelRequest → Except LevelFault Severity
  | numbered level => .ok level
  | unreadable => .error .notLevel
  | named name =>
    let name := name.map capital
    match levelNames.lookup name, otherNames.lookup name with
    | some level, _ => .ok level
    | none, some fault => .error fault
    | none, none => .ok .warning

example : (LevelRequest.named "Info").level.toOption = some .info ∧
    (LevelRequest.named "10").level.toOption = some .warning := by
  decide +kernel

end QuasiNewton.Logging
