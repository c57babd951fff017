import Mathlib.Data.List.Basic
import QuasiNewton.Logging.Registry

/-!
# Loggers after a configuration

A configuration gives every logger that was handed out a single handler, and one level to all of them. From then on
this level decides which entries are written, and nothing else: what an entry is written as, and where, does not
depend on it (`Registry.lines_eq`). A registry that is configured with a higher level therefore writes those lines
whose severity reaches this level (`Registry.transcript_filter`).
-/

set_option autoImplicit false

namespace QuasiNewton.Logging

/-- A logger after a configuration: the one handler replaces all others, if the logger was handed out. -/
def Logger.configured (h : Handler) (l : Logger) : Logger := if l.registered then l.withHandler h else l

namespace Logger

variable (h : Handler) (l : Logger)

@[simp] theorem name_configured : (l.configured h).name = l.name := by
  unfold configured; split <;> rfl

@[simp] theorem registered_configured : (l.configured h).registered = l.registered := by
  unfold configured; split <;> rfl

@[simp] theorem propagates_configured : (l.configured h).propagates = l.propagates := by
  unfold configured; split <;> rfl

variable {l}

theorem configured_of_registered (registered : l.registered = true) : l.configured h = l.withHandler h :=
  if_pos registered

end Logger

namespace Registry

variable {r r' : Registry} {l : Logger} {name : String}

theorem name_of_find? (found : r.find? name = some l) : l.name = name := by
  simpa using List.find?_some found

/-- The loggers of all sources were handed out. -/
def Knows (r : Registry) : Prop :=
  ∀ source : Source, ∃ l, r.find? source.logger = some l ∧ l.registered = true

/-- In the beginning they are. -/
theorem knows_initial : initial.Knows := by
  intro source
  have known : (initial.find? source.logger).any Logger.registered = true := by cases source <;> decide +kernel
  exact Option.any_eq_true _ _ |>.mp known

/-- What an entry makes handlers write. -/
def lines (r : Registry) (e : Entry) : List (Sink × String) :=
  r.log (r.get (some e.source.logger)).1 e.severity e.text

/-- What the entries of a journal make handlers write, each line with its severity. -/
def transcript (r : Registry) (j : Journal) : List (Severity × Sink × String) :=
  j.entries.toList.flatMap fun e => (r.lines e).map (e.severity, ·)

theorem replay_eq_transcript (j : Journal) : r.replay j = (r.transcript j).map Prod.snd := by
  rw [transcript, List.map_flatMap, replay]
  refine List.flatMap_congr fun e _ => ?_
  rw [List.map_map]
  exact (List.map_id _).symm

/-- The logger of a source is handed out under its own name. -/
theorem qualified_logger (source : Source) : qualified (some source.logger) = source.logger := by
  cases source <;> decide +kernel

theorem get_of_registered {source : Source} (found : r.find? source.logger = some l)
    (registered : l.registered = true) : (r.get (some source.logger)).1 = l := by
  simp only [get, qualified_logger, found, Option.getD_some, registered, if_true]

/-! ### The loggers of a configured registry -/

/-- All loggers that were handed out have been given the one handler. -/
def Configured (h : Handler) (r r' : Registry) : Prop := r'.loggers = r.loggers.map (Logger.configured h)

theorem configured_of_configure {c : Configuration} (done : r.configure c = .ok r') :
    ∃ template level, c.template = some template ∧ c.level.level = .ok level ∧
      Configured ⟨level, some c.sink, template⟩ r r' := by
  unfold configure at done
  split at done
  · cases done
  · cases done
  · next template level asked read =>
    obtain rfl := Except.ok.inj done
    exact ⟨template, level, asked, read, rfl⟩

namespace Configured

variable {h : Handler}

theorem find?_eq (done : Configured h r r') (name : String) :
    r'.find? name = (r.find? name).map (Logger.configured h) := by
  have same : (fun l : Logger => l.name == name) ∘ Logger.configured h = fun l => l.name == name := by
    funext l
    simp
  rw [find?, done, List.find?_map, same, find?]

theorem parent_eq (done : Configured h r r') (l : Logger) :
    (ancestors (l.configured h).name).findSome? r'.find? =
      ((ancestors l.name).findSome? r.find?).map (Logger.configured h) := by
  rw [Logger.name_configured, List.map_findSome?]
  exact congrArg (List.findSome? · _) (funext done.find?_eq)

/-- The ancestors of a logger are the same ones. The induction is on their greatest number. -/
theorem lineageFrom_eq (done : Configured h r r') (left : Nat) (l : Logger) :
    r'.lineageFrom left (l.configured h) = (r.lineageFrom left l).map (Logger.configured h) := by
  induction left generalizing l with
  | zero => rfl
  | succ left ih =>
    rw [lineageFrom, lineageFrom, done.parent_eq, List.map_cons]
    rcases (ancestors l.name).findSome? r.find? with _ | parent
    · rfl
    · exact congrArg _ (ih parent)

theorem lineage_eq (done : Configured h r r') (l : Logger) :
    r'.lineage (l.configured h) = (r.lineage l).map (Logger.configured h) := by
  rw [lineage, Logger.name_configured]
  exact done.lineageFrom_eq _ l

end Configured

/-- The same handlers see an entry. -/
theorem reached_map (h : Handler) (ls : List Logger) :
    reached (ls.map (Logger.configured h)) = (reached ls).map (Logger.configured h) := by
  induction ls with
  | nil => rfl
  | cons l ls ih =>
    rw [List.map_cons, reached, reached, Logger.propagates_configured]
    split
    · rw [ih, List.map_cons]
    · rfl

theorem exists_lineage (r : Registry) (l : Logger) : ∃ rest, r.lineage l = l :: rest := ⟨_, rfl⟩

/-! ### What a configured registry writes -/

/-- What a line makes the handlers of a logger and its ancestors write, once those that were handed out write with
a template to a sink. -/
def copies (r : Registry) (sink : Sink) (template : Template) (l : Logger) (line : Line) :
    List (Sink × String) :=
  (reached (r.lineage l)).flatMap fun k =>
    if k.registered then [(sink, template.render line ++ "\n")] else k.handlers.filterMap (written line)

section Configure

variable {sink : Sink} {template : Template} {level : Severity}

theorem effectiveLevel_eq (done : Configured ⟨level, some sink, template⟩ r r') (positive : 0 < level)
    (registered : l.registered = true) :
    r'.effectiveLevel (l.configured ⟨level, some sink, template⟩) = level := by
  obtain ⟨rest, own⟩ := exists_lineage r l
  have different : (level != 0) = true := by simpa using Int.ne_of_gt positive
  rw [effectiveLevel, done.lineage_eq, own, List.map_cons, List.map_cons,
    Logger.configured_of_registered _ registered]
  simp only [Logger.withHandler, List.find?_cons, different, Option.getD_some]

/-- A logger writes what reaches the level, and the level decides nothing else. -/
theorem log_eq (done : Configured ⟨level, some sink, template⟩ r r') (positive : 0 < level)
    (registered : l.registered = true) (severity : Severity) (message : String) :
    r'.log (l.configured ⟨level, some sink, template⟩) severity message =
      if level ≤ severity then r.copies sink template l ⟨l.name, severity, message⟩ else [] := by
  rw [log, isEnabled, effectiveLevel_eq done positive registered, done.lineage_eq, reached_map]
  by_cases reaches : level ≤ severity
  · rw [if_pos (by simp [reaches, Int.lt_of_lt_of_le positive reaches]), if_pos reaches, copies, List.flatMap_map,
      List.filterMap_flatMap, Logger.name_configured]
    refine List.flatMap_congr fun k _ => ?_
    -- the one handler of a logger that was handed out lets pass what has reached the level
    unfold Logger.configured
    split
    · simp [Logger.withHandler, written, reaches]
    · rfl
  · rw [if_neg (by simp [reaches]), if_neg reaches]

/-- **What an entry is written as does not depend on the level**, which decides only whether it is written. -/
theorem lines_eq (done : Configured ⟨level, some sink, template⟩ r r') (positive : 0 < level) {e : Entry}
    (found : r.find? e.source.logger = some l) (registered : l.registered = true) :
    r'.lines e = if level ≤ e.severity then
      r.copies sink template l ⟨e.source.logger, e.severity, e.text⟩ else [] := by
  have handed : (r'.get (some e.source.logger)).1 = l.configured ⟨level, some sink, template⟩ :=
    get_of_registered (by rw [done.find?_eq, found, Option.map_some]) (by simpa using registered)
  rw [lines, handed, log_eq done positive registered, name_of_find? found]

/-- The level is the threshold of every source. -/
theorem threshold_eq (done : Configured ⟨level, some sink, template⟩ r r') (positive : 0 < level)
    (knows : r.Knows) (source : Source) : r'.threshold source = level := by
  obtain ⟨l, found, registered⟩ := knows source
  have handed : (r'.get (some source.logger)).1 = l.configured ⟨level, some sink, template⟩ :=
    get_of_registered (by rw [done.find?_eq, found, Option.map_some]) (by simpa using registered)
  rw [threshold, handed, effectiveLevel_eq done positive registered]

/-- An entry that reaches the level is written at least once, by the handler of its own logger. -/
theorem mem_lines (done : Configured ⟨level, some sink, template⟩ r r') (positive : 0 < level) (knows : r.Knows)
    {e : Entry} (reaches : level ≤ e.severity) :
    (sink, template.render ⟨e.source.logger, e.severity, e.text⟩ ++ "\n") ∈ r'.lines e := by
  obtain ⟨l, found, registered⟩ := knows e.source
  obtain ⟨rest, own⟩ := exists_lineage r l
  have first : l ∈ reached (r.lineage l) := by
    rw [own, reached]
    split <;> exact List.mem_cons_self
  rw [lines_eq done positive found registered, if_pos reaches, copies]
  exact List.mem_flatMap.mpr ⟨l, first, by rw [if_pos registered]; exact List.mem_singleton_self _⟩

end Configure

/-- Of the lines of one entry all have its severity. -/
theorem filter_map_severity {β : Type} (level severity : Severity) (xs : List β) :
    (xs.map (severity, ·)).filter (fun line => decide (level ≤ line.1)) =
      if level ≤ severity then xs.map (severity, ·) else [] := by
  have test : (fun line : Severity × β => decide (level ≤ line.1)) ∘ (severity, ·) =
      fun _ => decide (level ≤ severity) := rfl
  rw [List.filter_map, test]
  split
  · next reaches => simp [reaches]
  · next low => simp [low]

/-- **Raising the level filters the lines by severity.** Two registries are configured alike but for the level. If
the journal under the higher one has the entries of the other journal that reach it, then the lines written for it
are those written for the other one whose severity reaches it. -/
theorem transcript_filter {r₁ r₂ : Registry} {sink : Sink} {template : Template} {level₁ level₂ : Severity}
    (done₁ : Configured ⟨level₁, some sink, template⟩ r r₁)
    (done₂ : Configured ⟨level₂, some sink, template⟩ r r₂) (knows : r.Knows) (positive : 0 < level₁)
    (le : level₁ ≤ level₂) {j₁ j₂ : Journal}
    (thinned : j₂.entries = j₁.entries.filter fun e => decide (level₂ ≤ e.severity)) :
    r₂.transcript j₂ = (r₁.transcript j₁).filter fun line => decide (level₂ ≤ line.1) := by
  have same {e : Entry} (reaches : level₂ ≤ e.severity) : r₂.lines e = r₁.lines e := by
    obtain ⟨l, found, registered⟩ := knows e.source
    rw [lines_eq done₁ positive found registered, if_pos (Int.le_trans le reaches),
      lines_eq done₂ (Int.lt_of_lt_of_le positive le) found registered, if_pos reaches]
  rw [transcript, transcript, List.filter_flatMap, thinned, Array.toList_filter]
  simp only [filter_map_severity]
  induction j₁.entries.toList with
  | nil => rfl
  | cons e es ih =>
    rw [List.filter_cons, List.flatMap_cons, ← ih]
    by_cases reaches : level₂ ≤ e.severity
    · simp [reaches, same reaches]
    · simp [reaches]

end Registry

end QuasiNewton.Logging
