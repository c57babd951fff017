import Mathlib.Data.List.Nodup
import QuasiNewton.Proofs.Logging.Configured

/-!
# Registries after calls

Loggers are asked for, levels are set and handlers are replaced, in any order. Nothing else touches the loggers, so
every one of them was handed out, lies below the common name, has one handler, and passes no entries on. Loggers and
handlers all have the level that was set last, whether they were there at the time or were made later, because new
ones are made with this level (`Orderly.afterAll`).

Loggers are known by their names, and no name occurs twice. Who asks for a name that has been asked for before is
given the logger that was made then, and nothing is made. A name that is not below the common name may be given with
the common name and a dot in front of it or without; the common name itself may not.
-/

set_option autoImplicit false

namespace QuasiNewton.Logging

/-! ### Names -/

/-- A name is the common name of all loggers that are handed out, or lies below it. -/
def InNamespace (name : String) : Prop := name = rootName ∨ ∃ rest, name = rootName ++ "." ++ rest

theorem isPrefixOf_iff {start s : String} : start.isPrefixOf s = true ↔ ∃ rest, s = start ++ rest := by
  rw [String.isPrefixOf, String.startsWith_string_iff]
  constructor
  · rintro ⟨rest, split⟩
    refine ⟨String.ofList rest, String.toList_inj.mp ?_⟩
    rw [String.toList_append, String.toList_ofList, split]
  · rintro ⟨rest, rfl⟩
    exact ⟨rest.toList, String.toList_append.symm⟩

theorem qualified_of_inNamespace {name : String} (inside : InNamespace name) : qualified (some name) = name := by
  refine if_pos ?_
  rw [Bool.or_eq_true, decide_eq_true_eq, isPrefixOf_iff]
  exact inside

theorem qualified_of_not_inNamespace {name : String} (outside : ¬ InNamespace name) :
    qualified (some name) = rootName ++ "." ++ name := by
  refine if_neg ?_
  rw [Bool.or_eq_true, decide_eq_true_eq, isPrefixOf_iff]
  exact outside

theorem inNamespace_qualified (name? : Option String) : InNamespace (qualified name?) := by
  rcases name? with _ | name
  · exact .inl (qualified_of_inNamespace (.inl rfl))
  · by_cases inside : InNamespace name
    · rwa [qualified_of_inNamespace inside]
    · rw [qualified_of_not_inNamespace inside]
      exact .inr ⟨name, rfl⟩

/-- The common name in front of a name makes no difference exactly for the names that are not below it yet. -/
theorem qualified_prefixed_iff (name : String) :
    qualified (some (rootName ++ "." ++ name)) = qualified (some name) ↔ ¬ InNamespace name := by
  rw [qualified_of_inNamespace (.inr ⟨name, rfl⟩)]
  by_cases inside : InNamespace name
  · rw [qualified_of_inNamespace inside, String.append_eq_right_iff]
    exact iff_of_false (by decide +kernel) (not_not_intro inside)
  · rw [qualified_of_not_inNamespace inside]
    exact iff_of_true rfl inside

/-- The name of a level stands for it in capitals and in small letters. -/
theorem level_of_name {text : String} {level : Severity} (known : (text, level) ∈ levelNames) {name : String}
    (same : name.toUpper = text) : (LevelRequest.named name).level = .ok level := by
  have latin : ∀ entry ∈ levelNames, entry.1.toList.all fun c => c.toNat < 128 := by decide +kernel
  have found : ∀ entry ∈ levelNames, levelNames.lookup entry.1 = some entry.2 := by decide +kernel
  have capitals : name.map capital = text := by
    rw [← same, String.toUpper, ← String.toList_inj, String.toList_map, String.toList_map]
    refine List.map_congr_left fun c inside => ?_
    have within : c.toUpper.toNat < 128 := by
      refine of_decide_eq_true (List.all_eq_true.mp (latin _ known) _ ?_)
      rw [← same, String.toUpper, String.toList_map]
      exact List.mem_map_of_mem inside
    -- the two letters that are treated apart have no capital otherwise
    rw [capital, if_neg, if_neg]
    · rintro rfl
      exact absurd within (by decide +kernel)
    · rintro rfl
      exact absurd within (by decide +kernel)
  simp only [LevelRequest.level, capitals, found _ known]

/-! ### Calls -/

/-- What is asked of a registry. -/
inductive Call where
  /-- The logger of a name. -/
  | get (name? : Option String)
  | setLevel (request : LevelRequest)
  | configure (c : Configuration)

/-- The level that a call sets; a call that is refused sets none. -/
def Call.level? : Call → Option Severity
  | get _ => none
  | setLevel request => request.level.toOption
  | configure c => if c.template.isSome then c.level.level.toOption else none

/-- The level that was set last, out of the calls that set one. In the beginning it is that of warnings. -/
def lastLevel (calls : List Call) : Severity := (calls.reverse.findSome? Call.level?).getD .warning

namespace Registry

/-- The registry after a call; a call that is refused changes nothing. -/
def after (r : Registry) : Call → Registry
  | .get name? => (r.get name?).2
  | .setLevel request => (r.setLevel request).toOption.getD r
  | .configure c => (r.configure c).toOption.getD r

/-- The registry after calls in a row. -/
def afterAll (r : Registry) (calls : List Call) : Registry := calls.foldl after r

end Registry

/-! ### What calls keep -/

namespace Logger

/-- The logger of a name, as it is made when it is asked for first. -/
def made (name : String) (level : Severity) : Logger :=
  ⟨name, level, [⟨level, some .standard, .standard⟩], false, true⟩

/-- A logger that was handed out, with its name in the namespace and one handler, whose level is its own. -/
structure Kept (level : Severity) (l : Logger) : Prop where
  registered : l.registered = true
  named : InNamespace l.name
  handled : ∃ h, l.handlers = [h] ∧ h.level = level
  level_eq : l.level = level
  alone : l.propagates = false

variable {l : Logger} {level : Severity}

theorem kept_made {name : String} (named : InNamespace name) (level : Severity) : (made name level).Kept level :=
  ⟨rfl, named, ⟨_, rfl, rfl⟩, rfl, rfl⟩

theorem Kept.withLevel (kept : l.Kept level) (level' : Severity) : (l.withLevel level').Kept level' := by
  obtain ⟨h, only, -⟩ := kept.handled
  exact ⟨kept.registered, kept.named, ⟨{ h with level := level' }, congrArg (List.map _) only, rfl⟩, rfl, kept.alone⟩

theorem Kept.withHandler (kept : l.Kept level) (h : Handler) : (l.withHandler h).Kept h.level :=
  ⟨kept.registered, kept.named, ⟨h, rfl, rfl⟩, rfl, kept.alone⟩

end Logger

namespace Registry

variable {r : Registry} {level : Severity} {l : Logger}

/-- The names of all loggers, in the order in which these were made. -/
def names (r : Registry) : List String := r.loggers.map Logger.name

theorem find?_isSome_iff {name : String} : (r.find? name).isSome ↔ name ∈ r.names := by
  simp [find?, names]

theorem names_mapRegistered (r : Registry) {f : Logger → Logger} (named : ∀ l, (f l).name = l.name) :
    (r.mapRegistered f).names = r.names := by
  rw [names, mapRegistered, List.map_map]
  refine List.map_congr_left fun l _ => ?_
  rw [Function.comp_apply]
  split
  · exact named l
  · rfl

/-- What a call can do to a registry: nothing, or make a logger at the level for new ones, or set a level, for new
loggers and for those that are there. -/
inductive Changes (level : Severity) (r : Registry) : Option Severity → Registry → Prop
  | nothing : Changes level r none r
  | makes (name : String) (named : InNamespace name) (absent : name ∉ r.names) :
      Changes level r none { r with loggers := r.loggers ++ [.made name level] }
  | sets (level' : Severity) (f : Logger → Logger) (kept : ∀ l, l.Kept level → (f l).Kept level')
      (named : ∀ l, (f l).name = l.name) :
      Changes level r (some level') { r.mapRegistered f with defaultLevel := level' }

/-- Loggers keep their names and places. -/
theorem Changes.names_prefix {level? : Option Severity} {r' : Registry} (c : Changes level r level? r') :
    r.names <+: r'.names := by
  cases c with
  | nothing => exact List.prefix_rfl
  | makes name named absent =>
    rw [names, names, List.map_append]
    exact List.prefix_append _ _
  | sets level' f kept named =>
    have same : (r.mapRegistered f).names = r.names := names_mapRegistered r named
    exact same.symm ▸ List.prefix_rfl

/-- A registry as calls leave it when all levels have been set to one: every logger has this level, new ones get it,
and no name occurs twice. -/
structure Orderly (level : Severity) (r : Registry) : Prop where
  default_eq : r.defaultLevel = level
  kept : ∀ l ∈ r.loggers, l.Kept level
  distinct : r.names.Nodup

theorem orderly_empty (level : Severity) : Orderly level ⟨level, []⟩ := ⟨rfl, nofun, List.nodup_nil⟩

namespace Orderly

theorem of_changes (h : r.Orderly level) {level? : Option Severity} {r' : Registry}
    (c : Changes level r level? r') : r'.Orderly (level?.getD level) := by
  cases c with
  | nothing => exact h
  | makes name named absent =>
    refine ⟨h.default_eq, fun l inside => ?_, ?_⟩
    · rcases List.mem_append.mp inside with before | last
      · exact h.kept l before
      · obtain rfl := List.mem_singleton.mp last
        exact Logger.kept_made named level
    · rw [names, List.map_append]
      exact h.distinct.append (List.nodup_singleton _) (List.disjoint_singleton.mpr absent)
  | sets level' f kept named =>
    refine ⟨rfl, fun l inside => ?_, ?_⟩
    · obtain ⟨l, before, rfl⟩ := List.mem_map.mp inside
      rw [if_pos (h.kept l before).registered]
      exact kept l (h.kept l before)
    · have same : (r.mapRegistered f).names = r.names := names_mapRegistered r named
      exact same ▸ h.distinct

/-- Who asks for a logger is given the one that is there, or else a new one, which is added at the end. -/
theorem get_cases (h : r.Orderly level) (name? : Option String) :
    (∃ l ∈ r.loggers, l.name = qualified name? ∧ r.get name? = (l, r)) ∨
      qualified name? ∉ r.names ∧ r.get name? =
        (.made (qualified name?) level, { r with loggers := r.loggers ++ [.made (qualified name?) level] }) := by
  rcases found : r.find? (qualified name?) with _ | l
  · have absent : qualified name? ∉ r.names := by
      rw [← find?_isSome_iff, found]
      exact nofun
    refine .inr ⟨absent, ?_⟩
    simp only [get, found, Option.getD_none, Logger.prepared, List.isEmpty_nil, if_true, put, Option.isSome_none,
      h.default_eq, Logger.made, Bool.false_eq_true, if_false]
  · have inside := List.mem_of_find?_eq_some found
    refine .inl ⟨l, inside, name_of_find? found, ?_⟩
    simp only [get, found, Option.getD_some, (h.kept l inside).registered, if_true]

theorem get_changes (h : r.Orderly level) (name? : Option String) : Changes level r none (r.get name?).2 := by
  rcases h.get_cases name? with ⟨l, -, -, answered⟩ | ⟨absent, answered⟩
  · rw [answered]
    exact .nothing
  · rw [answered]
    exact .makes _ (inNamespace_qualified name?) absent

/-- What a call does, and which level it sets. -/
theorem changes (h : r.Orderly level) (call : Call) : Changes level r call.level? (r.after call) := by
  cases call with
  | get name? => exact h.get_changes name?
  | setLevel request =>
    simp only [Registry.after, setLevel, Call.level?]
    cases request.level with
    | error fault => exact .nothing
    | ok level' => exact .sets level' _ (fun l kept => kept.withLevel level') fun _ => rfl
  | configure c =>
    simp only [Registry.after, configure, Call.level?]
    cases c.template with
    | none => exact .nothing
    | some template =>
      cases c.level.level with
      | error fault => exact .nothing
      | ok level' =>
        exact .sets level' _ (fun l kept => kept.withHandler ⟨level', some c.sink, template⟩) fun _ => rfl

/-- **Calls leave all loggers in order**, at the level that was set last. The induction is on the calls. -/
theorem afterAll (h : r.Orderly level) (calls : List Call) :
    (r.afterAll calls).Orderly ((calls.reverse.findSome? Call.level?).getD level) := by
  induction calls generalizing r level with
  | nil => exact h
  | cons call calls ih =>
    rw [List.reverse_cons, List.findSome?_append, List.findSome?_singleton, Option.getD_or]
    exact ih (h.of_changes (h.changes call))

theorem names_afterAll (h : r.Orderly level) (calls : List Call) : r.names <+: (r.afterAll calls).names := by
  induction calls generalizing r level with
  | nil => exact List.prefix_rfl
  | cons call calls ih =>
    have c := h.changes call
    exact c.names_prefix.trans (ih (h.of_changes c))

/-- The logger that was handed out is in the registry under the name that was asked for. -/
theorem get_known (h : r.Orderly level) (name? : Option String) :
    (r.get name?).1.name = qualified name? ∧ qualified name? ∈ (r.get name?).2.names := by
  rcases h.get_cases name? with ⟨l, inside, named, answered⟩ | ⟨-, answered⟩
  · rw [answered]
    exact ⟨named, named ▸ List.mem_map_of_mem inside⟩
  · rw [answered]
    exact ⟨rfl, List.mem_map_of_mem (List.mem_append_right _ (List.mem_singleton_self _))⟩

/-- Of the names that are known no logger is made again. -/
theorem get_of_mem (h : r.Orderly level) {name? : Option String} (known : qualified name? ∈ r.names) :
    ∃ l ∈ r.loggers, l.name = qualified name? ∧ r.get name? = (l, r) := by
  rcases h.get_cases name? with again | ⟨absent, -⟩
  · exact again
  · exact absurd known absent

theorem mem_registered (h : r.Orderly level) {l : Logger} : l ∈ r.registered ↔ l ∈ r.loggers := by
  rw [registered, List.mem_mergeSort, List.mem_filter]
  exact and_iff_left_of_imp fun inside => (h.kept l inside).registered

theorem nodup_registered (h : r.Orderly level) : (r.registered.map Logger.name).Nodup := by
  refine ((List.mergeSort_perm _ _).map Logger.name).nodup_iff.mpr ?_
  exact h.distinct.sublist (List.filter_sublist.map Logger.name)

end Orderly

theorem orderly_initial : initial.Orderly .warning := by
  have first := (orderly_empty .warning).get_changes (some Source.run.logger)
  have one := (orderly_empty .warning).of_changes first
  exact one.of_changes (one.get_changes _)

/-- **All loggers follow the level that was set last.** After any calls, every logger that was handed out has a name in
the namespace, one handler, and the level of the last call that set one, as its handler has, and passes no entries on.
A level may be given by its name in capitals or in small letters. No name occurs twice; who asks for a name again, with
any calls in between, is given the logger of that name, and the registry stays as it is. To put the common name in front
of a name makes no difference, unless the name is the common name itself or below it. -/
theorem loggers_follow_calls (calls : List Call) :
    (∀ l ∈ (initial.afterAll calls).registered, InNamespace l.name ∧
      (∃ h, l.handlers = [h] ∧ h.level = lastLevel calls) ∧ l.level = lastLevel calls ∧ l.propagates = false) ∧
    ((initial.afterAll calls).registered.map Logger.name).Nodup ∧
    (∀ text level name, (text, level) ∈ levelNames → name.toUpper = text →
      (LevelRequest.named name).level = .ok level) ∧
    (∀ name? name?' between, qualified name?' = qualified name? →
      let asked := (initial.afterAll calls).get name?
      let r := asked.2.afterAll between
      ∃ l ∈ r.registered, l.name = asked.1.name ∧ r.get name?' = (l, r)) ∧
    ∀ name, qualified (some (rootName ++ "." ++ name)) = qualified (some name) ↔ ¬ InNamespace name := by
  have orderly := orderly_initial.afterAll calls
  refine ⟨fun l inside => ?_, orderly.nodup_registered, fun text level name known same => level_of_name known same, ?_,
    qualified_prefixed_iff⟩
  · have kept := orderly.kept l (orderly.mem_registered.mp inside)
    exact ⟨kept.named, kept.handled, kept.level_eq, kept.alone⟩
  · intro name? name?' between same asked r
    obtain ⟨named, known⟩ := orderly.get_known name?
    have once := orderly.of_changes (orderly.get_changes name?)
    have later := once.afterAll between
    obtain ⟨l, inside, again, answered⟩ := later.get_of_mem (same ▸ (once.names_afterAll between).subset known)
    exact ⟨l, later.mem_registered.mpr inside, again.trans (same.trans named.symm), answered⟩

/-- Calls that make a logger, set two levels by name, and are refused a third one for their template. -/
def solverCalls : List Call :=
  [.get (some "solver"), .setLevel (.named "Info"), .configure { level := .named "Debug" },
    .configure { level := .numbered .error, template? := some "plain" }]

theorem solver_follows_calls :
    ("DEBUG", Severity.debug) ∈ levelNames ∧ "Debug".toUpper = "DEBUG" ∧
    (LevelRequest.named "Debug").level = .ok .debug ∧ lastLevel solverCalls = .debug ∧
    (∀ l ∈ (initial.afterAll solverCalls).registered, l.level = .debug) ∧
    qualified (some "qnopt.solver") = qualified (some "solver") ∧
    let asked := (initial.afterAll solverCalls).get (some "solver")
    let r := asked.2.afterAll solverCalls
    ∃ l ∈ r.registered, l.name = asked.1.name ∧ r.get (some "qnopt.solver") = (l, r) := by
  obtain ⟨kept, -, levels, again, -⟩ := loggers_follow_calls solverCalls
  have known : ("DEBUG", Severity.debug) ∈ levelNames := by decide +kernel
  have capitals : "Debug".toUpper = "DEBUG" := by decide +kernel
  have last : lastLevel solverCalls = .debug := by decide +kernel
  have same : qualified (some "qnopt.solver") = qualified (some "solver") := by decide +kernel
  refine ⟨known, capitals, levels _ _ _ known capitals, last, fun l inside => ?_, same, again _ _ solverCalls same⟩
  obtain ⟨-, -, level_eq, -⟩ := kept l inside
  rw [level_eq, last]

/-- The common name in front of the common name is the name of another logger, which is made when it is asked for. -/
theorem root_below_itself_is_another :
    let asked := initial.get (some rootName)
    let again := asked.2.get (some (rootName ++ "." ++ rootName))
    again.1.name ≠ asked.1.name ∧ again.2.loggers.length = asked.2.loggers.length + 1 := by
  decide +kernel

end Registry

end QuasiNewton.Logging
