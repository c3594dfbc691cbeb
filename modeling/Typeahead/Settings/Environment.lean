import Typeahead.Json.Parser
import Typeahead.Settings
import Typeahead.Text.Case
import Typeahead.Text.Search

/-!
Settings from the variables of an environment. The case of their names does not count. A variable named
like a section holds the section as JSON; a variable with a section and a field in its name, two
underscores between them, holds the text of one setting and is laid over the section. More such names
lead into objects within objects.
-/

namespace Typeahead

/-- The variables of an environment with their values. -/
abbrev Environment := List (Text × Text)

/-- Why an environment gives no settings. -/
inductive EnvironmentError where
  | brokenSection (name : Text)
  | faulty (faults : List MisplacedSetting)
  deriving DecidableEq, Repr

/-- The wording for a section that is no JSON document. -/
def EnvironmentError.brokenMessage (name : Text) : String :=
  "error parsing value for field \"" ++ name.toString ++ "\" from source \"EnvSettingsSource\""

namespace Environment

/-- The names in the name of a variable, cut at two underscores from the left. -/
def names : Text → List Text
  | [] => [[]]
  | '_' :: '_' :: rest => [] :: names rest
  | c :: rest =>
    match names rest with
    | [] => [[c]]
    | name :: more => (c :: name) :: more

/-- The environment with names in lower case, each of them once. -/
def lowered (env : Environment) : List (Text × Json) :=
  env.foldl (fun vars (name, value) => Json.setField name.lower (.text value) vars) []

/-- The settings of a section that have variables of their own. -/
def exploded (vars : List (Text × Json)) (name : Text) : List (Text × Json) :=
  vars.foldl (fun fields (var, value) =>
    match Text.after? sameExactly (name ++ ['_', '_']) var with
    | some path => Json.setPath value (names path) fields
    | none => fields) []

/-- The fields of a section under the names that they have in the settings. -/
def renamed (known : List Text) (fields : List (Text × Json)) : List (Text × Json) :=
  fields.foldl (fun named (name, value) =>
    Json.setField ((known.find? fun k => k = name.lower).getD name) value named) []

/-- A section of the environment; there is none without a variable for it, or where it is null. -/
def sectionOf (vars : List (Text × Json)) (name : Text) (known : List Text) :
    Except EnvironmentError (Option Json) :=
  match vars.lookup name with
  | some (.text document) =>
    match Json.parse? document with
    | none => .error (.brokenSection name)
    | some .null => .ok none
    | some (.object fields) =>
      .ok (some (.object (renamed known (Json.overlayFields fields (exploded vars name)))))
    | some other => .ok (some other)
  | _ =>
    match exploded vars name with
    | [] => .ok none
    | fields => .ok (some (.object (renamed known fields)))

/-- The document of the settings in an environment. -/
def document (env : Environment) : Except EnvironmentError (List (Text × Json)) :=
  Settings.sections.foldlM (fun document (name, known) => do
    match ← sectionOf env.lowered name known with
    | some value => return document ++ [(name, value)]
    | none => return document) []

/-- The settings in an environment. -/
def settings (env : Environment) : Except EnvironmentError Settings := do
  (Settings.ofDocument (← env.document)).mapError .faulty

end Environment

end Typeahead
