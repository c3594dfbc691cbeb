import Typeahead.Number
import Typeahead.Text

/-!
JSON values. An object keeps its fields in the order in which their names first came; of two fields of
one name the later value counts.
-/

namespace Typeahead

/-- A JSON value. -/
inductive Json where
  | null
  | bool (b : Bool)
  | number (n : Number)
  | text (t : Text)
  | list (items : List Json)
  | object (fields : List (Text × Json))

namespace Json

/-- Sets a field, in its old place if the name is there already. -/
def setField (name : Text) (value : Json) : List (Text × Json) → List (Text × Json)
  | [] => [(name, value)]
  | (other, old) :: rest =>
    if other = name then (other, value) :: rest else (other, old) :: setField name value rest

mutual

/-- A value laid over another one: an object over an object field by field, anything else as it is. -/
def overlay (below? : Option Json) : Json → Json
  | .object fields =>
    match below? with
    | some (.object below) => .object (overlayFields below fields)
    | _ => .object fields
  | other => other

/-- Fields laid over other fields. -/
def overlayFields (below : List (Text × Json)) : List (Text × Json) → List (Text × Json)
  | [] => below
  | (name, value) :: rest =>
    overlayFields (setField name (overlay (below.lookup name) value) below) rest

end

/-- Sets a field of objects within objects, making the ones that are missing. Where something else than
an object stands on the way, nothing is set. -/
def setPath (value : Json) : List Text → List (Text × Json) → List (Text × Json)
  | [], fields => fields
  | [name], fields => setField name value fields
  | name :: path, fields =>
    match fields.lookup name with
    | none => setField name (.object (setPath value path [])) fields
    | some (.object inner) => setField name (.object (setPath value path inner)) fields
    | some _ => fields

/-- A JSON text of a string. -/
def ofString (s : String) : Json := .text s.toList

/-- A JSON whole number. -/
def ofNat (n : Nat) : Json := .number (.whole n)

/-- A JSON whole number. -/
def ofInt (n : Int) : Json := .number (.whole n)

/-- A JSON list of texts. -/
def ofTexts (ts : List Text) : Json := .list (ts.map .text)

/-- A value, or null where there is none. -/
def orNull {α : Type} (f : α → Json) : Option α → Json
  | some a => f a
  | none => .null

/-- An object with the given fields. -/
def ofFields (fields : List (String × Json)) : Json :=
  .object (fields.map fun (name, value) => (name.toList, value))

/-- The value of a field of an object. -/
def field? (name : String) : Json → Option Json
  | .object fields => fields.lookup name.toList
  | _ => none

/-- The items of a list whose items are all texts. -/
def texts? : Json → Option (List Text)
  | .list items => items.mapM fun
    | .text t => some t
    | _ => none
  | _ => none

end Json

end Typeahead
