import Typeahead.Checked
import Typeahead.Json.Parser
import Typeahead.Number.Numeral
import Typeahead.Query
import Typeahead.Suggestion.Item

/-!
The forms of the service: the fields that a request brings along as JSON, and what can be wrong with
them. A request without a body, or with one that is not said to be JSON, brings no field. All faults of a
form are told at once, also fields that the form does not have.
-/

namespace Typeahead

/-- A request to the service. The target is a path, perhaps with a query. -/
structure Submission where
  method : Text
  target : Text
  contentType : Text
  body : Text

/-- What can be wrong with a field. -/
inductive FieldFault where
  | missing
  | null
  | noText
  | noWhole
  | noReal
  | tooLarge
  | notFinite
  | notOneOf (names : List String)
  | negative
  | unknown
  deriving DecidableEq, Repr

/-- The wording of a fault. -/
def FieldFault.message : FieldFault → String
  | .missing => "Missing data for required field."
  | .null => "Field may not be null."
  | .noText => "Not a valid string."
  | .noWhole => "Not a valid integer."
  | .noReal => "Not a valid number."
  | .tooLarge => "Number too large."
  | .notFinite => "Special numeric values (nan or infinity) are not permitted."
  | .notOneOf names => "Must be one of: " ++ ", ".intercalate names ++ "."
  | .negative => "Must be greater than or equal to 0."
  | .unknown => "Unknown field."

/-- A fault and the field that has it. -/
structure MisfilledField where
  field : Text
  fault : FieldFault
  deriving DecidableEq, Repr

/-- Why a form cannot be read. -/
inductive FormFault where
  | brokenJson
  | noObject
  | misfilled (faults : List MisfilledField)
  deriving DecidableEq, Repr

/-- Whether a content type is JSON, or a format that builds on it. -/
def isJsonType (contentType : Text) : Bool :=
  let (kind, sub) := Text.cut '/' ((Text.trim isBlank (Text.cut ';' contentType).1).map Char.toLower)
  match sub with
  | some sub => kind = "application".toList && (sub = "json".toList ||
      (!sub.contains '/' && "+json".toList.isSuffixOf sub))
  | none => false

/-- The fields that a request brings along. -/
def Submission.fields (s : Submission) : Except FormFault (List (Text × Json)) :=
  if s.body.isEmpty || !isJsonType s.contentType then .ok []
  else
    match Json.parse? s.body with
    | none => .error .brokenJson
    | some (.object fields) => .ok fields
    | some _ => .error .noObject

namespace Field

/-- A reader of a field. -/
abbrev Reader (α : Type) := Json → Except FieldFault α

/-- Reads a text. -/
def text : Reader Text
  | .text t => .ok t
  | _ => .error .noText

/-- Reads a whole number; a fraction is cut off. -/
def whole : Reader Int
  | .number (.whole n) => .ok n
  | .number (.real (.finite x)) => .ok (x.num.tdiv x.den)
  | .number (.real (.infinite _)) => .error .tooLarge
  | .text t =>
    match Numeral.int? t with
    | some n => .ok n
    | none => .error .noWhole
  | _ => .error .noWhole

/-- Reads a whole number that is not negative. -/
def natural : Reader Int := fun j => do
  let n ← whole j
  if n < 0 then .error .negative else .ok n

/-- Reads a number with a fraction. -/
def real : Reader Binary64
  | .number (.whole n) =>
    match Binary64.round n with
    | .finite x => .ok (.finite x)
    | _ => .error .tooLarge
  | .number (.real x) => .ok x
  | .text t =>
    match Numeral.real? t with
    | some x => .ok x
    | none => .error .noReal
  | _ => .error .noReal

/-- Reads a finite number that is not negative. -/
def span : Reader Rat := fun j => do
  match ← real j with
  | .finite x => if x < 0 then .error .negative else .ok x
  | _ => .error .notFinite

/-- Reads one of the things that have names. -/
def oneOf {α : Type} (all : List α) (name : α → String) : Reader α
  | .text t =>
    match all.find? fun a => (name a).toList = t with
    | some a => .ok a
    | none => .error (.notOneOf (all.map name))
  | _ => .error (.notOneOf (all.map name))

/-- Reads a field of a form; without a default it has to be there. -/
def ofForm {α : Type} (fields : List (Text × Json)) (name : String) (read : Reader α)
    (default? : Option α := none) : Checked MisfilledField α :=
  let place := MisfilledField.mk name.toList
  match fields.lookup name.toList, default? with
  | some .null, _ => .faulty [place .null]
  | some j, _ => .ofExcept place (read j)
  | none, some a => .good a
  | none, none => .faulty [place .missing]

/-- The fields that a form does not have. -/
def unknown (fields : List (Text × Json)) (known : List String) : List MisfilledField :=
  (fields.filter fun (name, _) => !known.contains name.toString).map fun (name, _) =>
    ⟨name, .unknown⟩

end Field

/-- The form for suggestions; the cursor counts UTF-16 code units. -/
structure SuggestForm where
  query : Text
  cursor : Int
  language : Language
  deriving DecidableEq

/-- The form for a completion; the cursor counts UTF-16 code units. -/
structure CompleteForm where
  query : Text
  cursor : Int
  selected : Text
  kind : ItemKind
  language : Language
  label? : Option Text

/-- The form for a change of the cache. -/
structure CacheForm where
  ttl : Rat

/-- Reads a form from the fields of a request. -/
def Submission.read {α : Type} (s : Submission) (known : List String)
    (read : List (Text × Json) → Checked MisfilledField α) : Except FormFault α := do
  let fields ← s.fields
  ((read fields).blaming (Field.unknown fields known)).toExcept.mapError .misfilled

/-- The form for suggestions in a request. -/
def SuggestForm.ofSubmission (s : Submission) : Except FormFault SuggestForm :=
  s.read ["query", "cursor_position", "language"] fun fields =>
    SuggestForm.mk <$> Field.ofForm fields "query" Field.text
      <*> Field.ofForm fields "cursor_position" Field.natural
      <*> Field.ofForm fields "language" (Field.oneOf Language.all Language.name) Language.metrics

/-- The form for a completion in a request. -/
def CompleteForm.ofSubmission (s : Submission) : Except FormFault CompleteForm :=
  s.read ["query", "cursor_position", "selected_item", "item_kind", "language", "label"]
    fun fields =>
      CompleteForm.mk <$> Field.ofForm fields "query" Field.text
        <*> Field.ofForm fields "cursor_position" Field.natural
        <*> Field.ofForm fields "selected_item" Field.text
        <*> Field.ofForm fields "item_kind" (Field.oneOf ItemKind.all ItemKind.name)
        <*> Field.ofForm fields "language" (Field.oneOf Language.all Language.name) Language.metrics
        <*> Field.ofForm fields "label" (fun j => some <$> Field.text j) (some none)

/-- The form for a change of the cache in a request. -/
def CacheForm.ofSubmission (s : Submission) : Except FormFault CacheForm :=
  s.read ["ttl_s"] fun fields => CacheForm.mk <$> Field.ofForm fields "ttl_s" Field.span

/-- The item that a completion accepts. Without a label, or with an empty one, what is inserted is the
label. -/
def CompleteForm.item (f : CompleteForm) : Item :=
  { label := (f.label?.filter (!·.isEmpty)).getD f.selected, kind := f.kind, insert := f.selected }

end Typeahead
