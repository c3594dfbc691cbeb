import Typeahead.Cache
import Typeahead.Checked
import Typeahead.Json
import Typeahead.Lenient
import Typeahead.Settings.Address

/-!
The settings of the service, in four sections. A section is read from a document with a field a
setting; a field that is missing has its default, a field of another name does not count. Texts are read
leniently where a number or a truth value is wanted. All faults are collected, in the order of the
fields.
-/

namespace Typeahead

/-- What can be wrong with a setting. -/
inductive SettingFault where
  | missing
  | noSection
  | unknown
  | noText
  | noAddress
  | address (fault : AddressFault)
  | noWhole
  | wholeText
  | wholeFraction
  | wholeSize
  | noReal
  | realText
  | notFinite
  | noTruth
  | truthText
  | tooSmall
  | notAbove
  deriving DecidableEq, Repr

/-- The code of a fault. -/
def SettingFault.code : SettingFault → String
  | .missing => "missing"
  | .noSection => "model_type"
  | .unknown => "extra_forbidden"
  | .noText => "string_type"
  | .noAddress => "url_type"
  | .address .malformed => "url_parsing"
  | .address .otherScheme => "url_scheme"
  | .address .tooLong => "url_too_long"
  | .noWhole => "int_type"
  | .wholeText => "int_parsing"
  | .wholeFraction => "int_from_float"
  | .wholeSize => "int_parsing_size"
  | .noReal => "float_type"
  | .realText => "float_parsing"
  | .notFinite => "finite_number"
  | .noTruth => "bool_type"
  | .truthText => "bool_parsing"
  | .tooSmall => "greater_than_equal"
  | .notAbove => "greater_than"

/-- A fault and where it is: the section, and the field in it. -/
structure MisplacedSetting where
  place : List Text
  fault : SettingFault
  deriving DecidableEq, Repr

/-- Where the service listens. -/
structure ServerSettings where
  host : Text := "0.0.0.0".toList
  port : Int := 8080

/-- How the catalog is reached. -/
structure CatalogSettings where
  url : Text
  token : Text := []
  site : Text := "datadoghq.com".toList
  delegates : Bool := false

/-- How names are fetched and cached. -/
structure FetchSettings where
  ttl : Number := .whole 30
  cacheSize : Int := 1000
  slots : Int := 5
  limit : Number := .whole 2

/-- How suggestions are shown. -/
structure MenuSettings where
  pause : Number := .real (.ofDecimal false 4 (-1))
  itemLimit : Int := 100

/-- The settings of the service. -/
structure Settings where
  server : ServerSettings
  catalog : CatalogSettings
  fetch : FetchSettings
  menu : MenuSettings

namespace Setting

/-- A reader of a setting. -/
abbrev Reader (α : Type) := Json → Except SettingFault α

/-- Reads a text. -/
def text : Reader Text
  | .text t => .ok t
  | _ => .error .noText

/-- Reads an address of the catalog. -/
def address : Reader Text
  | .text t => (Address.normalize t).mapError .address
  | _ => .error .noAddress

/-- Reads a whole number. Of the numbers with a fraction only those of a word are taken for one. -/
def whole : Reader Int
  | .number (.whole n) => .ok n
  | .number (.real (.finite x)) =>
    if x.den != 1 then .error .wholeFraction
    else if Number.fitsWord x.num then .ok x.num
    else .error .wholeSize
  | .number (.real _) => .error .notFinite
  | .bool b => .ok (if b then 1 else 0)
  | .text t =>
    match Lenient.int? t with
    | some n => .ok n
    | none => .error .wholeText
  | _ => .error .noWhole

/-- Reads a number with a fraction. -/
def real : Reader Number
  | .number (.whole n) =>
    match Number.toReal (.whole n) with
    | .real (.finite x) => .ok (.real (.finite x))
    | _ => .error .noReal
  | .number n => .ok n
  | .bool b => .ok (.real (.finite (if b then 1 else 0)))
  | .text t =>
    match Lenient.real? t with
    | some x => .ok (.real x)
    | none => .error .realText
  | _ => .error .noReal

/-- The truth value that a whole number stands for. -/
def ofWord (n : Int) : Except SettingFault Bool :=
  if n = 0 then .ok false
  else if n = 1 then .ok true
  else if Number.fitsWord n then .error .truthText
  else .error .noTruth

/-- Reads a truth value. -/
def truth : Reader Bool
  | .bool b => .ok b
  | .number (.whole n) => ofWord n
  | .number (.real (.finite x)) => if x.den = 1 then ofWord x.num else .error .noTruth
  | .text t =>
    match Lenient.bool? t with
    | some b => .ok b
    | none => .error .truthText
  | _ => .error .noTruth

/-- Reads a value that has to pass a test. -/
def passing {α : Type} (read : Reader α) (test : α → Bool) (fault : SettingFault) : Reader α :=
  fun j => do
    let a ← read j
    if test a then .ok a else .error fault

/-- Reads a number that is not negative. -/
def notNegative : Reader Number := passing real (Number.atLeast 0) .tooSmall

/-- Reads a number above zero. -/
def positive : Reader Number := passing real (Number.above 0) .notAbove

/-- Reads a whole number above zero. -/
def positiveWhole : Reader Int := passing whole (0 < ·) .notAbove

end Setting

/-- A section of a document: its name and its fields. -/
structure Section where
  name : Text
  fields : List (Text × Json)

/-- Reads a field of a section; without a default it has to be there. -/
def Section.field {α : Type} (s : Section) (name : String) (read : Setting.Reader α)
    (default? : Option α := none) : Checked MisplacedSetting α :=
  let place := MisplacedSetting.mk [s.name, name.toList]
  match s.fields.lookup name.toList, default? with
  | some j, _ => .ofExcept place (read j)
  | none, some a => .good a
  | none, none => .faulty [place .missing]

namespace Settings

/-- Reads the section of the server. -/
def readServer (s : Section) : Checked MisplacedSetting ServerSettings :=
  let usual : ServerSettings := {}
  ServerSettings.mk <$> s.field "host" Setting.text usual.host
    <*> s.field "port" Setting.whole usual.port

/-- Reads the section of the catalog. -/
def readCatalog (s : Section) : Checked MisplacedSetting CatalogSettings :=
  let usual : CatalogSettings := { url := [] }
  CatalogSettings.mk <$> s.field "url" Setting.address
    <*> s.field "token" Setting.text usual.token
    <*> s.field "site" Setting.text usual.site
    <*> s.field "delegate_completion" Setting.truth usual.delegates

/-- Reads the section of the fetches. -/
def readFetch (s : Section) : Checked MisplacedSetting FetchSettings :=
  let usual : FetchSettings := {}
  FetchSettings.mk <$> s.field "cache_ttl_s" Setting.notNegative usual.ttl
    <*> s.field "cache_max_size" Setting.positiveWhole usual.cacheSize
    <*> s.field "max_concurrent_fetches" Setting.positiveWhole usual.slots
    <*> s.field "fetch_timeout_s" Setting.positive usual.limit

/-- Reads the section of the menu. -/
def readMenu (s : Section) : Checked MisplacedSetting MenuSettings :=
  let usual : MenuSettings := {}
  MenuSettings.mk <$> s.field "debounce_s" Setting.notNegative usual.pause
    <*> s.field "max_suggestions" Setting.positiveWhole usual.itemLimit

/-- The names of the sections, each with the names of its fields. -/
def sections : List (Text × List Text) := [
  ("server".toList, ["host".toList, "port".toList]),
  ("catalog".toList,
    ["url".toList, "token".toList, "site".toList, "delegate_completion".toList]),
  ("orchestrator".toList,
    ["cache_ttl_s".toList, "cache_max_size".toList, "max_concurrent_fetches".toList,
      "fetch_timeout_s".toList]),
  ("autocomplete".toList, ["debounce_s".toList, "max_suggestions".toList])]

/-- Reads a section of a document. A section that is missing is read as one without fields, unless it is
required. -/
def readSection {α : Type} (document : List (Text × Json)) (name : String) (required : Bool)
    (read : Section → Checked MisplacedSetting α) : Checked MisplacedSetting α :=
  match document.lookup name.toList with
  | some (.object fields) => read ⟨name.toList, fields⟩
  | some _ => .faulty [⟨[name.toList], .noSection⟩]
  | none =>
    if required then .faulty [⟨[name.toList], .missing⟩] else read ⟨name.toList, []⟩

/-- The sections of a document that there are not. -/
def unknownSections (document : List (Text × Json)) : List MisplacedSetting :=
  (document.filter fun (name, _) => !(sections.map (·.1)).contains name).map fun (name, _) =>
    ⟨[name], .unknown⟩

/-- Reads the settings from a document with a field a section. -/
def ofDocument (document : List (Text × Json)) : Except (List MisplacedSetting) Settings :=
  let settings := Settings.mk <$> readSection document "server" false readServer
    <*> readSection document "catalog" true readCatalog
    <*> readSection document "orchestrator" false readFetch
    <*> readSection document "autocomplete" false readMenu
  (settings.blaming (unknownSections document)).toExcept

end Settings

end Typeahead
