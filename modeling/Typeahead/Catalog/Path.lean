import Typeahead.Catalog.Lookup
import Typeahead.Text.Percent

/-!
Paths of catalog addresses, and how a lookup becomes one: the address of the catalog, `autocomplete`,
the fixed names of the dataset, and a name a scope. A name is put in as it is typed: a slash in it
separates segments, and the segments `.` and `..` are resolved, so a name of this kind does not become
one segment of its own. A name that begins with a slash is refused.
-/

namespace Typeahead

/-- A path: its segments in percent encoding, all of them after a slash. -/
structure Path where
  segments : List Text
  deriving DecidableEq, Repr

/-- A name that cannot be put into a path, because it begins with a slash. -/
structure SlashName where
  name : Text
  deriving DecidableEq, Repr

namespace Path

/-- Whether a character may stand in a segment as it is (ASCII only). -/
def keeps (c : Char) : Bool :=
  c.isAlphanum || "-._~!$&()*+,;=:@/".toList.contains c || c.toNat = 0x27

/-- Resolves the segments `.` and `..` one after the other; `done` holds the segments so far, the last
one first. -/
def resolveFrom (done : List Text) : List Text → List Text
  | [] => done.reverse
  | s :: rest =>
    if s = ['.', '.'] then resolveFrom done.tail rest
    else if s = ['.'] then resolveFrom done rest
    else resolveFrom (s :: done) rest

/-- Resolves the segments `.` and `..`; a path that ends in one of them ends in a slash then. -/
def resolveAll (segments : List Text) : List Text :=
  let ended := segments.getLast?.any fun s => s = ['.'] || s = ['.', '.']
  resolveFrom [] segments ++ if ended then [[]] else []

/-- Resolves the segments after a slash. The empty segment before that slash takes part, so it can be
lost to a `..`. -/
def resolve (segments : List Text) : List Text :=
  match resolveAll ([] :: segments) with
  | [] :: rest => if rest.isEmpty then [[]] else rest
  | other => other

/-- The path with a name put after it. -/
def join (p : Path) (name : Text) : Except SlashName Path :=
  if name.head? = some '/' then .error ⟨name⟩
  else
    let added := (Text.percentEncode keeps name).splitOn '/'
    let base := if p.segments.getLast? = some [] then p.segments.dropLast else p.segments
    .ok ⟨if name.contains '.' then resolve (base ++ added) else base ++ added⟩

/-- The path with names put after it one after the other. -/
def joinAll (p : Path) (names : List Text) : Except SlashName Path := names.foldlM join p

/-- The path as it is sent. -/
def text (p : Path) : Text := '/' :: Text.joinWith ['/'] p.segments

/-- The path as messages show it. -/
def shown (p : Path) : Text := Text.percentDecode p.text

/-- The path of an address with its percent groups in their normal form: capital digits, and no group for
a character that may stand as it is, slash and plus apart. A percent sign that begins no group is
encoded. -/
def normalGroups : Text → Text
  | [] => []
  | '%' :: a :: b :: rest =>
    match Text.hexValue? a, Text.hexValue? b with
    | some x, some y =>
      let c := Char.ofNat (x * 16 + y)
      if keeps c && c != '/' && c != '+' then c :: normalGroups rest
      else '%' :: a.toUpper :: b.toUpper :: normalGroups rest
    | _, _ => Text.percentChar '%' ++ normalGroups (a :: b :: rest)
  | c :: rest => (if keeps c then [c] else Text.percentChar c) ++ normalGroups rest

/-- The path of an address. -/
def ofAddress (address : Text) : Path :=
  let afterScheme := match address.cut ':' with
    | (_, some ('/' :: '/' :: rest)) => rest
    | _ => address
  let head := afterScheme.takeWhile fun c => c != '?' && c != '#'
  match head.dropWhile (· != '/') with
  | [] => ⟨[[]]⟩
  | _ :: path =>
    let path := normalGroups path
    let segments := path.splitOn '/'
    ⟨if path.contains '.' then resolveAll segments else segments⟩

end Path

namespace Dataset

/-- The fixed names in the path of a dataset. -/
def pathNames : Dataset → List Text
  | .metrics => ["metrics".toList]
  | .tags => ["tags".toList]
  | .tagValues => ["tag-values".toList]
  | .services => ["logs/services".toList]
  | .sources => ["logs/sources".toList]
  | .levels => ["logs/levels".toList]
  | .fields => ["logs/fields".toList]
  | .fieldValues => ["logs/field-values".toList]

end Dataset

/-- The path of everything the catalog answers, below its address. -/
def Path.catalog (address : Text) : Except SlashName Path :=
  (Path.ofAddress address).join "autocomplete".toList

/-- The path of a lookup below the path of the catalog. -/
def Lookup.path (l : Lookup) (base : Path) : Except SlashName Path :=
  base.joinAll (l.dataset.pathNames ++ l.scope)

/-- The path of a completion by the catalog. -/
def Path.completion (base : Path) : Except SlashName Path := base.join "complete".toList

end Typeahead
