import Typeahead.Catalog.Path
import Typeahead.Cache
import Typeahead.Text.Quoted

/-!
What can go wrong when names are fetched from the catalog, as causes, and the wording of each. The
errors of the catalog are of four kinds, by which callers tell them apart; anything else is a failure
that callers do not expect.
-/

namespace Typeahead

/-- An error of the catalog, by its cause. -/
inductive CatalogError where
  | refused (reply : Text)
  | blocked (reply : Text)
  | absent (path : Text)
  | noNames (lookup : Lookup)
  | requestTimedOut (path : Text)
  | fetchTimedOut (dataset : Dataset) (limit : Number)
  | badStatus (reply : Text)
  | requestFailed (reason : Text)
  | unexpectedNames (path : Text)
  | unexpectedCompletion
  deriving DecidableEq

/-- The kinds of errors of the catalog. -/
inductive CatalogErrorKind where
  | unauthorized
  | notFound
  | timeout
  | network
  deriving DecidableEq, Repr

namespace CatalogError

/-- The kind of an error. -/
def kind : CatalogError → CatalogErrorKind
  | .refused _ | .blocked _ => .unauthorized
  | .absent _ | .noNames _ => .notFound
  | .requestTimedOut _ | .fetchTimedOut _ _ => .timeout
  | .badStatus _ | .requestFailed _ | .unexpectedNames _ | .unexpectedCompletion => .network

/-- The wording of a refusal by the catalog. -/
def refusal (reply : Text) : String := "Catalog authorization failed: " ++ reply.toString

/-- The wording of an error. -/
def message : CatalogError → String
  | .refused reply => refusal reply
  | .blocked reply => "Catalog access is blocked: " ++ refusal reply
  | .absent path => "Catalog resource not found: " ++ path.toString
  | .noNames lookup =>
    "Catalog has no " ++ lookup.dataset.name ++ " for " ++
      (Text.joinWith ['/'] lookup.scope).toString
  | .requestTimedOut path => "Catalog request timed out: " ++ path.toString
  | .fetchTimedOut dataset limit =>
    "Loading " ++ dataset.name ++ " timed out (>" ++ limit.text ++ "s)"
  | .badStatus reply => "Catalog error: " ++ reply.toString
  | .requestFailed reason => "Catalog request failed: " ++ reason.toString
  | .unexpectedNames path => "Unexpected catalog response from " ++ path.toString
  | .unexpectedCompletion => "Unexpected catalog completion response"

end CatalogError

/-- Why no names came: an error of the catalog, a name that fits no path, a cache without room, or a
fault of the transport that nobody expects. -/
inductive Failure where
  | catalog (error : CatalogError)
  | slashName (name : Text)
  | cache (error : CacheError)
  | fault (reason : Text)
  deriving DecidableEq

namespace Failure

/-- The wording of a failure. -/
def message : Failure → String
  | .catalog error => error.message
  | .slashName name =>
    "Appending path " ++ name.quoted.toString ++ " starting from slash is forbidden"
  | .cache error => error.message
  | .fault reason => reason.toString

end Failure

end Typeahead
