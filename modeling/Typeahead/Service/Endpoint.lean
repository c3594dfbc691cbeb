import Typeahead.Text

/-!
The endpoints of the service: which path and method lead to which of them. An endpoint that is read can
also be asked for its header alone.
-/

namespace Typeahead

/-- What the service can be asked for. -/
inductive Endpoint where
  | ping
  | suggest
  | complete
  | readCache
  | changeCache
  | dropCache
  deriving DecidableEq, Repr

/-- Why a request leads nowhere. -/
inductive RouteFault where
  | unknownPath
  | wrongMethod
  deriving DecidableEq, Repr

namespace Endpoint

/-- The paths of the service, each with its methods. -/
def paths : List (String × List (String × Endpoint)) := [
  ("/ping", [("GET", .ping), ("HEAD", .ping)]),
  ("/api/v1/autocomplete/suggest", [("POST", .suggest)]),
  ("/api/v1/autocomplete/complete", [("POST", .complete)]),
  ("/api/v1/autocomplete/cache", [("GET", .readCache), ("HEAD", .readCache),
    ("PATCH", .changeCache), ("DELETE", .dropCache)])]

/-- The path of a request target, without a query and a fragment. -/
def pathOf (target : Text) : Text := target.takeWhile fun c => c != '?' && c != '#'

/-- The endpoint of a method and a target. -/
def find (method target : Text) : Except RouteFault Endpoint :=
  match paths.lookup (pathOf target).toString with
  | none => .error .unknownPath
  | some methods =>
    match methods.lookup method.toString with
    | none => .error .wrongMethod
    | some endpoint => .ok endpoint

end Endpoint

end Typeahead
