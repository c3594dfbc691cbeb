import Typeahead.Catalog.Reply

/-!
A catalog whose replies are written down in advance. Each route, a method and a path as it is sent, has a
list of arrivals; a request takes the first one, and the last one stays. A route that is not written down
answers at once that the thing asked for is not there.
-/

namespace Typeahead

/-- When and how a request ends: never, or after a time span with a reply. -/
inductive Arrival where
  | never
  | after (span : Seconds) (reply : Reply)

/-- A route with its arrivals. -/
structure Route where
  name : Text
  arrivals : List Arrival

/-- The routes that are written down. -/
abbrev Script := List Route

namespace Script

/-- The arrival of a request without a route. -/
def unknownRoute : Arrival := .after 0 (.response 404 [] (.ok .null))

/-- The arrivals after one was taken. -/
def rest : List Arrival → List Arrival
  | _ :: b :: more => b :: more
  | other => other

/-- The arrival of a request by a route, and the script after it. -/
def take (s : Script) (name : Text) : Arrival × Script :=
  match s.find? fun r => r.name = name with
  | some { arrivals := a :: _, .. } =>
    (a, s.map fun r => if r.name = name then { r with arrivals := rest r.arrivals } else r)
  | _ => (unknownRoute, s)

end Script

/-- The name of the route of a request; one with a body is sent with POST. -/
def Request.route (r : Request) : Text :=
  (if r.body?.isSome then "POST ".toList else "GET ".toList) ++ r.path.text

end Typeahead
