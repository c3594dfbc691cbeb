import Typeahead.Json

/-!
Equality of JSON values can be decided. Objects are equal if they have the same fields in the same order.
-/

namespace Typeahead.Json

mutual

/-- Whether two values are equal. -/
def decEq (a b : Json) : Decidable (a = b) :=
  match a, b with
  | .null, .null => isTrue rfl
  | .bool a, .bool b => decidable_of_iff (a = b) (by rw [bool.injEq])
  | .number a, .number b => decidable_of_iff (a = b) (by rw [number.injEq])
  | .text a, .text b => decidable_of_iff (a = b) (by rw [text.injEq])
  | .list a, .list b =>
    have := decEqItems a b
    decidable_of_iff (a = b) (by rw [list.injEq])
  | .object a, .object b =>
    have := decEqFields a b
    decidable_of_iff (a = b) (by rw [object.injEq])
  | .null, .bool _ | .null, .number _ | .null, .text _ | .null, .list _ | .null, .object _
  | .bool _, .null | .bool _, .number _ | .bool _, .text _ | .bool _, .list _ | .bool _, .object _
  | .number _, .null | .number _, .bool _ | .number _, .text _ | .number _, .list _ | .number _, .object _
  | .text _, .null | .text _, .bool _ | .text _, .number _ | .text _, .list _ | .text _, .object _
  | .list _, .null | .list _, .bool _ | .list _, .number _ | .list _, .text _ | .list _, .object _
  | .object _, .null | .object _, .bool _ | .object _, .number _ | .object _, .text _ | .object _, .list _ =>
    isFalse nofun

/-- Whether two lists of items are equal. -/
def decEqItems (a b : List Json) : Decidable (a = b) :=
  match a, b with
  | [], [] => isTrue rfl
  | x :: xs, y :: ys =>
    have := decEq x y
    have := decEqItems xs ys
    decidable_of_iff (x = y ∧ xs = ys) (by rw [List.cons.injEq])
  | [], _ :: _ | _ :: _, [] => isFalse nofun

/-- Whether two lists of fields are equal. -/
def decEqFields (a b : List (Text × Json)) : Decidable (a = b) :=
  match a, b with
  | [], [] => isTrue rfl
  | (m, x) :: xs, (n, y) :: ys =>
    have := decEq x y
    have := decEqFields xs ys
    decidable_of_iff ((m = n ∧ x = y) ∧ xs = ys) (by rw [List.cons.injEq, Prod.mk.injEq])
  | [], _ :: _ | _ :: _, [] => isFalse nofun

end

instance : DecidableEq Json := decEq

end Typeahead.Json
