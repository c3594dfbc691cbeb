import Typeahead.Logs.Reading
import Typeahead.Text.WordChar

/-!
What is typed at a cursor of a logs query: a value of a facet, the name of a facet, or a search term.
-/

namespace Typeahead.Logs

/-- A character of a search term (ASCII only). -/
def isSearchChar (c : Char) : Bool := c.isAlphanum || c = '_' || c = '.' || c = '-'

/-- A character of a facet name. -/
def isFacetChar (c : Char) : Bool := isWordChar c || c = '@' || c = '.'

namespace Reading

/-- The context of a value of the facet that `name` names. -/
def valueContext (base : Context) (name : Token) (value : Text) : Context :=
  let facet := bareFacet name.written
  { base with
    place := .facetValue, token := value, facet? := Facet.named? facet, key? := some facet }

/-- Whether what is typed of a word may become the name of a facet. -/
def mayNameFacet (f : Focus) (typed : Text) : Bool :=
  f.next? = some .colon || defaultFacets.any typed.lower.isPrefixOf

/-- Whether an operator comes just before the cursor, or is the word at the cursor. -/
def followsOperator (f : Focus) : Bool :=
  let before := f.preceding?.any fun p => isOperator p.token
  match f.token.kind with
  | .word => before || isOperator f.token
  | .blank => before
  | _ => false

/-- The context at a search term or a facet name; `f` is the token before the cursor. -/
def termContext (r : Reading) (base : Context) (f : Focus) (position : Nat) : Context :=
  let base := { base with afterOperator := followsOperator f }
  let typed :=
    if f.token.kind = .word then bareFacet (f.token.written.take (position - f.token.start)) else []
  let head := r.text.take position
  if !typed.isEmpty && !isOperator f.token && mayNameFacet f typed then
    { base with place := .facetName, token := Text.trailing isFacetChar head }
  else { base with token := Text.trailing isSearchChar head }

/-- The facet whose value slot holds the token before the cursor, and the typed part of its value.
The value of a quoted string begins after the quote. -/
def slot? (f : Focus) (typed : Text) : Option (Token × Text) :=
  match f.token.kind with
  | .colon => (f.before.head?.filter fun name => name.kind = .word).map fun name => (name, [])
  | .word => (facetWord? f).map fun name => (name, typed)
  | .quoted => (facetWord? f).map fun name => (name, typed.drop 1)
  | _ => none

/-- The context at a position of the line. -/
def contextAt (r : Reading) (position : Nat) : Context :=
  let group := r.openGroup? position
  let base : Context :=
    { place := .logsSearch, usedKeys := r.facetNames position, inGroup := group.isSome }
  match focusBefore? r.tokens position with
  | none => base
  | some f =>
    let typed := f.token.written.take (position - f.token.start)
    match slot? f typed with
    | some (name, value) => valueContext base name value
    | none =>
      if f.token.kind = .quoted then
        { base with inQuotes := position < f.token.stop || !isClosedString typed }
      else match group.bind facetWord? with
        | some name =>
          let isTerm := f.token.kind = .word && !isOperator f.token
          valueContext base name (if isTerm then typed else [])
        | none => r.termContext base f position

end Reading

/-- The context at a cursor of a logs query. -/
def contextOf (text : Text) (cursor : Int) : Context :=
  let position := text.clamp cursor
  let line := text.lineAt position
  let found : Context :=
    if line.text.hasInk then (Reading.of line.text).contextAt (position - line.offset)
    else { place := .logsSearch }
  found.located position line

end Typeahead.Logs
