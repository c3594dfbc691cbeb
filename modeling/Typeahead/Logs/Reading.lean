import Typeahead.Logs.Vocabulary
import Typeahead.Query
import Typeahead.Token

/-!
A logs line read into tokens: words, quoted strings, boolean operators, `facet:value` pairs, and
groups in parentheses. Also the test whether a quoted string is closed, which looks at the string
from its end: the last quote closes the string unless an odd run of backslashes stands before it.
-/

namespace Typeahead.Logs

/-- A logs line and its tokens. -/
structure Reading where
  text : Text
  tokens : List Token

/-- Reads a line. -/
def Reading.of (line : Text) : Reading := ⟨line, Typeahead.tokens logsMarks line⟩

/-- Whether a quoted string, its opening quote included, is closed. -/
def isClosedString : Text → Bool
  | [] => false
  | _ :: body =>
    body.getLast? = some '"' && (Text.trailing (· = '\\') body.dropLast).length % 2 = 0

/-- The operator that a token is. -/
def operator? (t : Token) : Option Operator :=
  if t.kind = .word then Operator.named? t.written else none

/-- Whether a token is an operator. -/
def isOperator (t : Token) : Bool := (operator? t).isSome

/-- A facet name without the signs of negation before it. -/
def bareFacet (name : Text) : Text := name.trimLeft (· = '-')

/-- The opening parentheses that are not closed among the tokens, the innermost first. A closing
parenthesis without a partner closes nothing. -/
def openGroups (opened : List Focus) : List Focus → List Focus
  | [] => opened
  | f :: rest =>
    match f.token.kind with
    | .openParen => openGroups (f :: opened) rest
    | .closeParen => openGroups opened.tail rest
    | _ => openGroups opened rest

/-- The word of the facet whose colon stands just before the token. -/
def facetWord? (f : Focus) : Option Token :=
  match f.before with
  | colon :: name :: _ => if colon.kind = .colon && name.kind = .word then some name else none
  | _ => none

namespace Reading

/-- The innermost parenthesis that is open at the cursor. -/
def openGroup? (r : Reading) (position : Nat) : Option Focus :=
  (openGroups [] ((focuses r.tokens).filter fun f => f.token.start < position)).head?

/-- The names of the facets that do not touch the cursor. -/
def facetNames (r : Reading) (position : Nat) : List Text :=
  Text.sorted ((((focuses r.tokens).filter fun f =>
    !f.token.touches position && f.token.kind = .word && f.next? = some .colon).map
      fun f => bareFacet f.token.written).filter (!·.isEmpty))

end Reading

end Typeahead.Logs
