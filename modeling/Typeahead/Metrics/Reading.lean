import Typeahead.Query
import Typeahead.Text.Search
import Typeahead.Token

/-!
A metrics line read into tokens: `aggregator:metric{filter} by {grouping}`. Braces are matched by
depth, the word `by` between blanks opens a grouping, and the first brace outside all groupings opens
the filter.
-/

namespace Typeahead.Metrics

/-- A stretch of a line between two braces: from the opening one to the closing one or the end. -/
structure Span where
  start : Nat
  stop : Nat
  deriving DecidableEq, Repr

/-- Whether a cursor stands between the braces, the place just before the closing one included. -/
def Span.contains (s : Span) (position : Nat) : Bool := s.start < position && position ≤ s.stop

/-- A metrics line and its tokens. -/
structure Reading where
  text : Text
  tokens : List Token

/-- Reads a line. -/
def Reading.of (line : Text) : Reading := ⟨line, Typeahead.tokens metricsMarks line⟩

/-- Whether a token is the keyword `by`. -/
def isBy (f : Focus) : Bool :=
  f.token.kind = .word && f.token.written = "by".toList && f.previous? = some .blank &&
    (f.next? = some .blank || f.next? = none)

/-- Where the brace closes that is open before the tokens, `depth` further ones being open inside. -/
def closingBrace? (depth : Nat) : List Token → Option Nat
  | [] => none
  | t :: rest =>
    match t.kind, depth with
    | .openBrace, _ => closingBrace? (depth + 1) rest
    | .closeBrace, 0 => some t.start
    | .closeBrace, d + 1 => closingBrace? d rest
    | _, _ => closingBrace? depth rest

/-- Whether a word reads `IN` in any case. -/
def readsIn (word : Text) : Bool := (Text.after? sameCapital "IN".toList word) = some []
where
  /-- Whether the capital form of a character is `p`. -/
  sameCapital (p c : Char) : Bool := c.toUpper = p || (p = 'I' && c.toNat = 0x131)

/-- Whether a word reads `NOT` in any case. -/
def readsNot (word : Text) : Bool := word.map Char.toUpper = "NOT".toList

/-- Whether a token is a word that reads `IN`. -/
def isIn (f : Focus) : Bool := f.token.kind = .word && readsIn f.token.written

/-- Whether a token is a word that reads `NOT`. -/
def isNot (f : Focus) : Bool := f.token.kind = .word && readsNot f.token.written

/-- A key without the signs of negation before it. -/
def bareKey (key : Text) : Text := key.trimLeft fun c => c = '!' || c = '-'

namespace Reading

/-- The stretch that an opening brace begins. -/
def spanFrom (r : Reading) (brace : Token) (after : List Token) : Span :=
  ⟨brace.start, (closingBrace? 0 after).getD r.text.length⟩

/-- The braces of the groupings, from left to right. -/
def groupings (r : Reading) : List Span :=
  (focuses r.tokens).filterMap fun f =>
    match f.after with
    | blank :: brace :: rest =>
      if isBy f && blank.kind = .blank && brace.kind = .openBrace then some (r.spanFrom brace rest)
      else none
    | _ => none

/-- The braces of the filter. -/
def filter? (r : Reading) : Option Span :=
  ((focuses r.tokens).find? fun f =>
    f.token.kind = .openBrace &&
      !(r.groupings.any fun s => s.start = f.token.start || s.contains f.token.start)).map
    fun f => r.spanFrom f.token f.after

/-- Where the metric ends: at the first brace or at the blanks before a `by`. -/
def metricEnd (r : Reading) : Nat :=
  ((focuses r.tokens).findSome? fun f =>
    if f.token.kind = .openBrace then some f.token.start
    else if isBy f then f.before.head?.map (·.start)
    else none).getD r.text.length

/-- The colon after the aggregator. -/
def aggregatorColon? (r : Reading) : Option Nat :=
  (r.tokens.find? fun t => t.kind = .colon && t.start < r.metricEnd).map (·.start)

/-- The name of the metric. -/
def metric? (r : Reading) : Option Text :=
  let start := match r.aggregatorColon? with
    | some colon => colon + 1
    | none => 0
  Text.stripped? (r.text.slice start r.metricEnd)

/-- The tokens that start inside a span, with their neighbours in the whole line. -/
def within (r : Reading) (s : Span) : List Focus :=
  (focuses r.tokens).filter fun f => s.start < f.token.start && f.token.start < s.stop

end Reading

end Typeahead.Metrics
