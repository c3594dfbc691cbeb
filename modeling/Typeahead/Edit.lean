import Typeahead.Metrics.Cursor
import Typeahead.Suggestion.Item
import Typeahead.Text.Case

/-!
Accepting an item: the text with the item put in, and the cursor after it. What is replaced depends on
the kind of the item: a metric changes its line, a key or tag replaces the word it completes or becomes
a new entry of the list, a value replaces the value at the cursor, an operator keeps blanks around it.
-/

namespace Typeahead

/-- A text after an edit, and the cursor in it. -/
structure Edit where
  text : Text
  cursor : Nat
  deriving DecidableEq, Repr

namespace Edit

/-- Puts `insert` in the place of the characters from `start` to `stop`. -/
def splice (text : Text) (start stop : Nat) (insert : Text) : Edit :=
  ⟨text.take start ++ insert ++ text.drop stop, start + insert.length⟩

/-- A character of a metric or aggregator (ASCII only). -/
def isWordPart (c : Char) : Bool := c.isAlphanum || c = '_' || c = '.' || c = '-'

/-- A character of a tag key with its sign of negation (ASCII only). -/
def isKeyPart (c : Char) : Bool := isWordPart c || c = '!' || c = '/' || c = '@'

/-- A character of the name of a facet (ASCII only). -/
def isFacetPart (c : Char) : Bool := c.isAlphanum || c = '_' || c = '.' || c = '@'

/-- Whether a character ends a value of a language; of the blanks only the ASCII ones do. -/
def endsValue : Language → Char → Bool
  | .metrics, c => isAsciiBlank c || c = ',' || c = '{' || c = '}' || c = '(' || c = ')'
  | .logs, c => isAsciiBlank c || c = '(' || c = ')'

/-- The start of the run of characters of a class that ends at the cursor. -/
def runStart (p : Char → Bool) (text : Text) (cursor : Nat) : Nat :=
  cursor - (Text.trailing p (text.take cursor)).length

/-- The end of the run of characters of a class that begins at the cursor. -/
def runStop (p : Char → Bool) (text : Text) (cursor : Nat) : Nat :=
  cursor + ((text.drop cursor).takeWhile p).length

/-- Steps over a colon in the text that the inserted text brings along. -/
def overColon (text : Text) (stop : Nat) (insert : Text) : Nat :=
  if insert.getLast? = some ':' && text[stop]? = some ':' then stop + 1 else stop

/-- Replaces the run of characters of a class around the cursor. -/
def replaceRun (p : Char → Bool) (text : Text) (cursor : Nat) (insert : Text) : Edit :=
  splice text (runStart p text cursor) (overColon text (runStop p text cursor) insert) insert

/-- The aggregator of a line that has none. -/
def defaultAggregator : Text := "avg".toList

/-- Puts another metric in its line. A line without a filter gets the one that takes all. -/
def metricLine (text : Text) (cursor : Nat) (insert : Text) : Edit :=
  let line := text.lineAt cursor
  let parts := Metrics.Expression.ofLine line.text
  let rest :=
    if parts.remainder.head? = some '{' then parts.remainder else ['{', '*', '}'] ++ parts.remainder
  splice text line.offset (line.offset + line.text.length)
    (parts.aggregator?.getD defaultAggregator ++ ':' :: insert ++ rest)

/-- Puts a key into the list at the cursor: in the place of the word it completes, keeping the signs of
negation, or else as a new entry. -/
def listEntry (text : Text) (cursor : Nat) (label insert : Text) : Edit :=
  let line := text.lineAt cursor
  let position := cursor - line.offset
  let typed := Text.trailing isKeyPart (line.text.take position)
  let partly := Text.trimLeft (fun c => c = '!' || c = '-') typed
  let stop := runStop isKeyPart line.text position
  if !partly.isEmpty && Text.occurs partly.lower label.lower then
    splice text (cursor - partly.length) (line.offset + overColon line.text stop insert) insert
  else
    let entries := Text.trailing (· != '{') (line.text.take position) ++
      (line.text.drop position).take (stop - position)
    let joined := entries.getLast?.any fun c => c != ',' && c != '(' && !isBlank c
    splice text (line.offset + stop) (line.offset + stop) (if joined then ',' :: insert else insert)

/-- Where the value at the cursor starts: where the typed part of the context starts, with its quote,
if the text holds it, and else after the last character that ends a value or begins one. -/
def valueStart (text : Text) (cursor : Nat) (context : Context) : Nat :=
  let typed := context.token
  if (context.place = .filterValue || context.place = .facetValue) &&
      typed.isSuffixOf (text.take cursor) then
    let start := cursor - typed.length
    if 0 < start && text[start - 1]? = some '"' then start - 1 else start
  else runStart (fun c => !endsValue context.language c && c != ':') text cursor

/-- Replaces the value at the cursor. -/
def value (text : Text) (cursor : Nat) (insert : Text) (context : Context) : Edit :=
  splice text (valueStart text cursor context)
    (runStop (fun c => !endsValue context.language c) text cursor) insert

/-- Puts an operator in the place of the letters it completes, or at the cursor, with blanks around. -/
def operator (text : Text) (cursor : Nat) (insert : Text) : Edit :=
  let word := Text.strip insert
  let typed := Text.trailing Char.isAlpha (text.take cursor)
  let completes := !typed.isEmpty && typed.lower.isPrefixOf word.lower
  let start := if completes then cursor - typed.length else cursor
  let stop := if completes then runStop Char.isAlpha text cursor else cursor
  let glued := 0 < start && text[start - 1]?.any fun c => !isBlank c && c != '('
  let spaced := text[stop]?.any isBlank
  splice text start stop
    ((if glued then ' ' :: word else word) ++ if spaced then [] else [' '])

/-- Accepts an item with the cursor inside the text. -/
def acceptAt (text : Text) (cursor : Nat) (item : Item) (context : Context) : Edit :=
  match item.kind with
  | .metric => metricLine text cursor item.insert
  | .groupingTag | .filterKey => listEntry text cursor item.label item.insert
  | .filterValue | .service | .source | .level | .facetValue =>
    value text cursor item.insert context
  | .operator => operator text cursor item.insert
  | .pattern => splice text cursor cursor item.insert
  | .facet => replaceRun isFacetPart text cursor item.insert
  | .aggregator => replaceRun isWordPart text cursor item.insert

/-- Accepts an item at a cursor of a text. -/
def accept (text : Text) (cursor : Int) (item : Item) (context : Context) : Edit :=
  acceptAt text (text.clamp cursor) item context

end Edit

end Typeahead
