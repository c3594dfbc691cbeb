import Typeahead.Metrics.Reading

/-!
What is typed at a cursor of a metrics query: the metric, the aggregator before its colon, a key or a
value of the filter, or a tag of a grouping. Also which keys stand elsewhere in the line, so that they
need not be offered again.
-/

namespace Typeahead.Metrics

namespace Reading

/-- Where the segment of the cursor starts: after the nearest token to the left that begins one, but
not left of the opening mark at `lower`. -/
def segmentStart (r : Reading) (lower position : Nat) (begins : TokenKind → Bool) : Nat :=
  back ((r.tokens.filter fun t => t.start < position).reverse)
where
  /-- Goes back over the tokens before the cursor, nearest first. -/
  back : List Token → Nat
    | [] => min (lower + 1) position
    | t :: more =>
      if t.start < lower then min (lower + 1) position
      else if begins t.kind then min t.stop position
      else back more

/-- The part before the cursor of the word at the cursor. -/
def wordBefore (r : Reading) (position : Nat) : Text :=
  match focusBefore? r.tokens position with
  | some f => if f.token.kind = .word then f.token.written.take (position - f.token.start) else []
  | none => []

/-- Whether a word of the filter is a key; `depth` parentheses are open around it. -/
def isFilterKey (depth : Nat) (f : Focus) : Bool :=
  let beforeColon := f.next? = some .colon && f.previous? != some .colon
  let beforeIn := f.following?.any isIn && !readsNot f.token.written
  let beforeNotIn := f.following?.any fun n => isNot n && n.following?.any isIn
  let alone := depth = 0 && f.token.written != ['*'] &&
    f.preceding?.any (fun p => p.token.kind = .openBrace || p.token.kind = .comma) &&
    f.following?.all (fun n => n.token.kind = .comma || n.token.kind = .closeBrace)
  beforeColon || beforeIn || beforeNotIn || alone

/-- The words among the tokens that are keys and do not touch the cursor. -/
def filterWords (position depth : Nat) : List Focus → List Text
  | [] => []
  | f :: rest =>
    match f.token.kind with
    | .openParen => filterWords position (depth + 1) rest
    | .closeParen => filterWords position (depth - 1) rest
    | .word =>
      if !f.token.touches position && isFilterKey depth f then
        f.token.written :: filterWords position depth rest
      else filterWords position depth rest
    | _ => filterWords position depth rest

/-- The keys of a filter that do not touch the cursor. -/
def filterKeys (r : Reading) (s : Span) (position : Nat) : List Text :=
  Text.sorted (((filterWords position 0 (r.within s)).map bareKey).filter (!·.isEmpty))

/-- The tags of a grouping but the one at the cursor. -/
def groupingKeys (r : Reading) (s : Span) (position : Nat) : List Text :=
  let commas := ((r.within s).filter fun f => f.token.kind = .comma).map (·.token.start)
  let entries := (s.start :: commas).zip (commas ++ [s.stop])
  Text.sorted (entries.filterMap fun (start, stop) =>
    if (Span.mk start stop).contains position then none
    else Text.stripped? (r.text.slice (start + 1) stop))

/-- The opening parentheses that are not closed among the tokens, the innermost first. -/
def openParens (opened : List Focus) : List Focus → List Focus
  | [] => opened
  | f :: rest =>
    match f.token.kind with
    | .openParen => openParens (f :: opened) rest
    | .closeParen => openParens opened.tail rest
    | _ => openParens opened rest

/-- The key and the opening parenthesis of the `IN` list that holds the cursor. -/
def inList? (r : Reading) (s : Span) (position : Nat) : Option (Text × Nat) := do
  let paren ← (openParens [] (r.within ⟨s.start, position⟩)).head?
  let operator ← paren.preceding?
  guard (isIn operator)
  let before ← operator.preceding?
  let key ← if isNot before then before.preceding? else some before
  guard (key.token.kind = .word && s.start < key.token.start)
  return (bareKey key.token.written, paren.token.start)

/-- The context of a cursor inside the filter. -/
def filterContext (r : Reading) (s : Span) (position : Nat) : Context :=
  let base : Context :=
    { place := .filterKey, metric? := r.metric?, usedKeys := r.filterKeys s position }
  match r.inList? s position with
  | some (key, paren) =>
    let start := r.segmentStart paren position fun k =>
      k = .openParen || k = .comma || k = .blank
    { base with
      place := .filterValue, token := r.text.slice start position, key? := some key }
  | none =>
    let start := r.segmentStart s.start position fun k =>
      k = .openBrace || k = .openParen || k = .comma || k = .blank
    match r.tokens.find? fun t => t.kind = .colon && start ≤ t.start && t.start < position with
    | none => { base with token := r.text.slice start position }
    | some colon =>
      let key := bareKey (Text.strip (r.text.slice start colon.start))
      { base with
        place := .filterValue
        token := r.text.slice (colon.start + 1) position
        key? := if key.isEmpty then none else some key }

/-- The context of a cursor inside a grouping. Right after a brace or a comma nothing is typed yet;
elsewhere the whole entry counts, also what stands behind the cursor. -/
def groupingContext (r : Reading) (s : Span) (position : Nat) : Context :=
  let start := r.segmentStart s.start position fun k => k = .openBrace || k = .comma
  let stop := (((r.within s).find? fun f =>
    f.token.kind = .comma && position ≤ f.token.start).map (·.token.start)).getD s.stop
  let fresh := (r.text[position - 1]?).all fun c => c = '{' || c = ','
  { place := .groupingTag
    token := if fresh then [] else Text.strip (r.text.slice start stop)
    metric? := r.metric?
    usedKeys := r.groupingKeys s position }

/-- The grouping that holds the cursor: the last one that starts before it, if it reaches it. -/
def groupingAt? (r : Reading) (position : Nat) : Option Span :=
  (r.groupings.reverse.find? fun s => s.start < position).filter (·.contains position)

/-- The context of a cursor in front of the filter or behind it. -/
def outerContext (r : Reading) (position : Nat) : Context :=
  { place := if r.aggregatorColon?.any (position ≤ ·) then .aggregatorPrefix else .metricName
    token := r.wordBefore position
    metric? := r.metric?
    usedKeys := (r.filter?.map fun s => r.filterKeys s position).getD [] }

/-- The context at a position of the line. -/
def contextAt (r : Reading) (position : Nat) : Context :=
  match r.groupingAt? position with
  | some s => r.groupingContext s position
  | none =>
    match r.filter?.filter (·.contains position) with
    | some s => r.filterContext s position
    | none => r.outerContext position

end Reading

/-- The context at a cursor of a metrics query. -/
def contextOf (text : Text) (cursor : Int) : Context :=
  let position := text.clamp cursor
  let line := text.lineAt position
  let found : Context :=
    if line.text.hasInk then (Reading.of line.text).contextAt (position - line.offset)
    else { place := .metricName }
  found.located position line

/-- The parts of a metrics line. -/
structure Expression where
  aggregator? : Option Text
  metric? : Option Text
  remainder : Text
  deriving DecidableEq, Repr

/-- Takes a line apart: aggregator, metric, and what follows them. -/
def Expression.ofLine (line : Text) : Expression :=
  let r := Reading.of line
  { aggregator? := r.aggregatorColon?.bind fun colon => Text.stripped? (line.take colon)
    metric? := r.metric?
    remainder := line.drop r.metricEnd }

end Typeahead.Metrics
