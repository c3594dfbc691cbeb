import Typeahead.Logs.Reading
import Typeahead.Text.Search

/-!
The check of a whole logs query: parentheses, quotes, empty facets, boolean operators and wildcards,
in this order; the first fault is the one that is reported. A query without a fault may still earn
warnings.
-/

namespace Typeahead.Logs

/-- What can be wrong with a logs query. Positions count from one. -/
inductive Fault where
  | strayParen (position : Nat)
  | openParens (count : Nat)
  | openQuote (position : Nat)
  | emptyFacet (name : Text)
  | operatorOrder (first second : Operator)
  | operatorPair (first second : Operator)
  | operatorAlone (operator : Operator)
  | doubleWildcard (word : Text)
  | spacedWildcard
  deriving DecidableEq, Repr

/-- The wording of a fault. -/
def Fault.message : Fault → String
  | .strayParen position => s!"Unmatched closing parenthesis at position {position}"
  | .openParens count =>
    s!"{count} unmatched opening " ++ if count > 1 then "parentheses" else "parenthesis"
  | .openQuote position => s!"Unmatched quote starting at position {position}"
  | .emptyFacet name =>
    "Empty value for facet \"" ++ name.toString ++
      "\". Use quotes for empty values or provide a value."
  | .operatorOrder first second =>
    "Invalid operator sequence: \"" ++ first.word.toString ++ " " ++ second.word.toString ++
      "\". Use \"NOT condition AND/OR\" instead."
  | .operatorPair first second =>
    "Invalid boolean operator usage: \"" ++ first.word.toString ++ " " ++ second.word.toString ++
      "\""
  | .operatorAlone operator =>
    "Invalid boolean operator usage: \"" ++ operator.word.toString ++ "\""
  | .doubleWildcard word =>
    "Invalid wildcard pattern: \"" ++ word.toString ++
      "\". Use single asterisk (*) for wildcards."
  | .spacedWildcard => "Invalid wildcard pattern: \"* *\""

/-- Looks for a closing parenthesis without a partner, and else for open ones at the end. -/
def parenFault? (depth : Nat) : List Token → Option Fault
  | [] => if depth = 0 then none else some (.openParens depth)
  | t :: rest =>
    match t.kind, depth with
    | .openParen, _ => parenFault? (depth + 1) rest
    | .closeParen, 0 => some (.strayParen (t.start + 1))
    | .closeParen, d + 1 => parenFault? d rest
    | _, _ => parenFault? depth rest

/-- Looks for a quoted string that is not closed. -/
def quoteFault? (ts : List Token) : Option Fault :=
  (ts.find? fun t => t.kind = .quoted && !isClosedString t.written).map
    fun t => .openQuote (t.start + 1)

/-- Looks for a facet that has a colon but no value. -/
def facetFault? (ts : List Token) : Option Fault :=
  (focuses ts).findSome? fun f =>
    match f.token.kind, f.before.head? with
    | .colon, some name =>
      if name.kind = .word &&
          !(f.next?.any fun k => k = .word || k = .quoted || k = .openParen) then
        some (.emptyFacet (bareFacet name.written))
      else none
    | _, _ => none

/-- What is wrong with an operator and its neighbours that are not blank. -/
def operatorFault (operator : Operator) (preceding? following? : Option Token) : Option Fault :=
  match following?.bind operator? with
  | some second =>
    if operator = .not && second != .not then some (.operatorOrder operator second)
    else if operator = .not || second != .not then some (.operatorPair operator second)
    else lacksLeft
  | none =>
    if following?.all fun t => t.kind = .closeParen then some (.operatorAlone operator) else lacksLeft
where
  /-- A joining operator needs something on its left. -/
  lacksLeft : Option Fault :=
    if operator != .not && preceding?.all fun t => t.kind = .openParen then
      some (.operatorAlone operator)
    else none

/-- Looks for an operator that its neighbours do not allow. -/
def operatorFault? (ts : List Token) : Option Fault :=
  (focuses ts).findSome? fun f =>
    (operator? f.token).bind fun operator =>
      operatorFault operator (f.preceding?.map (·.token)) (f.following?.map (·.token))

/-- Looks for two wildcards in a row, within a word or across a blank. -/
def wildcardFault? (ts : List Token) : Option Fault :=
  (focuses ts).findSome? fun f =>
    if f.token.kind != .word then none
    else if Text.occurs ['*', '*'] f.token.written then some (.doubleWildcard f.token.written)
    else match f.after with
      | gap :: next :: _ =>
        if f.token.written.getLast? = some '*' && gap.kind = .blank && next.kind = .word &&
            next.written.head? = some '*' then some .spacedWildcard
        else none
      | _ => none

/-- What may be unwise about a logs query. -/
inductive Advice where
  | inlineTime
  | relativeTime
  | bareWildcard
  | shortTerm
  | levelWord
  deriving DecidableEq, Repr

/-- The wording of an advice. -/
def Advice.message : Advice → String
  | .inlineTime =>
    "Found inline time filter in query. Consider using the dashboard time range picker instead " ++
      "for better integration."
  | .relativeTime =>
    "Relative time filters will be combined with the dashboard time range picker. " ++
      "Ensure this is intended."
  | .bareWildcard =>
    "Wildcard searches without facets may be slow. " ++
      "Consider using facets like service:* or source:*"
  | .shortTerm =>
    "Very short search terms may return too many results. " ++
      "Consider adding facets or longer terms."
  | .levelWord =>
    "For log levels, consider using status:ERROR instead of " ++
      "searching for \"error\" in message text."

/-- Whether the query filters by a time. -/
def hasTimeFilter (t : Text) : Bool :=
  Text.hasPattern sameIgnoringCase "timestamp:".toList t ||
    Text.hasPatternAtWordStart sameIgnoringCase "time:".toList t ||
    Text.hasPatternAtWordStart sameIgnoringCase "date:".toList t

/-- Whether a text is a comparison with a time relative to now. -/
def beginsRelativeTime (t : Text) : Bool :=
  match t.dropWhile isBlank with
  | [] => false
  | c :: rest =>
    if c = '>' || c = '<' then
      let rest := match rest with
        | '=' :: more => more
        | other => other
      match Text.after? sameIgnoringCase "now".toList (rest.dropWhile isBlank) with
      | some (sign :: amount) => (sign = '-' || sign = '+') && Text.beginsWord amount
      | _ => false
    else false

/-- Whether the query compares the time stamp with a time relative to now. -/
def hasRelativeTime (t : Text) : Bool :=
  t.someEnd (fun _ rest =>
    (Text.after? sameIgnoringCase "@timestamp:".toList rest).any beginsRelativeTime) none

/-- The names of log levels that are often searched for as words. -/
def levelWords : List Text := ["error".toList, "warn".toList, "info".toList, "debug".toList]

/-- The advice that a query earns, in the order in which it is given. -/
def advice (t : Text) : List Advice :=
  let hasColon := t.contains ':'
  (if hasTimeFilter t then [.inlineTime] else []) ++
  (if hasRelativeTime t then [.relativeTime] else []) ++
  (if t.contains '*' && !hasColon then [.bareWildcard] else []) ++
  (if t.length < 3 && !hasColon then [.shortTerm] else []) ++
  (if t.hasWord sameIgnoringCase levelWords && !Text.occurs "status:".toList t then [.levelWord]
    else [])

/-- The first fault of the tokens of a query. -/
def fault? (ts : List Token) : Option Fault :=
  parenFault? 0 ts <|> quoteFault? ts <|> facetFault? ts <|> operatorFault? ts <|> wildcardFault? ts

/-- The verdict on a logs query. -/
def check (query : Text) : Verdict :=
  let text := Text.strip query.mask
  if text.isEmpty then {}
  else match fault? (Reading.of text).tokens with
    | some fault => { errors := [fault.message] }
    | none => { warnings := (advice text).map Advice.message }

end Typeahead.Logs
