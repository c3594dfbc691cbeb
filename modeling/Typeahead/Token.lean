import Typeahead.Text.Placeholder

/-!
Tokens of a query line and the lexer that both query languages share. A language names its marks; the
rest is common: runs of blanks, quoted strings, words with escape pairs, and stray backslashes. The
lexer reads the masked line, so a placeholder is part of a word, and never fails.

- `flatten_scan`: the lexemes put together are the text that was read.
- `scan_ne_nil`: no lexeme is empty.
-/

namespace Typeahead

/-- What a token is. -/
inductive TokenKind where
  | blank
  | openBrace
  | closeBrace
  | openParen
  | closeParen
  | comma
  | colon
  | quoted
  | word
  | stray
  deriving DecidableEq, Repr

/-- A token: its place in the line, its characters as written, and its characters as masked. -/
structure Token where
  kind : TokenKind
  start : Nat
  written : Text
  masked : Text
  deriving DecidableEq, Repr

namespace Token

/-- The position after the token. -/
def stop (t : Token) : Nat := t.start + t.masked.length

/-- Whether the token reaches from before a position up to it or beyond. -/
def touches (t : Token) (position : Nat) : Bool := t.start < position && position ≤ t.stop

end Token

/-- The marks of a query language: the characters that are tokens of their own. -/
abbrev Marks := Char → Option TokenKind

/-- The marks of metrics queries. -/
def metricsMarks : Marks
  | '{' => some .openBrace
  | '}' => some .closeBrace
  | '(' => some .openParen
  | ')' => some .closeParen
  | ',' => some .comma
  | ':' => some .colon
  | _ => none

/-- The marks of logs queries. -/
def logsMarks : Marks
  | '(' => some .openParen
  | ')' => some .closeParen
  | ':' => some .colon
  | _ => none

namespace Lexer

/-- Whether a character goes on a word by itself. -/
def isPlain (marks : Marks) (c : Char) : Bool :=
  !isBlank c && (marks c).isNone && c != '"' && c != '\\'

/-- The length of the word that begins a text: plain characters and escape pairs within the line. -/
def wordLength (marks : Marks) : Text → Nat
  | [] => 0
  | '\\' :: c :: rest => if c = '\n' then 0 else wordLength marks rest + 2
  | c :: rest => if isPlain marks c then wordLength marks rest + 1 else 0

/-- The length of a quoted string after its opening quote, the closing quote included if there is
one. A string ends with its line at the latest. -/
def quotedLength : Text → Nat
  | [] => 0
  | '"' :: _ => 1
  | '\\' :: c :: rest => if c = '\n' then 0 else quotedLength rest + 2
  | c :: rest => if c = '\\' || c = '\n' then 0 else quotedLength rest + 1

/-- The kind of the first token of `c :: rest`, and how many characters of `rest` belong to it. -/
def first (marks : Marks) (c : Char) (rest : Text) : TokenKind × Nat :=
  if isBlank c then (.blank, (rest.takeWhile isBlank).length)
  else match marks c with
    | some kind => (kind, 0)
    | none =>
      if c = '"' then (.quoted, quotedLength rest)
      else match wordLength marks (c :: rest) with
        | n + 1 => (.word, n)
        | 0 => (.stray, 0)

/-- The kinds and characters of the tokens of a masked line. -/
def scan (marks : Marks) : Text → List (TokenKind × Text)
  | [] => []
  | c :: rest =>
    let (kind, more) := first marks c rest
    (kind, c :: rest.take more) :: scan marks (rest.drop more)
  termination_by t => t.length
  decreasing_by simp only [List.length_drop, List.length_cons]; omega

theorem flatten_scan (marks : Marks) (t : Text) : ((scan marks t).map (·.2)).flatten = t := by
  fun_induction scan marks t with
  | case1 => rfl
  | case2 c rest kind more _ ih => simp [ih]

theorem scan_ne_nil {marks : Marks} {t : Text} {lexeme : TokenKind × Text}
    (h : lexeme ∈ scan marks t) : lexeme.2 ≠ [] := by
  fun_induction scan marks t with
  | case1 => simp at h
  | case2 c rest kind more _ ih =>
    rcases List.mem_cons.1 h with rfl | h
    · simp
    · exact ih h

/-- Gives the lexemes their places in a line, the first one at `start`. -/
def place (start : Nat) (line : Text) : List (TokenKind × Text) → List Token
  | [] => []
  | (kind, masked) :: more =>
    { kind, start, written := line.take masked.length, masked } ::
      place (start + masked.length) (line.drop masked.length) more

end Lexer

/-- The tokens of a line. -/
def tokens (marks : Marks) (line : Text) : List Token :=
  Lexer.place 0 line (Lexer.scan marks (Text.mask line))

/-- A token of a line seen with its neighbours, the nearest ones first on both sides. -/
structure Focus where
  before : List Token
  token : Token
  after : List Token
  deriving Repr

namespace Focus

/-- The kind of the token just before. -/
def previous? (f : Focus) : Option TokenKind := f.before.head?.map (·.kind)

/-- The kind of the token just after. -/
def next? (f : Focus) : Option TokenKind := f.after.head?.map (·.kind)

/-- The nearest token to the right that is not blank; `before` stands left of `after`. -/
def seekRight (before : List Token) : List Token → Option Focus
  | [] => none
  | t :: after =>
    if t.kind = .blank then seekRight (t :: before) after else some ⟨before, t, after⟩

/-- The nearest token to the left that is not blank; `after` stands right of `before`. -/
def seekLeft (after : List Token) : List Token → Option Focus
  | [] => none
  | t :: before =>
    if t.kind = .blank then seekLeft (t :: after) before else some ⟨before, t, after⟩

/-- The next token that is not blank. -/
def following? (f : Focus) : Option Focus := seekRight (f.token :: f.before) f.after

/-- The last token before that is not blank. -/
def preceding? (f : Focus) : Option Focus := seekLeft (f.token :: f.after) f.before

end Focus

/-- Every token with its neighbours; `before` stands left of the list, nearest first. -/
def focusesFrom (before : List Token) : List Token → List Focus
  | [] => []
  | t :: after => ⟨before, t, after⟩ :: focusesFrom (t :: before) after

/-- Every token of a line with its neighbours. -/
def focuses (ts : List Token) : List Focus := focusesFrom [] ts

/-- The last token that starts before a position. -/
def focusBefore? (ts : List Token) (position : Nat) : Option Focus :=
  (focuses ts).reverse.find? fun f => f.token.start < position

end Typeahead
