import Typeahead.Proofs.Logs.Asked
import Typeahead.Proofs.Logs.Cursors
import Typeahead.Proofs.Token.Seams

/-!
Values of facets as they are inserted, and what the lexer reads of them: one token, and the facet and the value
from it.

- `scan_quoteFacetValue`: a value reads as one token.
- `FacetName.contextOf_end`: what is typed behind the colon of a facet.
- `FacetName.tokens_insertedValue`: a value that is inserted there is found again.
-/

namespace Typeahead

namespace Logs

open Lexer
open Metrics (openParens_of_unopened)

/-- The token that a value reads as. -/
def valueToken (start : Nat) (value : Text) : Token where
  kind := if value.any isFacetMark then .quoted else .word
  start
  written := quoteFacetValue value
  masked := Text.mask (quoteFacetValue value)

theorem plain_of_not_isFacetMark {c : Char} (h : isFacetMark c = false) :
    isPlain logsMarks c = true ∧ c ≠ '\\' := by
  simp only [isFacetMark, Bool.or_eq_false_iff, decide_eq_false_iff_not] at h
  obtain ⟨⟨⟨⟨⟨inked, opens⟩, closes⟩, colon⟩, quote⟩, escape⟩ := h
  have unmarked : logsMarks c = none := by
    unfold logsMarks
    split <;> simp_all
  exact ⟨by simp [isPlain, inked, unmarked, quote, escape], escape⟩

/-- No placeholder reaches over the closing quote. -/
theorem mask_closed (t : Text) : Text.mask (t ++ ['"']) = Text.mask t ++ ['"'] := by
  apply Text.mask_append
  intro s _ _
  by_contra longer
  obtain ⟨p, rest, same, length, placeholder⟩ := Text.exists_placeholder (t := s ++ ['"']) (by omega)
  have front : p <+: s ++ ['"'] := ⟨rest, same.symm⟩
  have whole : p = s ++ ['"'] := by
    apply front.eq_of_length
    have upper := front.length_le
    simp only [List.length_append, List.length_singleton] at upper ⊢
    omega
  rcases placeholder.last (c := '"') (by simp [whole]) with brace | bracket | name
  · cases brace
  · cases bracket
  · revert name
    decide

/-- The body of a quoted value is made of units. -/
theorem units_escapeQuoted {value : Text} (inLine : ∀ c ∈ value, Text.insideLine c = true) :
    Units isBody (escapeQuoted value) := by
  apply units_escapeWith _ (by decide) inLine
  intro c inside unmarked
  simp only [Text.insideLine, bne_iff_ne] at inside
  simp only [Bool.or_eq_false_iff, decide_eq_false_iff_not] at unmarked
  simp [isBody, inside, unmarked.2]

theorem inside_escapeQuoted {value : Text} (inLine : ∀ c ∈ value, Text.insideLine c = true) :
    ∀ c ∈ escapeQuoted value, Text.insideLine c = true := by
  intro c mem
  rcases mem_escapeWith mem with rfl | among
  · decide
  · exact inLine c among

theorem quoteFacetValue_of_marked {value : Text} (marked : value.any isFacetMark = true) :
    quoteFacetValue value = '"' :: (escapeQuoted value ++ ['"']) := by
  simp [quoteFacetValue, marked]

theorem quoteFacetValue_of_unmarked {value : Text} (unmarked : value.any isFacetMark = false) :
    quoteFacetValue value = value := by
  simp [quoteFacetValue, unmarked]

/-- A value is written within the line. -/
theorem inside_quoteFacetValue {value : Text} (inLine : ∀ c ∈ value, Text.insideLine c = true) :
    ∀ c ∈ quoteFacetValue value, Text.insideLine c = true := by
  cases marked : value.any isFacetMark with
  | true =>
    rw [quoteFacetValue_of_marked marked]
    exact List.forall_mem_cons.2 ⟨by decide, List.forall_mem_append.2 ⟨inside_escapeQuoted inLine,
      List.forall_mem_singleton.2 (by decide)⟩⟩
  | false => rwa [quoteFacetValue_of_unmarked marked]

theorem quoteFacetValue_ne_nil {value : Text} (filled : value ≠ []) : quoteFacetValue value ≠ [] := by
  cases marked : value.any isFacetMark with
  | true => simp [quoteFacetValue_of_marked marked]
  | false => rwa [quoteFacetValue_of_unmarked marked]

/-- Only the body of a quoted value is masked. -/
theorem mask_quoted (body : Text) : Text.mask ('"' :: (body ++ ['"'])) = '"' :: (Text.mask body ++ ['"']) := by
  have front := Text.mask_plain_append (a := ['"']) (by simp) (body ++ ['"'])
  rw [mask_closed] at front
  exact front

/-- Between two quotes a text of units reads as one token. -/
theorem scan_closedString {body : Text} (units : Units isBody body) (rest : Text) :
    scan logsMarks ('"' :: (body ++ ['"']) ++ rest) = (.quoted, '"' :: (body ++ ['"'])) :: scan logsMarks rest := by
  have found : First logsMarks '"' (body ++ ['"'] ++ rest) (body ++ ['"']).length .quoted :=
    .quoted (by decide) rfl rfl (quotedLength_of_string units rest)
  exact scan_cons_eq_iff.2 ⟨_, rest, rfl, rfl, first_eq_iff.2 found, rfl⟩

/-- A value that is written in a line reads as one token, if no word goes on behind it. -/
theorem scan_quoteFacetValue {value : Text} (filled : value ≠ []) (inLine : ∀ c ∈ value, Text.insideLine c = true)
    {rest : Text} (stops : Stops logsMarks rest) : scan logsMarks (Text.mask (quoteFacetValue value) ++ rest) =
      ((valueToken 0 value).kind, Text.mask (quoteFacetValue value)) :: scan logsMarks rest := by
  cases marked : value.any isFacetMark with
  | true =>
    have units : Units isBody (Text.mask (escapeQuoted value)) := (units_escapeQuoted inLine).mask (by decide)
    rw [quoteFacetValue_of_marked marked, mask_quoted]
    simp only [valueToken, marked, if_true]
    exact scan_closedString units rest
  | false =>
    have plain : ∀ c ∈ value, isPlain logsMarks c = true ∧ c ≠ '\\' := by
      intro c mem
      have unmarked := List.any_eq_false.1 marked c mem
      exact plain_of_not_isFacetMark (by simpa using unmarked)
    have units : Units (isPlain logsMarks) (Text.mask value) := (Units.of_forall plain).mask (by decide)
    rw [quoteFacetValue_of_unmarked marked,
      Reads.units (unmarked_of_units (by decide) units) (Text.mask_ne_nil filled) units rest stops]
    simp [valueToken, marked]

/-- A value that is still open in its quotes reads as one token. -/
theorem scan_openQuoted {value : Text} (inLine : ∀ c ∈ value, Text.insideLine c = true) :
    scan logsMarks (Text.mask ('"' :: escapeQuoted value)) =
      [(.quoted, Text.mask ('"' :: escapeQuoted value))] := by
  have units : Units isBody (Text.mask (escapeQuoted value)) := (units_escapeQuoted inLine).mask (by decide)
  have masked := Text.mask_plain_append (a := ['"']) (by simp) (escapeQuoted value)
  have length := quotedLength_append units []
  rw [List.append_nil] at length
  have found : First logsMarks '"' _ _ .quoted := .quoted (by decide) rfl rfl length
  rw [List.singleton_append, List.singleton_append] at masked
  rw [masked]
  exact scan_cons_eq_iff.2 ⟨_, [], rfl, (List.append_nil _).symm, first_eq_iff.2 found, by rw [scan]⟩

/-- Between two quotes a text of units is a closed string. -/
theorem isClosedString_of_units {body : Text} (units : Units isBody body) :
    isClosedString ('"' :: (body ++ ['"'])) = true := by
  have even := units.even_trailing
  simp [isClosedString, even]

/-- The name of a facet. -/
structure FacetName where
  text : Text
  chars : text.all isTermChar = true
  nonempty : text ≠ []

namespace FacetName

variable (f : FacetName)

/-- A line with a facet and something behind its colon. -/
def lineWith (x : Text) : Text := f.text ++ ':' :: x

/-- The token of the name. -/
def nameToken : Token := ⟨.word, 0, f.text, f.text⟩

/-- The token of the colon. -/
def colonToken : Token := ⟨.colon, f.text.length, [':'], [':']⟩

theorem plain (c : Char) (mem : c ∈ f.text) : isPlain logsMarks c = true ∧ isLineChar c = true :=
  have held := plain_of_isTermChar (List.all_eq_true.1 f.chars c mem)
  ⟨held.1, held.2.1⟩

theorem inside_lineWith {x : Text} (inLine : ∀ c ∈ x, Text.insideLine c = true) :
    ∀ c ∈ f.lineWith x, Text.insideLine c = true := by
  intro c mem
  rcases List.mem_append.1 mem with name | later
  · have held := (f.plain c name).2
    simp only [isLineChar, Bool.and_eq_true] at held
    exact held.2
  · rcases List.mem_cons.1 later with rfl | behind
    · decide
    · exact inLine c behind

/-- No placeholder reaches over the colon of a facet. -/
theorem mask_lineWith (x : Text) : Text.mask (f.lineWith x) = f.lineWith (Text.mask x) := by
  have plain : ∀ c ∈ f.text ++ [':'], c ≠ '$' ∧ c ≠ '[' := by
    intro c mem
    rcases List.mem_append.1 mem with name | colon
    · have held := (f.plain c name).2
      simp only [isLineChar, Bool.and_eq_true, bne_iff_ne] at held
      exact held.1
    · rw [List.mem_singleton.1 colon]
      decide
  have split := Text.mask_plain_append plain x
  simpa [lineWith] using split

/-- What stands behind the colon of a facet reads as it does by itself. -/
theorem tokens_lineWith_eq (x : Text) : tokens logsMarks (f.lineWith x) =
    f.nameToken :: f.colonToken :: place (f.text.length + 1) x (scan logsMarks (Text.mask x)) := by
  have name : scan logsMarks (f.text ++ ':' :: Text.mask x) =
      (.word, f.text) :: scan logsMarks (':' :: Text.mask x) :=
    Reads.word f.nonempty (fun c mem => (f.plain c mem).1) _ (stops_mark rfl _)
  rw [tokens, f.mask_lineWith, lineWith, lineWith, name, scan_mark (show logsMarks ':' = some .colon from rfl) (by decide)]
  simp [place, nameToken, colonToken]

/-- At the end of a line without groups a value of the facet is typed, if the last token stands in its slot. -/
theorem contextOf_slot {x value : Text} (inLine : ∀ c ∈ x, Text.insideLine c = true)
    (unopened : ∀ t ∈ tokens logsMarks (f.lineWith x), t.kind ≠ .openParen) {g : Focus}
    (before : focusBefore? (tokens logsMarks (f.lineWith x)) (f.lineWith x).length = some g)
    (slot : Reading.slot? g (g.token.written.take ((f.lineWith x).length - g.token.start)) =
      some (f.nameToken, value)) :
    AsksValue (contextOf (f.lineWith x) (f.lineWith x).length) f.text value false := by
  have inked : (f.lineWith x).hasInk = true := List.any_eq_true.2 ⟨':', by simp [lineWith], by decide⟩
  have clamped := (f.lineWith x).clamp_of_le (Nat.le_refl _)
  have ungrouped : (Reading.of (f.lineWith x)).openGroup? (f.lineWith x).length = none := by
    rw [Reading.openGroup?, openGroups_eq, openParens_of_unopened]
    · rfl
    · exact fun g mem => unopened _ (token_mem_of_mem_focusesFrom (List.mem_filter.1 mem).1)
  have bare : bareFacet f.text = f.text := bareFacet_eq (List.all_eq_true.1 f.chars)
  have found : focusBefore? (Reading.of (f.lineWith x)).tokens (f.lineWith x).length = some g := before
  simp only [contextOf, clamped, Text.lineAt_of_inside (f.inside_lineWith inLine), inked, if_true, Nat.sub_zero,
    Reading.contextAt, found, ungrouped, slot]
  exact ⟨rfl, congrArg some bare, congrArg Facet.named? bare, rfl, rfl⟩

/-- Behind the colon of a facet a value is typed, and nothing of it yet. -/
theorem contextOf_colon : AsksValue (contextOf (f.lineWith []) (f.lineWith []).length) f.text [] false := by
  have read : tokens logsMarks (f.lineWith []) = [f.nameToken] ++ f.colonToken :: [] := by
    rw [f.tokens_lineWith_eq]
    simp [Text.mask, Text.maskFrom, scan, place]
  have length : (f.lineWith []).length = f.text.length + 1 := by simp [lineWith]
  have before : focusBefore? ([f.nameToken] ++ f.colonToken :: []) (f.lineWith []).length = _ :=
    focusBefore?_append (by simp [length, colonToken]) (by simp)
  rw [← read] at before
  have unopened : ∀ t ∈ tokens logsMarks (f.lineWith []), t.kind ≠ .openParen := by
    rw [read]
    simp [nameToken, colonToken]
  exact f.contextOf_slot (by simp) unopened before rfl

section

variable {x : Text} {kind : TokenKind} (scanned : scan logsMarks (Text.mask x) = [(kind, Text.mask x)])

include scanned

/-- What reads as one token reads as one behind the colon of a facet. -/
theorem tokens_lineWith : tokens logsMarks (f.lineWith x) =
    [f.nameToken, f.colonToken, ⟨kind, f.text.length + 1, x, Text.mask x⟩] := by
  rw [f.tokens_lineWith_eq, scanned]
  simp [place]

/-- At the end of the line a value of the facet is typed: the word behind the colon, or what stands in quotes
there. -/
theorem contextOf_end (filled : x ≠ []) (inLine : ∀ c ∈ x, Text.insideLine c = true)
    (valued : kind = .word ∨ kind = .quoted) :
    AsksValue (contextOf (f.lineWith x) (f.lineWith x).length) f.text (if kind = .word then x else x.drop 1)
      false := by
  have read : tokens logsMarks (f.lineWith x) =
      [f.nameToken, f.colonToken] ++ ⟨kind, f.text.length + 1, x, Text.mask x⟩ :: [] := f.tokens_lineWith scanned
  have length : (f.lineWith x).length = f.text.length + 1 + x.length := by
    simp [lineWith]
    omega
  have positive : 0 < x.length := List.length_pos_iff.2 filled
  have before : focusBefore? ([f.nameToken, f.colonToken] ++ ⟨kind, f.text.length + 1, x, Text.mask x⟩ :: [])
      (f.lineWith x).length = _ := focusBefore?_append (by simp only; omega) (by simp)
  rw [← read] at before
  have unopened : ∀ t ∈ tokens logsMarks (f.lineWith x), t.kind ≠ .openParen := by
    rw [read]
    rcases valued with rfl | rfl <;> simp [nameToken, colonToken]
  have typed : x.take ((f.lineWith x).length - (f.text.length + 1)) = x := by
    rw [length, Nat.add_sub_cancel_left, List.take_length]
  refine f.contextOf_slot inLine unopened before ?_
  rw [typed]
  rcases valued with rfl | rfl <;> rfl

end

/-- Behind a quote that is open the text after it is typed. -/
theorem contextOf_openQuote {value : Text} (inLine : ∀ c ∈ value, Text.insideLine c = true) :
    let line := f.lineWith ('"' :: escapeQuoted value)
    AsksValue (contextOf line line.length) f.text (escapeQuoted value) false := by
  have written : ∀ c ∈ '"' :: escapeQuoted value, Text.insideLine c = true :=
    List.forall_mem_cons.2 ⟨by decide, inside_escapeQuoted inLine⟩
  exact f.contextOf_end (scan_openQuoted inLine) (List.cons_ne_nil _ _) written (.inr rfl)

/-- A value that is inserted behind the colon of a facet is found again. The line has three tokens: the name of the
facet, the colon, and one token that holds all that was inserted. A value without marks is written as it is, and is
a word. Any other value is put in quotes: it is a closed string, and its body is the value once the backslashes are
taken away. At the end of the line a value of this facet is typed. -/
theorem tokens_insertedValue {value : Text} (filled : value ≠ [])
    (inLine : ∀ c ∈ value, Text.insideLine c = true) :
    let line := f.lineWith (quoteFacetValue value)
    let c := contextOf line line.length
    (∃ t, tokens logsMarks line = [f.nameToken, f.colonToken, t] ∧ t.written = quoteFacetValue value ∧
      t.start = f.text.length + 1 ∧ t.stop = line.length ∧
      (value.any isFacetMark = false → t.kind = .word ∧ t.written = value) ∧
      (value.any isFacetMark = true → t.kind = .quoted ∧ isClosedString t.written = true ∧
        isClosedString t.masked = true ∧ ∃ body, t.written = '"' :: (body ++ ['"']) ∧ unescape body = value)) ∧
    c.place = .facetValue ∧ c.key? = some f.text := by
  intro line c
  have scanned : scan logsMarks (Text.mask (quoteFacetValue value)) =
      [((valueToken 0 value).kind, Text.mask (quoteFacetValue value))] := by
    have cut := scan_quoteFacetValue filled inLine (show Stops logsMarks [] from .nil)
    rwa [List.append_nil, scan] at cut
  have valued : (valueToken 0 value).kind = .word ∨ (valueToken 0 value).kind = .quoted := by
    cases marked : value.any isFacetMark <;> simp [valueToken, marked]
  have asks := f.contextOf_end scanned (quoteFacetValue_ne_nil filled) (inside_quoteFacetValue inLine) valued
  refine ⟨⟨_, f.tokens_lineWith scanned, rfl, rfl, ?_, ?_, ?_⟩, asks.place, asks.key⟩
  · simp [Token.stop, line, lineWith]
    omega
  · intro unmarked
    exact ⟨by simp [valueToken, unmarked], quoteFacetValue_of_unmarked unmarked⟩
  · intro marked
    have units := units_escapeQuoted inLine
    refine ⟨by simp [valueToken, marked], ?_, ?_, escapeQuoted value, ?_, unescape_escapeQuoted value⟩
    · rw [quoteFacetValue_of_marked marked]
      exact isClosedString_of_units units
    · rw [quoteFacetValue_of_marked marked, mask_quoted]
      exact isClosedString_of_units (units.mask (by decide))
    · exact quoteFacetValue_of_marked marked

/-- The facet of services. -/
def service : FacetName := ⟨"service".toList, by decide, by decide⟩

theorem tokens_insertedValue_backslash :
    let value := "a \"\\".toList
    let line := "service:\"a \\\"\\\\\"".toList
    line = service.lineWith (quoteFacetValue value) ∧
    (∃ t, tokens logsMarks line = [service.nameToken, service.colonToken, t] ∧ t.kind = .quoted ∧
      isClosedString t.written = true) ∧
    (contextOf line line.length).key? = some "service".toList := by
  intro value line
  have same : line = service.lineWith (quoteFacetValue value) := by decide
  have inLine : ∀ c ∈ value, Text.insideLine c = true := List.all_eq_true.1 (by decide)
  obtain ⟨⟨t, tokens, -, -, -, -, quoted⟩, -, key⟩ := service.tokens_insertedValue (by decide) inLine
  obtain ⟨kind, closed, -⟩ := quoted (by decide)
  rw [← same] at tokens key
  exact ⟨same, ⟨t, tokens, kind, closed⟩, key⟩

end FacetName

end Logs

end Typeahead
