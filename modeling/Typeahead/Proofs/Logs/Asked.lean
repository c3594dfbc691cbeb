import Typeahead.Logs.Cursor
import Typeahead.Proofs.Logs.Written
import Typeahead.Proofs.Metrics.Segments

/-!
What a cursor in a lexeme of a logs line asks for, if the line is written out in full: a value of a facet, the
name of a facet, or a search term.

- `lineOf_split`, `lineLexemes_split`: an item of a line and what stands around it.
- `contextAt_lexeme`: the token before the cursor, and the group that is open there.
- `asksValue_of_slot`, `asksValue_of_group`, `asksTerm_of_kind`: the three rules of the cursor.
-/

namespace Typeahead.Logs

open Lexer
open Metrics (Balanced balanced_lay)

/-- The context asks for a value of a facet. -/
structure AsksValue (c : Context) (facet typed : Text) (inGroup : Bool) : Prop where
  place : c.place = .facetValue
  key : c.key? = some facet
  facet : c.facet? = Facet.named? facet
  token : c.token = typed
  group : c.inGroup = inGroup

/-- The context asks for the name of a facet. -/
structure AsksFacet (c : Context) (typed : Text) (afterOperator : Bool) : Prop where
  place : c.place = .facetName
  token : c.token = typed
  group : c.inGroup = false
  operator : c.afterOperator = afterOperator

/-- The context asks for a search term. -/
structure AsksTerm (c : Context) (afterOperator : Bool) : Prop where
  place : c.place = .logsSearch
  group : c.inGroup = false
  operator : c.afterOperator = afterOperator

/-- The groups that are open are the parentheses that are. -/
theorem openGroups_eq (opened fs : List Focus) :
    openGroups opened fs = Metrics.Reading.openParens opened fs := by
  induction fs generalizing opened with
  | nil => rfl
  | cons f fs ih =>
    rw [openGroups, Metrics.Reading.openParens]
    cases f.token.kind <;> exact ih _

theorem kind_of_mem_termsLexemes {ts : List Term} {l : Lexeme} (h : l ∈ termsLexemes ts) :
    l.1 = .word ∨ l.1 = .blank := by
  induction ts with
  | nil => cases h
  | cons t ts ih =>
    cases ts with
    | nil =>
      obtain rfl : l = t.lexeme := by simpa [termsLexemes] using h
      exact .inl rfl
    | cons t' ts =>
      have split : termsLexemes (t :: t' :: ts) = t.lexeme :: space :: termsLexemes (t' :: ts) := by
        simp [termsLexemes, List.intercalate_cons_cons]
      rw [split] at h
      rcases List.mem_cons.1 h with rfl | h
      · exact .inl rfl
      · rcases List.mem_cons.1 h with rfl | h
        · exact .inr rfl
        · exact ih h

theorem neutral_terms (ts : List Term) : ∀ l ∈ termsLexemes ts, l.1 ≠ .openParen ∧ l.1 ≠ .closeParen := by
  intro l mem
  rcases kind_of_mem_termsLexemes mem with kind | kind <;> simp [kind]

/-- An item closes the parentheses it opens. -/
theorem Item.balanced (i : Item) (n : Nat) : Balanced (lay n i.lexemes) := by
  cases i with
  | term t => exact balanced_lay (by simp [lexemes, Term.lexeme]) n
  | pair facet value => exact balanced_lay (by simp [lexemes]) n
  | group facet first more =>
    have split : (group facet first more).lexemes = [(.word, facet.text), (.colon, [':'])] ++
        (.openParen, ['(']) :: (termsLexemes (first :: more) ++ [(.closeParen, [')'])]) := rfl
    rw [split, lay_append]
    refine .append (balanced_lay (by simp) n) ?_
    rw [lay_cons, lay_append]
    exact (balanced_lay (neutral_terms (first :: more)) _).enclosed rfl rfl

/-- How a line is written up to the item that comes behind some others. -/
def upTo (before : List Item) : Text := (before.map fun i => i.text ++ [' ']).flatten

/-- The lexemes of a line up to an item. -/
def upToLexemes (before : List Item) : List Lexeme := (before.map fun i => i.lexemes ++ [space]).flatten

theorem spell_upTo (before : List Item) : spell (upToLexemes before) = upTo before := by
  induction before with
  | nil => rfl
  | cons i before ih =>
    have split : upToLexemes (i :: before) = i.lexemes ++ space :: upToLexemes before := by
      simp [upToLexemes]
    rw [split, spell_append, spell_cons, ih, spell_of_reads i.reads]
    simp [upTo, space]

theorem balanced_upTo (before : List Item) (n : Nat) : Balanced (lay n (upToLexemes before)) := by
  induction before generalizing n with
  | nil => exact .nil
  | cons i before ih =>
    have split : upToLexemes (i :: before) = i.lexemes ++ ([space] ++ upToLexemes before) := by
      simp [upToLexemes]
    rw [split, lay_append, lay_append]
    exact (i.balanced n).append ((balanced_lay (by simp [space]) _).append (ih _))

theorem lineLexemes_split (before : List Item) (item : Item) (after : List Item) :
    lineLexemes (before ++ item :: after) =
      upToLexemes before ++ item.lexemes ++ (after.map fun i => space :: i.lexemes).flatten := by
  have split := intercalate_append [space] (before.map Item.lexemes) item.lexemes (after.map Item.lexemes)
  simpa [lineLexemes, upToLexemes, Function.comp_def] using split

theorem lineOf_split (before : List Item) (item : Item) (after : List Item) :
    lineOf (before ++ item :: after) =
      upTo before ++ item.text ++ (after.map fun i => ' ' :: i.text).flatten := by
  have split := intercalate_append [' '] (before.map Item.text) item.text (after.map Item.text)
  rw [lineOf, Text.joinWith_eq_intercalate]
  simpa [upTo, Function.comp_def] using split

theorem lexeme_ne_nil {items : List Item} {l : Lexeme} (mem : l ∈ lineLexemes items) : l.2 ≠ [] := by
  have there : l ∈ scan logsMarks (lineOf items ++ []) := by
    rw [reads_lineOf items [] .nil]
    exact List.mem_append_left _ mem
  exact scan_ne_nil there

section

variable {items : List Item} {ls rest : List Lexeme} {l : Lexeme} {n : Nat}

/-- A lexeme seen with its neighbours. -/
def focusOn (ls : List Lexeme) (l : Lexeme) (rest : List Lexeme) : Focus :=
  ⟨(lay 0 ls).reverse, ⟨l.1, (spell ls).length, l.2, l.2⟩, lay ((spell ls).length + l.2.length) rest⟩

/-- The innermost parenthesis that some lexemes leave open. -/
def openAmong (ls : List Lexeme) : Option Focus := (openGroups [] (focuses (lay 0 ls))).head?

/-- At a place in a lexeme the lexeme is the token before the cursor, and those groups are open which the
lexemes up to it leave open. -/
theorem contextAt_lexeme (same : lineLexemes items = ls ++ l :: rest) (started : 0 < n)
    (within : n ≤ l.2.length) :
    let r := Reading.of (lineOf items)
    let position := (spell ls).length + n
    focusBefore? r.tokens position = some (focusOn ls l rest) ∧
      (r.openGroup? position).isSome = (openAmong (ls ++ [l])).isSome ∧
      (r.openGroup? position).bind facetWord? = (openAmong (ls ++ [l])).bind facetWord? := by
  have tokens : (Reading.of (lineOf items)).tokens =
      lay 0 (ls ++ [l]) ++ lay ((spell ls).length + l.2.length) rest := by
    rw [reading_lineOf, same]
    simp
  have beyond : ∀ t ∈ lay ((spell ls).length + l.2.length) rest, (spell ls).length + n ≤ t.start := by
    intro t mem
    have := (start_le_of_mem_lay mem).1
    omega
  have before : ∀ t ∈ lay 0 (ls ++ [l]), t.start < (spell ls).length + n := by
    intro t mem
    rw [lay_append, lay_cons, lay_nil] at mem
    rcases List.mem_append.1 mem with passed | last
    · have nonempty : ∀ k ∈ ls, k.2 ≠ [] := by
        intro k among
        have there : k ∈ lineLexemes items := by simp [same, among]
        exact lexeme_ne_nil there
      have := start_lt_of_mem_lay nonempty passed
      omega
    · rw [List.mem_singleton.1 last]
      simp [started]
  refine ⟨?_, ?_⟩
  · rw [tokens, lay_append, lay_cons, lay_nil, List.append_assoc, List.singleton_append]
    rw [focusBefore?_append (by simp [started]) beyond]
    simp [focusOn]
  · have opened := Metrics.openParens_followedBy (lay ((spell ls).length + l.2.length) rest) []
      (focuses (lay 0 (ls ++ [l])))
    have same : (Reading.of (lineOf items)).openGroup? ((spell ls).length + n) =
        (openAmong (ls ++ [l])).map (·.followedBy (lay ((spell ls).length + l.2.length) rest)) := by
      rw [Reading.openGroup?, tokens, focuses_filter before beyond, openAmong, openGroups_eq, openGroups_eq,
        ← List.head?_map, ← opened, List.map_nil]
    rw [same]
    cases openAmong (ls ++ [l]) with
    | none => exact ⟨rfl, rfl⟩
    | some f => exact ⟨rfl, rfl⟩

variable (same : lineLexemes items = ls ++ l :: rest) (started : 0 < n) (within : n ≤ l.2.length)

include same started within

/-- A token in the slot behind the colon of a facet asks for its value. -/
theorem asksValue_of_slot {name : Token} {value : Text}
    (slot : Reading.slot? (focusOn ls l rest) (l.2.take n) = some (name, value)) :
    AsksValue ((Reading.of (lineOf items)).contextAt ((spell ls).length + n)) (bareFacet name.written) value
      (openAmong (ls ++ [l])).isSome := by
  obtain ⟨found, opened, -⟩ := contextAt_lexeme same started within
  have typed : (focusOn ls l rest).token.written.take ((spell ls).length + n -
      (focusOn ls l rest).token.start) = l.2.take n := by
    simp [focusOn]
  simp only [Reading.contextAt, found, typed, slot, opened]
  exact ⟨rfl, rfl, rfl, rfl, rfl⟩

/-- Elsewhere in the group of a facet the word at the cursor is asked for, if it is no operator. -/
theorem asksValue_of_group {name : Token} (free : Reading.slot? (focusOn ls l rest) (l.2.take n) = none)
    (unquoted : l.1 ≠ .quoted) (group : (openAmong (ls ++ [l])).bind facetWord? = some name) :
    AsksValue ((Reading.of (lineOf items)).contextAt ((spell ls).length + n)) (bareFacet name.written)
      (if l.1 = .word && !isOperator (focusOn ls l rest).token then l.2.take n else []) true := by
  obtain ⟨found, opened, named⟩ := contextAt_lexeme same started within
  have typed : (focusOn ls l rest).token.written.take ((spell ls).length + n -
      (focusOn ls l rest).token.start) = l.2.take n := by
    simp [focusOn]
  have kind : (focusOn ls l rest).token.kind = l.1 := rfl
  have some_open : (openAmong (ls ++ [l])).isSome = true := by
    cases among : openAmong (ls ++ [l]) with
    | none => simp [among] at group
    | some f => rfl
  simp only [Reading.contextAt, found, typed, free, kind, unquoted, named, group, opened, some_open, if_false]
  exact ⟨rfl, rfl, rfl, rfl, rfl⟩

/-- Outside of slots and groups the facet or the term at the cursor is asked for. -/
theorem contextAt_outside (free : Reading.slot? (focusOn ls l rest) (l.2.take n) = none) (unquoted : l.1 ≠ .quoted)
    (closed : openAmong (ls ++ [l]) = none) :
    (Reading.of (lineOf items)).contextAt ((spell ls).length + n) =
      (Reading.of (lineOf items)).termContext
        { place := .logsSearch, usedKeys := (Reading.of (lineOf items)).facetNames ((spell ls).length + n) }
        (focusOn ls l rest) ((spell ls).length + n) := by
  obtain ⟨found, opened, named⟩ := contextAt_lexeme same started within
  have kind : (focusOn ls l rest).token.kind = l.1 := rfl
  have typed : (focusOn ls l rest).token.written.take ((spell ls).length + n -
      (focusOn ls l rest).token.start) = l.2.take n := by
    simp [focusOn]
  rw [closed] at opened named
  simp only [Reading.contextAt, found, typed, free, kind, unquoted, named, opened, if_false]
  rfl

/-- What is no word asks for a search term there. -/
theorem asksTerm_of_kind (free : Reading.slot? (focusOn ls l rest) (l.2.take n) = none) (unquoted : l.1 ≠ .quoted)
    (closed : openAmong (ls ++ [l]) = none) (kind : l.1 ≠ .word) :
    AsksTerm ((Reading.of (lineOf items)).contextAt ((spell ls).length + n))
      (Reading.followsOperator (focusOn ls l rest)) := by
  have here : (focusOn ls l rest).token.kind = l.1 := rfl
  rw [contextAt_outside same started within free unquoted closed]
  simp only [Reading.termContext, here, kind, if_false]
  exact ⟨rfl, rfl, rfl⟩

end

end Typeahead.Logs
