import Mathlib.Data.List.Basic
import Mathlib.Data.List.Induction
import Typeahead.Proofs.Logs.Asked

/-!
What every cursor in a logs line asks for, if the line is written out in full.

- `asksTerm_start`, `contextAt_word`: in front of an item and in its first word.
- `asksValue_colon`, `asksValue_pair`, `asksValue_term`, `asksTerm_closed`: in a pair and in a group.
- `contextOf_lineOf`: every cursor in a line.
-/

namespace Typeahead.Logs

open Lexer
open Metrics (Balanced balanced_lay)

/-- A text of words has no sign of negation. -/
theorem bareFacet_eq {t : Text} (chars : ∀ c ∈ t, isTermChar c = true) : bareFacet t = t := by
  unfold bareFacet Text.trimLeft
  cases t with
  | nil => rfl
  | cons c rest =>
    have unsigned := (plain_of_isTermChar (chars c List.mem_cons_self)).2.2
    simp [unsigned]

theorem isFacetChar_of_isTermChar {c : Char} (h : isTermChar c = true) : isFacetChar c = true := by
  simp only [isTermChar, Bool.or_eq_true, decide_eq_true_eq] at h
  rcases h with (alphanumeric | rfl) | rfl
  · simp [isFacetChar, isWordChar_of_isAlphanum alphanumeric]
  all_goals decide

/-- Whether an item is an operator. -/
def Item.isOperator : Item → Bool
  | .term (.operator _) => true
  | _ => false

/-- Whether the last of some items is an operator. -/
def endsInOperator (before : List Item) : Bool := before.getLast?.any Item.isOperator

theorem isOperator_word (w : Word) (start : Nat) : isOperator ⟨.word, start, w.text, w.text⟩ = false := by
  simp [isOperator, operator?, w.ordinary]

theorem isOperator_operator (o : Operator) (start : Nat) :
    isOperator ⟨.word, start, o.word, o.word⟩ = true := by
  cases o <;> simp [isOperator, operator?] <;> decide

/-- The last token of an item is not blank, and tells whether the item is an operator. -/
theorem seekLeft_item (i : Item) (n : Nat) (after more : List Token) :
    (Focus.seekLeft after ((lay n i.lexemes).reverse ++ more)).any (fun p => isOperator p.token) =
      i.isOperator := by
  cases i with
  | term t =>
    cases t with
    | word w => simp [Item.lexemes, Term.lexeme, Term.text, Focus.seekLeft, isOperator_word, Item.isOperator]
    | operator o =>
      simp [Item.lexemes, Term.lexeme, Term.text, Focus.seekLeft, isOperator_operator, Item.isOperator]
  | pair facet value => simp [Item.lexemes, Focus.seekLeft, isOperator_word, Item.isOperator]
  | group facet first more =>
    simp [Item.lexemes, Focus.seekLeft, Item.isOperator, isOperator, operator?]

theorem upToLexemes_snoc (before : List Item) (i : Item) :
    upToLexemes (before ++ [i]) = upToLexemes before ++ i.lexemes ++ [space] := by
  simp [upToLexemes]

/-- The last token in front of an item that is not blank ends the item before it. -/
theorem seekLeft_upTo (before : List Item) (after : List Token) :
    (Focus.seekLeft after (lay 0 (upToLexemes before)).reverse).any (fun p => isOperator p.token) =
      endsInOperator before := by
  induction before using List.reverseRecOn with
  | nil => rfl
  | append_singleton before i _ =>
    rw [upToLexemes_snoc, lay_append, lay_append, List.reverse_append, List.reverse_append]
    have skipped (t : Token) (blank : t.kind = .blank) (ts : List Token) :
        Focus.seekLeft after (t :: ts) = Focus.seekLeft (t :: after) ts := by
      rw [Focus.seekLeft, if_pos blank]
    simp only [space, lay_cons, lay_nil, List.reverse_singleton, List.singleton_append]
    rw [skipped _ rfl, seekLeft_item]
    simp [endsInOperator]

/-- Only a colon stands between a facet and its value. -/
theorem facetWord?_of_last {k : Lexeme} (kind : k.1 ≠ .colon) (ls : List Lexeme) (l : Lexeme)
    (rest : List Lexeme) : facetWord? (focusOn (ls ++ [k]) l rest) = none := by
  rw [focusOn, lay_append, List.reverse_append]
  simp only [lay_cons, lay_nil, List.reverse_singleton, List.singleton_append, facetWord?]
  split
  · next same =>
    obtain rfl := List.head_eq_of_cons_eq same
    simp [kind]
  · rfl

theorem facetWord?_upTo (before : List Item) (l : Lexeme) (rest : List Lexeme) :
    facetWord? (focusOn (upToLexemes before) l rest) = none := by
  rcases List.eq_nil_or_concat' before with rfl | ⟨passed, i, rfl⟩
  · rfl
  · rw [upToLexemes_snoc]
    exact facetWord?_of_last (by simp [space]) _ l rest

/-- Items leave no group open. -/
theorem openAmong_balanced (before : List Item) {ks : List Lexeme}
    (balanced : Balanced (lay (upTo before).length ks)) : openAmong (upToLexemes before ++ ks) = none := by
  rw [openAmong, openGroups_eq, lay_append, Nat.zero_add, spell_upTo, focuses,
    ((balanced_upTo before 0).append balanced).openParens_eq]
  rfl

/-- A group is open behind its parenthesis, and its facet stands in front of it. -/
theorem openAmong_group (before : List Item) (facet : Text) {ks : List Lexeme}
    (neutral : ∀ l ∈ ks, l.1 ≠ .openParen ∧ l.1 ≠ .closeParen) :
    (openAmong (upToLexemes before ++ ([(.word, facet), (.colon, [':']), (.openParen, ['('])] ++ ks))).bind
      facetWord? = some ⟨.word, (upTo before).length, facet, facet⟩ := by
  have inner := (balanced_lay neutral ((upTo before).length + facet.length + 1 + 1)).openParens_eq
  rw [openAmong, openGroups_eq, lay_append, Nat.zero_add, spell_upTo, focuses, balanced_upTo before 0]
  simp [focusesFrom, Metrics.Reading.openParens, inner, facetWord?]

/-- In front of an item a search term is asked for. -/
theorem asksTerm_start (before : List Item) (item : Item) (after : List Item) :
    AsksTerm ((Reading.of (lineOf (before ++ item :: after))).contextAt (upTo before).length)
      (endsInOperator before) := by
  induction before using List.reverseRecOn with
  | nil =>
    have unstarted (ts : List Token) : focusBefore? ts 0 = none := by
      simp [focusBefore?]
    have closed (r : Reading) : r.openGroup? 0 = none := by
      have none_started : ((focuses r.tokens).filter fun f => f.token.start < 0) = [] :=
        List.filter_eq_nil_iff.2 (by simp)
      rw [Reading.openGroup?, none_started]
      rfl
    simp only [Reading.contextAt, upTo, List.map_nil, List.flatten_nil, List.length_nil, unstarted, closed]
    exact ⟨rfl, rfl, rfl⟩
  | append_singleton before i _ =>
    have same : lineLexemes (before ++ [i] ++ item :: after) = (upToLexemes before ++ i.lexemes) ++
        space :: (item.lexemes ++ (after.map fun i => space :: i.lexemes).flatten) := by
      rw [lineLexemes_split, upToLexemes_snoc]
      simp
    have closed : openAmong (upToLexemes before ++ i.lexemes ++ [space]) = none := by
      rw [← upToLexemes_snoc, ← List.append_nil (upToLexemes (before ++ [i]))]
      exact openAmong_balanced _ .nil
    have asked := asksTerm_of_kind same (n := 1) (by simp) (by simp [space]) rfl (by simp [space]) closed
      (by simp [space])
    have follows : Reading.followsOperator (focusOn (upToLexemes before ++ i.lexemes) space
        (item.lexemes ++ (after.map fun i => space :: i.lexemes).flatten)) = endsInOperator (before ++ [i]) := by
      simp only [Reading.followsOperator, Focus.preceding?, focusOn, space, lay_append, List.reverse_append,
        seekLeft_item]
      simp [endsInOperator]
    have position : (spell (upToLexemes before ++ i.lexemes)).length + 1 = (upTo (before ++ [i])).length := by
      rw [← spell_upTo, upToLexemes_snoc, spell_append _ [space], List.length_append]
      rfl
    rwa [follows, position] at asked

section

variable {items before : List Item} {w : Text} {rest : List Lexeme} {n : Nat}

/-- A word that begins an item is asked for as the name of a facet, or as a search term. -/
theorem contextAt_word (same : lineLexemes items = upToLexemes before ++ (.word, w) :: rest)
    (chars : ∀ c ∈ w, isTermChar c = true) (started : 0 < n) (within : n ≤ w.length) :
    let focus := focusOn (upToLexemes before) (.word, w) rest
    let c := (Reading.of (lineOf items)).contextAt ((upTo before).length + n)
    if !isOperator focus.token && Reading.mayNameFacet focus (w.take n) then
      AsksFacet c (w.take n) (endsInOperator before || isOperator focus.token)
    else AsksTerm c (endsInOperator before || isOperator focus.token) := by
  intro focus c
  have free : Reading.slot? focus (w.take n) = none := by
    have facetless : facetWord? focus = none := facetWord?_upTo before (.word, w) rest
    have kind : focus.token.kind = .word := rfl
    simp [Reading.slot?, kind, facetless]
  have closed : openAmong (upToLexemes before ++ [(.word, w)]) = none :=
    openAmong_balanced before (balanced_lay (by simp) _)
  have follows : Reading.followsOperator focus = (endsInOperator before || isOperator focus.token) := by
    simp only [Reading.followsOperator, Focus.preceding?, focus, focusOn, seekLeft_upTo]
  have outside := contextAt_outside same started within free (by simp) closed
  rw [spell_upTo] at outside
  have typed : bareFacet (focus.token.written.take ((upTo before).length + n - focus.token.start)) =
      w.take n := by
    have start : focus.token.start = (upTo before).length := by simp [focus, focusOn, spell_upTo]
    rw [start, Nat.add_sub_cancel_left]
    exact bareFacet_eq fun c mem => chars c (List.mem_of_mem_take mem)
  have nonempty : (w.take n).isEmpty = false := by
    rw [List.isEmpty_eq_false_iff, ← List.length_pos_iff, List.length_take]
    omega
  have head : (Reading.of (lineOf items)).text.take ((upTo before).length + n) = upTo before ++ w.take n := by
    have line : lineOf items = upTo before ++ (w ++ spell rest) := by
      rw [← spell_of_reads (reads_lineOf items), same, spell_append, spell_upTo, spell_cons]
    rw [show (Reading.of (lineOf items)).text = lineOf items from rfl, line, List.take_length_add_append,
      List.take_append_of_le_length within]
  have trailing : Text.trailing isFacetChar (upTo before ++ w.take n) = w.take n := by
    refine Text.trailing_append (fun c mem => ?_) fun d last => ?_
    · exact isFacetChar_of_isTermChar (chars c (List.mem_of_mem_take mem))
    · rcases List.eq_nil_or_concat' before with rfl | ⟨passed, i, rfl⟩
      · cases last
      · obtain rfl : ' ' = d := by simpa [upTo] using last
        decide
  have context : c = (Reading.of (lineOf items)).termContext _ focus _ := outside
  by_cases naming : (!isOperator focus.token && Reading.mayNameFacet focus (w.take n)) = true
  · rw [if_pos naming, context]
    simp only [Reading.termContext, typed, nonempty, naming, head, trailing, follows, Bool.not_false,
      Bool.true_and, if_true, show focus.token.kind = .word from rfl]
    exact ⟨rfl, rfl, rfl, rfl⟩
  · rw [if_neg naming, context]
    simp only [Reading.termContext, typed, nonempty, naming, follows, Bool.not_false, Bool.true_and, if_true,
      show focus.token.kind = .word from rfl]
    exact ⟨rfl, rfl, rfl⟩

/-- Behind the colon of a facet its value is asked for. -/
theorem asksValue_colon (facet : Word) (same : lineLexemes items =
    upToLexemes before ++ (.word, facet.text) :: (.colon, [':']) :: rest) :
    AsksValue ((Reading.of (lineOf items)).contextAt ((upTo before).length + (facet.text.length + 1)))
      facet.text [] false := by
  have split : lineLexemes items =
      (upToLexemes before ++ [(.word, facet.text)]) ++ (.colon, [':']) :: rest := by simp [same]
  have slot : Reading.slot? (focusOn (upToLexemes before ++ [(.word, facet.text)]) (.colon, [':']) rest)
      ([':'].take 1) = some (⟨.word, (upTo before).length, facet.text, facet.text⟩, []) := by
    simp [Reading.slot?, focusOn, spell_upTo]
  have closed : openAmong (upToLexemes before ++ [(.word, facet.text)] ++ [(.colon, [':'])]) = none := by
    rw [List.append_assoc]
    exact openAmong_balanced before (balanced_lay (by simp) _)
  have asked := asksValue_of_slot split Nat.one_pos (Nat.le_refl _) slot
  rw [closed, bareFacet_eq (List.all_eq_true.1 facet.chars)] at asked
  simpa [spell_upTo, Nat.add_assoc] using asked

/-- The word behind the colon of a facet is its value. -/
theorem asksValue_pair (facet : Word) (same : lineLexemes items =
    upToLexemes before ++ (.word, facet.text) :: (.colon, [':']) :: (.word, w) :: rest) (started : 0 < n)
    (within : n ≤ w.length) :
    AsksValue ((Reading.of (lineOf items)).contextAt ((upTo before).length + (facet.text.length + 1 + n)))
      facet.text (w.take n) false := by
  have split : lineLexemes items =
      (upToLexemes before ++ [(.word, facet.text), (.colon, [':'])]) ++ (.word, w) :: rest := by simp [same]
  have slot : Reading.slot? (focusOn (upToLexemes before ++ [(.word, facet.text), (.colon, [':'])])
      (.word, w) rest) (w.take n) =
        some (⟨.word, (upTo before).length, facet.text, facet.text⟩, w.take n) := by
    simp [Reading.slot?, facetWord?, focusOn, spell_upTo]
  have closed : openAmong (upToLexemes before ++ [(.word, facet.text), (.colon, [':'])] ++ [(.word, w)]) =
      none := by
    rw [List.append_assoc]
    exact openAmong_balanced before (balanced_lay (by simp) _)
  have asked := asksValue_of_slot split started within slot
  rw [closed, bareFacet_eq (List.all_eq_true.1 facet.chars)] at asked
  simpa [spell_upTo, Nat.add_assoc] using asked

/-- The lexemes of a group up to its parenthesis. -/
def opening (facet : Word) : List Lexeme := [(.word, facet.text), (.colon, [':']), (.openParen, ['('])]

/-- Between the parentheses of a group the word at the cursor is asked for, if it is no operator. -/
theorem asksValue_grouped (before : List Item) (facet : Word) (ks : List Lexeme) {ls : List Lexeme} {l : Lexeme}
    (same : lineLexemes items = ls ++ l :: rest) (started : 0 < n) (within : n ≤ l.2.length)
    (split : ls ++ [l] = upToLexemes before ++ (opening facet ++ ks))
    (neutral : ∀ k ∈ ks, k.1 ≠ .openParen ∧ k.1 ≠ .closeParen)
    (free : Reading.slot? (focusOn ls l rest) (l.2.take n) = none) (unquoted : l.1 ≠ .quoted) :
    AsksValue ((Reading.of (lineOf items)).contextAt ((spell ls).length + n)) facet.text
      (if l.1 = .word && !isOperator (focusOn ls l rest).token then l.2.take n else []) true := by
  have group := openAmong_group before facet.text neutral
  rw [← opening, ← split] at group
  have asked := asksValue_of_group same started within free unquoted group
  rwa [bareFacet_eq (List.all_eq_true.1 facet.chars)] at asked

end

/-- The part of a term up to its character number `n`, if the term is no operator. -/
def Term.typed : Term → Nat → Text
  | .word w, n => w.text.take n
  | .operator _, _ => []

/-- How the terms of a group are written that stand in front of another one. -/
def termsUpTo (ts : List Term) : Text := (ts.map fun t => t.text ++ [' ']).flatten

/-- The lexemes of the terms of a group that stand in front of another one. -/
def termsUpToLexemes (ts : List Term) : List Lexeme := (ts.map fun t => [t.lexeme, space]).flatten

theorem spell_termsUpTo (ts : List Term) : spell (termsUpToLexemes ts) = termsUpTo ts := by
  induction ts with
  | nil => rfl
  | cons t ts ih =>
    have split : termsUpToLexemes (t :: ts) = t.lexeme :: space :: termsUpToLexemes ts := rfl
    rw [split, spell_cons, spell_cons, ih]
    simp [termsUpTo, Term.lexeme, space]

theorem neutral_termsUpTo (ts : List Term) :
    ∀ l ∈ termsUpToLexemes ts, l.1 ≠ .openParen ∧ l.1 ≠ .closeParen := by
  intro l mem
  obtain ⟨ls, there, among⟩ := List.mem_flatten.1 mem
  obtain ⟨t, -, rfl⟩ := List.mem_map.1 there
  simp only [List.mem_cons, List.not_mem_nil, or_false] at among
  rcases among with rfl | rfl <;> simp [Term.lexeme, space]

theorem termsLexemes_split (passed : List Term) (t : Term) (left : List Term) :
    termsLexemes (passed ++ t :: left) =
      termsUpToLexemes passed ++ t.lexeme :: (left.map fun t => [space, t.lexeme]).flatten := by
  have split := intercalate_append [space] (passed.map fun t => [t.lexeme]) [t.lexeme]
    (left.map fun t => [t.lexeme])
  simpa [termsLexemes, termsUpToLexemes, Function.comp_def] using split

section

variable {items before : List Item} {rest : List Lexeme} (facet : Word)

/-- In front of a term of a group the token before the cursor is the parenthesis or a blank. -/
theorem asksValue_term_start (passed : List Term) (t : Term) (same : lineLexemes items =
      upToLexemes before ++ (opening facet ++ (termsUpToLexemes passed ++ t.lexeme :: rest))) :
    AsksValue ((Reading.of (lineOf items)).contextAt
      ((upTo before).length + (facet.text.length + 2 + (termsUpTo passed).length))) facet.text [] true := by
  have front : (spell (opening facet)).length = facet.text.length + 2 := by simp [opening]
  rcases List.eq_nil_or_concat' passed with rfl | ⟨passed, u, rfl⟩
  · have split : lineLexemes items = (upToLexemes before ++ [(.word, facet.text), (.colon, [':'])]) ++
        (.openParen, ['(']) :: (t.lexeme :: rest) := by
      simp [same, opening, termsUpToLexemes]
    have asked := asksValue_grouped before facet [] split Nat.one_pos (Nat.le_refl _)
      (by simp [opening]) (by simp) rfl (by simp)
    simpa [spell_upTo, termsUpTo, Nat.add_assoc] using asked
  · have split : lineLexemes items = (upToLexemes before ++ (opening facet ++
        (termsUpToLexemes passed ++ [u.lexeme]))) ++ space :: (t.lexeme :: rest) := by
      simp [same, termsUpToLexemes]
    have neutral : ∀ k ∈ termsUpToLexemes passed ++ [u.lexeme] ++ [space],
        k.1 ≠ .openParen ∧ k.1 ≠ .closeParen := by
      have here := neutral_termsUpTo (passed ++ [u])
      simpa [termsUpToLexemes] using here
    have asked := asksValue_grouped before facet (termsUpToLexemes passed ++ [u.lexeme] ++ [space]) split
      Nat.one_pos (by simp [space]) (by simp) neutral rfl (by simp [space])
    simpa [spell_upTo, front, termsUpTo, spell_termsUpTo, space, Term.lexeme, Nat.add_assoc] using asked

/-- A term of a group stands behind a parenthesis or a blank, so it is not the value of a pair. -/
theorem facetWord?_term (passed : List Term) (l : Lexeme) :
    facetWord? (focusOn (upToLexemes before ++ (opening facet ++ termsUpToLexemes passed)) l rest) = none := by
  rcases List.eq_nil_or_concat' passed with rfl | ⟨passed, u, rfl⟩
  · have last := facetWord?_of_last (k := (.openParen, ['('])) (by simp)
      (upToLexemes before ++ [(.word, facet.text), (.colon, [':'])]) l rest
    simpa [opening, termsUpToLexemes] using last
  · have last := facetWord?_of_last (k := space) (by simp [space])
      (upToLexemes before ++ (opening facet ++ (termsUpToLexemes passed ++ [u.lexeme]))) l rest
    simpa [termsUpToLexemes] using last

/-- What is asked for in a term of a group. -/
theorem asksValue_term (passed : List Term) (t : Term) {n : Nat} (within : n ≤ t.text.length)
    (same : lineLexemes items =
      upToLexemes before ++ (opening facet ++ (termsUpToLexemes passed ++ t.lexeme :: rest))) :
    AsksValue ((Reading.of (lineOf items)).contextAt
      ((upTo before).length + (facet.text.length + 2 + ((termsUpTo passed).length + n)))) facet.text
      (t.typed n) true := by
  obtain rfl | started := Nat.eq_zero_or_pos n
  · have untyped : t.typed 0 = [] := by cases t <;> simp [Term.typed]
    rw [untyped]
    exact asksValue_term_start facet passed t same
  · have split : lineLexemes items =
        (upToLexemes before ++ (opening facet ++ termsUpToLexemes passed)) ++ t.lexeme :: rest := by
      simp [same]
    have front : (spell (opening facet)).length = facet.text.length + 2 := by simp [opening]
    have neutral : ∀ k ∈ termsUpToLexemes passed ++ [t.lexeme], k.1 ≠ .openParen ∧ k.1 ≠ .closeParen :=
      List.forall_mem_append.2 ⟨neutral_termsUpTo passed, by simp [Term.lexeme]⟩
    have free : Reading.slot? (focusOn (upToLexemes before ++ (opening facet ++ termsUpToLexemes passed))
        t.lexeme rest) (t.lexeme.2.take n) = none := by
      have kind : (focusOn (upToLexemes before ++ (opening facet ++ termsUpToLexemes passed)) t.lexeme
        rest).token.kind = .word := rfl
      simp [Reading.slot?, kind, facetWord?_term]
    have asked := asksValue_grouped before facet (termsUpToLexemes passed ++ [t.lexeme]) split started within
      (by simp) neutral free (by simp [Term.lexeme])
    have typed (start : Nat) : (if t.lexeme.1 = .word && !isOperator ⟨t.lexeme.1, start, t.lexeme.2, t.lexeme.2⟩
        then t.lexeme.2.take n else []) = t.typed n := by
      cases t with
      | word w => simp [Term.lexeme, Term.text, Term.typed, isOperator_word]
      | operator o => simp [Term.lexeme, Term.text, Term.typed, isOperator_operator]
    rw [show (focusOn (upToLexemes before ++ (opening facet ++ termsUpToLexemes passed)) t.lexeme rest).token =
      ⟨t.lexeme.1, _, t.lexeme.2, t.lexeme.2⟩ from rfl, typed] at asked
    simpa [spell_upTo, front, spell_termsUpTo, Nat.add_assoc] using asked

/-- Behind a group a search term is asked for. -/
theorem asksTerm_closed (facet : Word) (first : Term) (more : List Term) (same : lineLexemes items =
    upToLexemes before ++ ((Item.group facet first more).lexemes ++ rest)) :
    AsksTerm ((Reading.of (lineOf items)).contextAt
      ((upTo before).length + (Item.group facet first more).text.length)) false := by
  have split : lineLexemes items = (upToLexemes before ++ (opening facet ++ termsLexemes (first :: more))) ++
      (.closeParen, [')']) :: rest := by
    simp [same, Item.lexemes, opening]
  have closed : openAmong (upToLexemes before ++ (opening facet ++ termsLexemes (first :: more)) ++
      [(.closeParen, [')'])]) = none := by
    have balanced := openAmong_balanced before ((Item.group facet first more).balanced (upTo before).length)
    simpa [Item.lexemes, opening] using balanced
  have asked := asksTerm_of_kind split Nat.one_pos (Nat.le_refl _) rfl (by simp) closed (by simp)
  have inner : spell (termsLexemes (first :: more)) = termsText (first :: more) :=
    spell_of_reads (reads_terms (first :: more))
  have length : (spell (upToLexemes before ++ (opening facet ++ termsLexemes (first :: more)))).length + 1 =
      (upTo before).length + (Item.group facet first more).text.length := by
    simp [spell_upTo, opening, inner, Item.text]
    omega
  rw [length] at asked
  exact asked

end

section

variable {c : Context} {facet typed : Text} {flag : Bool} (position : Nat) (line : Line)

theorem AsksValue.located (h : AsksValue c facet typed flag) : AsksValue (c.located position line) facet typed flag :=
  ⟨h.place, h.key, h.facet, h.token, h.group⟩

theorem AsksFacet.located (h : AsksFacet c typed flag) : AsksFacet (c.located position line) typed flag :=
  ⟨h.place, h.token, h.group, h.operator⟩

theorem AsksTerm.located (h : AsksTerm c flag) : AsksTerm (c.located position line) flag :=
  ⟨h.place, h.group, h.operator⟩

end

/-- What the cursors in an item ask for, if `c n` is the context of the cursor behind its first `n`
characters. `follows` tells whether the item comes behind an operator. -/
def Item.Asks (follows : Bool) (c : Nat → Context) (i : Item) : Prop :=
  AsksTerm (c 0) follows ∧
  match i with
  | .term (.word w) => ∀ n, 0 < n → n ≤ w.text.length →
    if defaultFacets.any (Text.lower (w.text.take n)).isPrefixOf then AsksFacet (c n) (w.text.take n) follows
    else AsksTerm (c n) follows
  | .term (.operator o) => ∀ n, 0 < n → n ≤ o.word.length → AsksTerm (c n) true
  | .pair facet value =>
    (∀ n, 0 < n → n ≤ facet.text.length → AsksFacet (c n) (facet.text.take n) follows) ∧
    ∀ n ≤ value.text.length, AsksValue (c (facet.text.length + 1 + n)) facet.text (value.text.take n) false
  | .group facet first more =>
    (∀ n, 0 < n → n ≤ facet.text.length → AsksFacet (c n) (facet.text.take n) follows) ∧
    AsksValue (c (facet.text.length + 1)) facet.text [] false ∧
    (∀ n ≤ (termsText (first :: more)).length, ∃ passed t left k,
      first :: more = passed ++ t :: left ∧ k ≤ t.text.length ∧ n = (termsUpTo passed).length + k ∧
        AsksValue (c (facet.text.length + 2 + n)) facet.text (t.typed k) true) ∧
    AsksTerm (c (i.text.length)) false

/-- What is asked for does not hang on where the line stands in its text. -/
theorem Item.Asks.located {i : Item} {follows : Bool} {c c' : Nat → Context} (h : i.Asks follows c)
    (same : ∀ n ≤ i.text.length, ∃ position line, c' n = (c n).located position line) : i.Asks follows c' := by
  have term {n : Nat} {flag : Bool} (within : n ≤ i.text.length) (asked : AsksTerm (c n) flag) :
      AsksTerm (c' n) flag := by
    obtain ⟨position, line, there⟩ := same n within
    exact there ▸ asked.located position line
  have name {n : Nat} {typed : Text} {flag : Bool} (within : n ≤ i.text.length)
      (asked : AsksFacet (c n) typed flag) : AsksFacet (c' n) typed flag := by
    obtain ⟨position, line, there⟩ := same n within
    exact there ▸ asked.located position line
  have value {n : Nat} {facet typed : Text} {flag : Bool} (within : n ≤ i.text.length)
      (asked : AsksValue (c n) facet typed flag) : AsksValue (c' n) facet typed flag := by
    obtain ⟨position, line, there⟩ := same n within
    exact there ▸ asked.located position line
  refine ⟨term (Nat.zero_le _) h.1, ?_⟩
  cases i with
  | term t =>
    cases t with
    | word w =>
      intro n started within
      have asked := h.2 n started within
      split at asked
      · next begins => rw [if_pos begins]; exact name within asked
      · next other => rw [if_neg other]; exact term within asked
    | operator o => exact fun n started within => term within (h.2 n started within)
  | pair facet v =>
    have length : (Item.pair facet v).text.length = facet.text.length + 1 + v.text.length := by
      simp [Item.text]
      omega
    obtain ⟨-, named, valued⟩ := h
    exact ⟨fun n started within => name (by omega) (named n started within),
      fun n within => value (by omega) (valued n within)⟩
  | group facet first more =>
    have length : (Item.group facet first more).text.length =
        facet.text.length + 2 + (termsText (first :: more)).length + 1 := by
      simp [Item.text]
      omega
    obtain ⟨-, named, colon, inside, closed⟩ := h
    refine ⟨fun n started within => name (by omega) (named n started within), value (by omega) colon, ?_,
      term (Nat.le_refl _) closed⟩
    intro n within
    obtain ⟨passed, t, left, k, among, reached, place, asked⟩ := inside n within
    exact ⟨passed, t, left, k, among, reached, place, value (by omega) asked⟩

/-- The name of a facet is asked for up to its colon. -/
theorem asksFacet_name {items before : List Item} {facet : Word} {rest : List Lexeme} (same : lineLexemes items =
    upToLexemes before ++ (.word, facet.text) :: (.colon, [':']) :: rest) {n : Nat} (started : 0 < n)
    (within : n ≤ facet.text.length) :
    AsksFacet ((Reading.of (lineOf items)).contextAt ((upTo before).length + n)) (facet.text.take n)
      (endsInOperator before) := by
  have asked := contextAt_word same (List.all_eq_true.1 facet.chars) started within
  have unoperated := isOperator_word facet (spell (upToLexemes before)).length
  simpa [focusOn, unoperated, Reading.mayNameFacet, Focus.next?] using asked

/-- What a cursor in an item of a line asks for. -/
theorem asks_contextAt (before : List Item) (item : Item) (after : List Item) :
    item.Asks (endsInOperator before) fun n =>
      (Reading.of (lineOf (before ++ item :: after))).contextAt ((upTo before).length + n) := by
  obtain ⟨rest, same, next⟩ : ∃ rest, lineLexemes (before ++ item :: after) =
      upToLexemes before ++ (item.lexemes ++ rest) ∧ (rest.head?.map Prod.fst) ≠ some .colon := by
    refine ⟨(after.map fun i => space :: i.lexemes).flatten, by rw [lineLexemes_split, List.append_assoc], ?_⟩
    cases after <;> simp [space]
  refine ⟨asksTerm_start before item after, ?_⟩
  cases item with
  | term t =>
    have first : lineLexemes (before ++ .term t :: after) = upToLexemes before ++ (.word, t.text) :: rest := same
    have asked {n : Nat} (started : 0 < n) (within : n ≤ t.text.length) :=
      contextAt_word first (List.all_eq_true.1 t.chars) started within
    cases t with
    | word w =>
      intro n started within
      have unpaired : Reading.mayNameFacet (focusOn (upToLexemes before) (.word, w.text) rest) (w.text.take n) =
          defaultFacets.any (Text.lower (w.text.take n)).isPrefixOf := by
        cases rest with
        | nil => simp [Reading.mayNameFacet, Focus.next?, focusOn]
        | cons l rest =>
          have other : l.1 ≠ .colon := by simpa using next
          simp [Reading.mayNameFacet, Focus.next?, focusOn, other]
      have unoperated := isOperator_word w (spell (upToLexemes before)).length
      have asked := asked started within
      simp only [Term.text, unpaired] at asked
      simpa only [focusOn, unoperated, Bool.not_false, Bool.true_and, Bool.or_false] using asked
    | operator o =>
      intro n started within
      simpa [focusOn, Term.text, isOperator_operator] using asked started within
  | pair facet value =>
    refine ⟨fun n started within => asksFacet_name same started within, fun n within => ?_⟩
    obtain rfl | started := Nat.eq_zero_or_pos n
    · exact asksValue_colon facet same
    · exact asksValue_pair facet same started within
  | group facet first more =>
    refine ⟨fun n started within => asksFacet_name same started within, asksValue_colon facet same, ?_,
      asksTerm_closed facet first more same⟩
    intro n within
    obtain ⟨passed, t, left, k, among, reached, place⟩ := Text.exists_piece Term.text ' ' first more within
    refine ⟨passed, t, left, k, among, reached, place, ?_⟩
    have split : lineLexemes (before ++ .group facet first more :: after) = upToLexemes before ++ (opening facet ++
        (termsUpToLexemes passed ++ t.lexeme :: ((left.map fun t => [space, t.lexeme]).flatten ++
          ((.closeParen, [')']) :: rest)))) := by
      simp [same, Item.lexemes, among, termsLexemes_split, opening]
    rw [place]
    exact asksValue_term facet passed t reached split

/-- At a cursor of a line the whole line is looked at. -/
theorem contextOf_eq (first : Item) (more : List Item) (cursor : Int) :
    let line := lineOf (first :: more)
    contextOf line cursor =
      ((Reading.of line).contextAt (line.clamp cursor)).located (line.clamp cursor) ⟨line, 0⟩ := by
  simp only [contextOf, Text.lineAt_of_inside (inside_lineOf (first :: more)), hasInk_lineOf, if_true, Nat.sub_zero]

/-- What every cursor in a line asks for: it stands in one of the items, and the item tells. -/
theorem contextOf_lineOf (first : Item) (more : List Item) :
    let line := lineOf (first :: more)
    (∀ cursor : Int, ∃ before item after n, first :: more = before ++ item :: after ∧ n ≤ item.text.length ∧
      line.clamp cursor = (upTo before).length + n ∧ contextOf line cursor = contextOf line (line.clamp cursor)) ∧
    ∀ before item after, first :: more = before ++ item :: after →
      item.Asks (endsInOperator before) fun n => contextOf line ((upTo before).length + n : Nat) := by
  intro line
  refine ⟨fun cursor => ?_, fun before item after same => ?_⟩
  · obtain ⟨before, item, after, n, same, within, place⟩ :=
      Text.exists_piece Item.text ' ' first more (line.clamp_le cursor)
    refine ⟨before, item, after, n, same, within, place, ?_⟩
    rw [contextOf_eq, contextOf_eq, line.clamp_of_le (line.clamp_le cursor)]
  · refine (asks_contextAt before item after).located fun n within => ⟨(upTo before).length + n, ⟨line, 0⟩, ?_⟩
    have inside : (upTo before).length + n ≤ (lineOf (first :: more)).length := by
      have length := congrArg List.length (lineOf_split before item after)
      rw [← same, List.length_append, List.length_append] at length
      omega
    rw [contextOf_eq, Text.clamp_of_le _ inside, ← same]

/-- An operator, a facet with a group, and a word that begins the name of a facet. -/
def statusItems : List Item := [
  .term (.operator .not),
  .group ⟨"status".toList, by decide, by decide, by decide⟩ (.word ⟨"ERROR".toList, by decide, by decide, by decide⟩)
    [.operator .or, .word ⟨"WARN".toList, by decide, by decide, by decide⟩],
  .term (.word ⟨"serv".toList, by decide, by decide, by decide⟩)]

theorem contextOf_lineOf_status :
    lineOf statusItems = "NOT status:(ERROR OR WARN) serv".toList ∧
    AsksTerm (contextOf (lineOf statusItems) (2 : Nat)) true ∧
    AsksFacet (contextOf (lineOf statusItems) (7 : Nat)) "sta".toList true ∧
    AsksValue (contextOf (lineOf statusItems) (11 : Nat)) "status".toList [] false ∧
    AsksTerm (contextOf (lineOf statusItems) (26 : Nat)) false ∧
    AsksFacet (contextOf (lineOf statusItems) (29 : Nat)) "se".toList false := by
  obtain ⟨-, asks⟩ := contextOf_lineOf (.term (.operator .not)) statusItems.tail
  obtain ⟨-, operator⟩ := asks [] _ _ rfl
  obtain ⟨-, name, colon, -, closed⟩ := asks [_] _ [_] rfl
  obtain ⟨-, word⟩ := asks [_, _] _ [] rfl
  have begins := word 2 (by decide) (by decide)
  rw [if_pos (by decide)] at begins
  exact ⟨by decide, operator 2 (by decide) (by decide), name 3 (by decide) (by decide), colon, closed,
    begins⟩

end Typeahead.Logs
