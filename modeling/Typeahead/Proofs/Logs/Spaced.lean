import Typeahead.Logs.Cursor
import Typeahead.Proofs.Token.Boundaries
import Typeahead.Proofs.Token.Escaped

/-!
An operator behind the beginning of a line. With a blank or an opening parenthesis in between it is a word of its own,
if no token of the beginning goes on: no string is left open there, and its last character is not escaped.

- `leavesOpen`, `whole_of_closed`: the beginnings of lines with which no token goes on.
- `Gap`, `tokens_operator`: the tokens of a line with an operator.
- `read_operator`: an operator is found where it was put, and the context behind it follows an operator.
-/

namespace Typeahead

namespace Logs

open Lexer

/-- Whether what comes behind a token at the end of a line goes on with it: behind a backslash, in a string that is
not closed, and behind an escaped blank or parenthesis. -/
def goesOn (t : Token) : Bool :=
  match t.kind with
  | .stray => true
  | .quoted => !isClosedString t.masked
  | .word => t.masked.getLast?.any fun c => isBlank c || c = '('
  | _ => false

/-- Whether a token goes on behind a text. -/
def leavesOpen (head : Text) : Bool := (tokens logsMarks head).getLast?.any goesOn

theorem isClosedString_eq_false {body : Text} (units : Units isBody body) : isClosedString ('"' :: body) = false := by
  by_cases quote : body.getLast? = some '"'
  · have odd : (Text.trailing (· = '\\') body.dropLast).length % 2 = 1 := units.odd_trailing (by decide) quote
    simp [isClosedString, odd]
  · simp [isClosedString, quote]

/-- A quoted string at the end of a line is whole if it is closed. -/
theorem whole_of_isClosedString {t : Text} (inLine : ∀ c ∈ t, c ≠ '\n') (scanned : scan logsMarks t = [(.quoted, t)])
    (closed : isClosedString t = true) : Whole logsMarks (.quoted, t) := by
  cases t with
  | nil => cases closed
  | cons c t =>
    obtain ⟨s, rest, same, -, found, -⟩ := scan_cons_eq_iff.1 scanned
    obtain rfl : t = s := List.tail_eq_of_cons_eq same
    obtain ⟨rfl, length⟩ := quoted_of_first proper_logsMarks found
    have inside : ∀ x ∈ t, x ≠ '\n' := fun x mem => inLine x (List.mem_cons_of_mem _ mem)
    have all : quotedLength (t ++ []) = t.length := by rwa [List.append_nil]
    cases body_of_quotedLength inside all with
    | inl units =>
      rw [isClosedString_eq_false units] at closed
      cases closed
    | inr body =>
      obtain ⟨body, rfl, units⟩ := body
      exact .quoted units

variable {head : Text} {ls : List Lexeme} {l : Lexeme}

/-- The last character of a text is that of its last lexeme, masked. -/
theorem getLast?_spell (scanned : scan logsMarks (Text.mask head) = ls ++ [l]) :
    l.2.getLast? = (Text.mask head).getLast? := by
  have filled : l.2 ≠ [] := scan_ne_nil (scanned ▸ List.mem_append_right ls List.mem_cons_self)
  rw [← spell_scan logsMarks (Text.mask head), scanned, spell_append, spell_cons, spell_nil, List.append_nil,
    List.getLast?_append_of_ne_nil _ filled]

theorem goesOn_of_scan (scanned : scan logsMarks (Text.mask head) = ls ++ [l]) (closed : leavesOpen head = false) :
    ∃ t, t.kind = l.1 ∧ t.masked = l.2 ∧ goesOn t = false := by
  have same := getLast?_tokens logsMarks head
  rw [scanned, List.getLast?_concat] at same
  obtain ⟨t, last, rfl⟩ := Option.map_eq_some_iff.1 same
  rw [leavesOpen, last] at closed
  exact ⟨t, rfl, rfl, closed⟩

section

variable (inLine : ∀ c ∈ head, Text.insideLine c = true) (closed : leavesOpen head = false)

include inLine closed

/-- The last lexeme of a text with which no token goes on is whole, and if it is a word no blank or parenthesis
ends it. -/
theorem whole_of_closed (scanned : scan logsMarks (Text.mask head) = ls ++ [l]) :
    Whole logsMarks l ∧ (l.1 = .word → ∀ c ∈ l.2.getLast?, isBlank c = false ∧ c ≠ '(') := by
  obtain ⟨t, kind, masked, stays⟩ := goesOn_of_scan scanned closed
  have filled : l.2 ≠ [] := scan_ne_nil (scanned ▸ List.mem_append_right ls List.mem_cons_self)
  have own : scan logsMarks l.2 = [l] := by
    have back := scan_back scanned
    rwa [spell_cons, spell_nil, List.append_nil] at back
  by_cases word : l.1 = .word
  · have units : Units (isPlain logsMarks) l.2 := by
      obtain ⟨-, -, units, -, -⟩ := @word_of_scan _ l.2 l.2 [] proper_logsMarks.not_word (by rw [own, ← word])
      exact units
    constructor
    · have whole : Whole logsMarks (.word, l.2) := .word filled units
      rwa [← word] at whole
    · intro _ d last
      simp only [goesOn, kind, word, masked, Option.mem_def.1 last] at stays
      simpa using stays
  · constructor
    · by_cases quoted : l.1 = .quoted
      · simp only [goesOn, kind, quoted, masked, Bool.not_eq_false'] at stays
        have whole : Whole logsMarks (.quoted, l.2) := by
          apply whole_of_isClosedString _ _ stays
          · intro x mem
            apply Text.mask_inLine inLine x
            rw [← spell_scan logsMarks (Text.mask head), scanned, spell_append, spell_cons]
            exact List.mem_append_right _ (List.mem_append_left _ mem)
          · rw [own, ← quoted]
        rwa [← quoted] at whole
      by_cases stray : l.1 = .stray
      · rw [goesOn, kind, stray] at stays
        cases stays
      · exact .ended (ended_of_scan scanned ⟨word, quoted, stray⟩)
    · intro own
      exact absurd own word

end

/-- A character after which no blank is put in front of an operator. -/
def isGap (c : Char) : Bool := isBlank c || c = '('

theorem unnamed_of_isGap {c : Char} (gap : isGap c = true) :
    Text.isNameChar c = false ∧ (c ≠ '$' ∧ c ≠ '[') ∧ c ≠ '}' ∧ c ≠ ']' := by
  refine ⟨?_, ⟨?_, ?_⟩, ?_, ?_⟩
  · by_contra named
    simp only [Text.isNameChar, Bool.not_eq_false, Bool.or_eq_true, decide_eq_true_eq] at named
    rcases named with alphanumeric | rfl
    · rw [isGap, inked_of_isAlphanum alphanumeric, Bool.false_or, decide_eq_true_eq] at gap
      rw [gap] at alphanumeric
      cases alphanumeric
    · revert gap
      decide
  all_goals
    rintro rfl
    revert gap
    decide

/-- No placeholder covers a blank or an opening parenthesis at the end of a text. -/
theorem getLast?_mask {c : Char} (last : head.getLast? = some c) (gap : isGap c = true) :
    (Text.mask head).getLast? = some c := by
  obtain ⟨front, rfl⟩ := List.getLast?_eq_some_iff.1 last
  obtain ⟨unnamed, plain, unclosed⟩ := unnamed_of_isGap gap
  have seam : Text.mask (front ++ ([c] ++ [])) = Text.mask front ++ Text.mask ([c] ++ []) :=
    Text.mask_append_word (.inr (by simpa using unnamed)) (by simp) (by simpa using unclosed) (by simp)
  rw [List.append_nil, Text.mask_of_plain (t := [c]) (by simpa using plain)] at seam
  rw [seam, List.getLast?_concat]

/-- A blank at the beginning of a text is not masked. -/
theorem mask_blank_cons {c : Char} (blank : isBlank c = true) (t : Text) : Text.mask (c :: t) = c :: Text.mask t := by
  have plain := (unnamed_of_isGap (c := c) (by simp [isGap, blank])).2.1
  exact Text.mask_plain_append (List.forall_mem_singleton.2 plain) t

/-- What is put between the beginning of a line and an operator: nothing behind a blank or an opening parenthesis and
where the line begins, and else a blank. -/
inductive Gap (head : Text) : Text → List Lexeme → Prop
  | none (ends : ∀ c ∈ head.getLast?, isGap c = true) : Gap head [] []
  | blank {c : Char} (last : head.getLast? = some c) (inked : isGap c = false) : Gap head [' '] [(.blank, [' '])]

theorem plain_word (o : Operator) : ∀ c ∈ o.word, isPlain logsMarks c = true ∧ isBlank c = false ∧
    (c ≠ '$' ∧ c ≠ '[') ∧ c ≠ '}' ∧ c ≠ ']' := by
  have all : o.word.all (fun c => isPlain logsMarks c && !isBlank c && (c != '$' && c != '[') && c != '}' && c != ']') =
      true := by cases o <;> decide
  intro c mem
  simpa [and_assoc] using List.all_eq_true.1 all c mem

theorem word_ne_nil (o : Operator) : o.word ≠ [] := by
  cases o <;> decide

section

variable (o : Operator) {gap rest : Text} {gaps : List Lexeme} (space : Gap head gap gaps)

include space

theorem Gap.spell_eq : spell gaps = gap := by
  cases space <;> rfl

/-- An operator is masked by itself, with the gap in front of it. -/
theorem mask_operator (blank : ∀ c ∈ rest.head?, isBlank c = true) :
    Text.mask (head ++ (gap ++ (o.word ++ rest))) = Text.mask head ++ (gap ++ (o.word ++ Text.mask rest)) := by
  have plain : ∀ c ∈ o.word, c ≠ '$' ∧ c ≠ '[' := fun c mem => (plain_word o c mem).2.2.1
  cases space with
  | none ends =>
    rw [List.nil_append, List.nil_append, ← Text.mask_plain_append plain]
    apply Text.mask_append_word _ (word_ne_nil o) _ fun c first => .inl (blank c first)
    · apply Or.inl
      intro c last
      obtain ⟨unnamed, plain, -⟩ := unnamed_of_isGap (ends c last)
      exact ⟨unnamed, plain.1⟩
    · intro c mem
      exact (plain_word o c mem).2.2.2
  | blank =>
    have spaced : ∀ c ∈ ' ' :: o.word, c ≠ '$' ∧ c ≠ '[' := List.forall_mem_cons.2 ⟨by decide, plain⟩
    have own := Text.mask_plain_append spaced rest
    rw [Text.mask_append_blank (by simp; decide)]
    exact congrArg (Text.mask head ++ ·) own

variable (inLine : ∀ c ∈ head, Text.insideLine c = true) (closed : leavesOpen head = false)

include inLine closed

/-- Neither the gap nor the operator goes on the last lexeme in front of them. -/
theorem apart_operator (scanned : scan logsMarks (Text.mask head) = ls ++ [l]) :
    Apart logsMarks l (gap ++ (o.word ++ rest)) := by
  obtain ⟨whole, kept⟩ := whole_of_closed inLine closed scanned
  have last := getLast?_spell scanned
  obtain ⟨d, own⟩ : ∃ d, l.2.getLast? = some d := ⟨_, List.getLast?_eq_some_getLast whole.ne_nil⟩
  rw [own] at last
  obtain ⟨c, word, begins⟩ := List.exists_cons_of_ne_nil (word_ne_nil o)
  have letter := plain_word o c (begins ▸ List.mem_cons_self)
  cases space with
  | none ends =>
    constructor
    · intro _ e first
      obtain rfl : c = e := by simpa [begins] using first
      exact letter.2.1
    · intro word
      cases filled : head.getLast? with
      | none =>
        rw [List.getLast?_eq_none_iff.1 filled] at last
        cases last
      | some e =>
        have gap := ends e filled
        rw [getLast?_mask filled gap] at last
        obtain ⟨inked, other⟩ := kept word e (Option.mem_def.2 (own.trans last))
        simp [isGap, inked, other] at gap
  | @blank e ends inked =>
    constructor
    · intro run
      have ink : isBlank d = false := by
        apply Text.inked_getLast?_mask _ d last.symm
        intro x among
        obtain rfl : e = x := Option.some.inj (ends.symm.trans among)
        exact (Bool.or_eq_false_iff.1 inked).1
      rw [whole.blank_of_mem proper_logsMarks run d (List.mem_of_getLast? own)] at ink
      cases ink
    · intro _
      exact .cons (by decide) (by decide) _

/-- Behind the beginning of a line with which no token goes on an operator is a word of its own. -/
theorem scan_operator (blank : ∀ c ∈ rest.head?, isBlank c = true) :
    scan logsMarks (Text.mask (head ++ (gap ++ (o.word ++ rest)))) =
      scan logsMarks (Text.mask head) ++ gaps ++ (.word, o.word) :: scan logsMarks (Text.mask rest) := by
  have stops : Stops logsMarks (Text.mask rest) := by
    cases rest with
    | nil => exact .nil
    | cons c rest =>
      have held := blank c rfl
      rw [mask_blank_cons held]
      apply Stops.cons (by simp [isPlain, held])
      rintro rfl
      cases held
  have own : scan logsMarks (o.word ++ Text.mask rest) = (.word, o.word) :: scan logsMarks (Text.mask rest) :=
    Reads.word (word_ne_nil o) (fun c mem => (plain_word o c mem).1) _ stops
  have spaced : scan logsMarks (gap ++ (o.word ++ Text.mask rest)) =
      gaps ++ (.word, o.word) :: scan logsMarks (Text.mask rest) := by
    cases space with
    | none => exact own
    | blank =>
      have run : Ended logsMarks (.blank, [' ']) := .blanks (by simp) (List.forall_mem_singleton.2 rfl)
      rw [run.scan, own]
      · rfl
      · intro c first
        rw [List.head?_append_of_ne_nil _ (word_ne_nil o)] at first
        exact (plain_word o c (List.mem_of_mem_head? first)).2.1
  rw [mask_operator o space blank]
  cases List.eq_nil_or_concat' (scan logsMarks (Text.mask head)) with
  | inl empty =>
    have none : Text.mask head = [] := by rw [← spell_scan logsMarks (Text.mask head), empty, spell_nil]
    rw [empty, none, List.nil_append, spaced, List.nil_append]
  | inr filled =>
    obtain ⟨ls, l, scanned⟩ := filled
    have shown : spell (ls ++ [l]) = Text.mask head := by rw [← scanned, spell_scan]
    have cut : scan logsMarks (spell (ls ++ [l]) ++ (gap ++ (o.word ++ Text.mask rest))) =
        ls ++ [l] ++ scan logsMarks (gap ++ (o.word ++ Text.mask rest)) := by
      apply scan_append proper_logsMarks
      · rw [shown]
        exact Text.mask_inLine inLine
      · exact shown.symm ▸ scanned
      · exact (whole_of_closed inLine closed scanned).1
      · exact apart_operator o space inLine closed scanned
    rw [shown, spaced] at cut
    rw [cut, scanned, List.append_assoc (ls ++ [l])]

/-- In front of an operator there is no colon. -/
theorem colonless_of_gap : ∀ l ∈ (scan logsMarks (Text.mask head) ++ gaps).getLast?, l.1 ≠ .colon := by
  intro l last colon
  cases space with
  | blank =>
    rw [List.getLast?_concat] at last
    obtain rfl := Option.some.inj last
    cases colon
  | none ends =>
    rw [List.append_nil] at last
    obtain ⟨ls, scanned⟩ := List.getLast?_eq_some_iff.1 last
    obtain ⟨whole, -⟩ := whole_of_closed inLine closed scanned
    have own := getLast?_spell scanned
    cases filled : head.getLast? with
    | none =>
      rw [List.getLast?_eq_none_iff.1 filled] at own
      exact whole.ne_nil (List.getLast?_eq_none_iff.1 own)
    | some c =>
      have gap := ends c filled
      rw [getLast?_mask filled gap] at own
      cases whole with
      | word => cases colon
      | quoted => cases colon
      | ended ended =>
        cases ended with
        | blanks => cases colon
        | @mark d kind inked marked =>
          obtain rfl : kind = .colon := colon
          obtain rfl : d = c := by simpa using own
          unfold logsMarks at marked
          split at marked
          · cases marked
          · cases marked
          · revert gap
            decide
          · cases marked

/-- The token of an operator that is put into a line. -/
def operatorToken (o : Operator) (start : Nat) : Token := ⟨.word, start, o.word, o.word⟩

omit space inLine closed in
theorem isOperator_operatorToken (start : Nat) : isOperator (operatorToken o start) = true := by
  cases o <;> rfl

/-- The tokens of a line with an operator: those in front of it, the last of which is no colon, and those behind it. -/
theorem tokens_operator (blank : ∀ c ∈ rest.head?, isBlank c = true) : ∃ front,
    tokens logsMarks (head ++ (gap ++ (o.word ++ rest))) = front ++ operatorToken o (head ++ gap).length ::
      place (head ++ gap ++ o.word).length rest (scan logsMarks (Text.mask rest)) ∧
    ∀ t ∈ front.getLast?, t.kind ≠ .colon := by
  have length : (spell (scan logsMarks (Text.mask head) ++ gaps)).length = (head ++ gap).length := by
    rw [spell_append, spell_scan, space.spell_eq, List.length_append, Text.length_mask, List.length_append]
  have behind : (head ++ (gap ++ (o.word ++ rest))).drop (head ++ gap).length = o.word ++ rest := by
    rw [← List.append_assoc, List.drop_left]
  refine ⟨place 0 (head ++ (gap ++ (o.word ++ rest))) (scan logsMarks (Text.mask head) ++ gaps), ?_, ?_⟩
  · rw [tokens, scan_operator o space inLine closed blank, place_append, length, behind, place, List.take_left,
      List.drop_left, Nat.zero_add, ← List.length_append]
    rfl
  · intro t last
    have kinds := congrArg List.getLast? (lexemes_place 0 (head ++ (gap ++ (o.word ++ rest)))
      (scan logsMarks (Text.mask head) ++ gaps))
    rw [List.getLast?_map, Option.mem_def.1 last] at kinds
    exact colonless_of_gap space inLine closed (t.kind, t.masked) kinds.symm

end

/-- Where no colon stands in front of a token it is no value of a facet. -/
theorem facetWord?_of_colonless {front after : List Token} (colonless : ∀ t ∈ front.getLast?, t.kind ≠ .colon)
    (t : Token) : facetWord? ⟨front.reverse, t, after⟩ = none := by
  cases List.eq_nil_or_concat' front with
  | inl empty =>
    subst empty
    rfl
  | inr filled =>
    obtain ⟨front, u, rfl⟩ := filled
    have other := colonless u List.getLast?_concat
    rw [List.reverse_append, List.reverse_singleton, List.singleton_append, facetWord?.eq_def]
    cases front.reverse <;> simp [other]

/-- A run of blanks is the first token of a text that begins with a blank. -/
theorem exists_blanks (start : Nat) (t : Text) : ∃ b more,
    place start (' ' :: t) (scan logsMarks (Text.mask (' ' :: t))) = b :: more ∧
    b.kind = .blank ∧ b.start = start ∧ ∀ u ∈ more, start + 1 ≤ u.start := by
  have kind : (first logsMarks ' ' (Text.mask t)).1 = .blank :=
    congrArg Prod.fst (first_eq_iff.2 (.blank rfl rfl))
  rw [mask_blank_cons rfl, scan_cons]
  refine ⟨_, _, rfl, kind, rfl, ?_⟩
  intro u mem
  have later := (start_of_mem_place mem).1
  rw [List.length_cons] at later
  omega

namespace Reading

theorem termContext_afterOperator (r : Reading) (base : Context) (f : Focus) (position : Nat) :
    (r.termContext base f position).afterOperator = followsOperator f := by
  unfold termContext
  dsimp only
  generalize (if f.token.kind = .word then bareFacet (f.token.written.take (position - f.token.start)) else []) =
    typed
  split <;> rfl

/-- Behind an operator the context tells so, unless it is in the parentheses of a facet. -/
theorem afterOperator_iff {r : Reading} {position : Nat} {f : Focus} (found : focusBefore? r.tokens position = some f)
    (follows : followsOperator f = true)
    (outside : f.token.kind = .blank ∨ f.token.kind = .word ∧ facetWord? f = none) :
    (r.contextAt position).afterOperator = true ↔ (r.openGroup? position).bind facetWord? = none := by
  have slotless (typed : Text) : slot? f typed = none := by
    cases outside with
    | inl blank => simp [slot?, blank]
    | inr word => simp [slot?, word.1, word.2]
  have unquoted : f.token.kind ≠ .quoted := by
    cases outside with
    | inl blank => simp [blank]
    | inr word => simp [word.1]
  unfold contextAt
  simp only [found, slotless, if_neg unquoted]
  cases (r.openGroup? position).bind facetWord? with
  | some name => simp [valueContext]
  | none => simp [termContext_afterOperator, follows]

end Reading

/-- What stands behind an operator stands behind its last letter. -/
theorem trimRight_operator (front : Text) (o : Operator) {behind : Text} (blank : ∀ c ∈ behind, isBlank c = true) :
    Text.trimRight isBlank (front ++ o.word ++ behind) = front ++ o.word := by
  have run : Text.trailing isBlank (front ++ o.word ++ behind) = behind := by
    apply Text.trailing_append blank
    intro c last
    rw [List.getLast?_append_of_ne_nil _ (word_ne_nil o)] at last
    exact (plain_word o c (List.mem_of_getLast? last)).2.1
  have parts := Text.trimRight_append_trailing isBlank (front ++ o.word ++ behind)
  rw [run] at parts
  exact List.append_cancel_right parts

section

variable (o : Operator) {gap rest behind : Text} {gaps : List Lexeme} (space : Gap head gap gaps)
  (inLine : ∀ c ∈ head, Text.insideLine c = true) (closed : leavesOpen head = false)
  (spaced : behind = [] ∨ behind = [' ']) (blank : ∀ c ∈ (behind ++ rest).head?, isBlank c = true)

include space inLine closed spaced blank

/-- Just behind an operator, or behind the blank that follows it, the token in front of the cursor is the operator or
follows it. -/
theorem exists_focus_operator : ∃ f, focusBefore? (tokens logsMarks (head ++ (gap ++ (o.word ++ (behind ++ rest)))))
    (head ++ gap ++ o.word ++ behind).length = some f ∧ Reading.followsOperator f = true ∧
      (f.token.kind = .blank ∨ f.token.kind = .word ∧ facetWord? f = none) := by
  obtain ⟨front, same, colonless⟩ := tokens_operator o space inLine closed blank
  rw [same]
  cases spaced with
  | inl empty =>
    subst empty
    refine ⟨_, focusBefore?_append ?_ ?_, ?_, .inr ⟨rfl, ?_⟩⟩
    · have split : (head ++ gap ++ o.word).length = (head ++ gap).length + o.word.length := List.length_append
      rw [List.append_nil, split]
      exact Nat.lt_add_of_pos_right (List.length_pos_of_ne_nil (word_ne_nil o))
    · intro u mem
      have later := (start_of_mem_place mem).1
      rwa [List.append_nil]
    · simp only [Reading.followsOperator, isOperator_operatorToken, Bool.or_true]
      rfl
    · exact facetWord?_of_colonless colonless ..
  | inr one =>
    subst one
    obtain ⟨b, more, shown, kind, start, later⟩ := exists_blanks (head ++ gap ++ o.word).length rest
    rw [List.singleton_append, shown, List.append_cons]
    refine ⟨_, focusBefore?_append ?_ ?_, ?_, .inl kind⟩
    · simp [start]
    · intro u mem
      simpa [Nat.add_assoc] using later u mem
    · have operator := isOperator_operatorToken o (head ++ gap).length
      simp only [Reading.followsOperator, kind, Focus.preceding?, List.reverse_append, List.reverse_singleton,
        List.singleton_append]
      exact operator

/-- An operator behind the beginning of a line with which no token goes on: it is a token, which ends where the line
up to the cursor ends but for a blank, and the context there follows an operator. -/
theorem read_operator :
    let line := head ++ (gap ++ (o.word ++ (behind ++ rest)))
    let position := (head ++ gap ++ o.word ++ behind).length
    (∃ t ∈ (Reading.of line).tokens, isOperator t = true ∧ t.written = o.word ∧
      t.stop = (Text.trimRight isBlank (line.take position)).length) ∧
    (((Reading.of line).contextAt position).afterOperator = true ↔
      ((Reading.of line).openGroup? position).bind facetWord? = none) := by
  intro line position
  constructor
  · obtain ⟨front, same, -⟩ := tokens_operator o space inLine closed blank
    have among : operatorToken o (head ++ gap).length ∈ (Reading.of line).tokens := by
      change _ ∈ tokens logsMarks line
      rw [same]
      exact List.mem_append_right _ List.mem_cons_self
    have typed : line.take position = head ++ gap ++ o.word ++ behind := by
      have parts : line = head ++ gap ++ o.word ++ behind ++ rest := by simp [line]
      rw [parts, List.take_left]
    have blanks : ∀ c ∈ behind, isBlank c = true := List.all_eq_true.1 (by rcases spaced with rfl | rfl <;> rfl)
    refine ⟨_, among, isOperator_operatorToken .., rfl, ?_⟩
    rw [typed, trimRight_operator _ o blanks]
    exact List.length_append.symm
  · obtain ⟨f, found, follows, outside⟩ := exists_focus_operator o space inLine closed spaced blank
    exact Reading.afterOperator_iff found follows outside

end

end Logs

end Typeahead
