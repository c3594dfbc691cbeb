import Typeahead.Proofs.Text.Lines
import Typeahead.Token

/-!
Lines that are written lexeme by lexeme, and their tokens. A text reads as some lexemes if it is cut into
them whatever stands behind it, as long as no word goes on there; so what is true of the pieces of a line
is true of the line.

- `first_eq_iff`, `scan_cons_eq_iff`: the lexeme that begins a text, by the tests that it passes.
- `Reads.append`, `Reads.mark`, `Reads.blank`, `Reads.word`: how lines are put together.
- `tokens_of_reads`: the tokens of a line that is written so.
- `mem_lay`: a token and its place.
- `focusesFrom_append`: tokens of two pieces, seen with their neighbours.
-/

namespace Typeahead

/-- A kind of token and the characters of one. -/
abbrev Lexeme := TokenKind × Text

/-- A text of units: a character of the class, or a backslash with the character behind it. -/
inductive Units (single : Char → Bool) : Text → Prop
  | nil : Units single []
  | one {c : Char} {t : Text} (fits : single c = true) (unescaped : c ≠ '\\') (rest : Units single t) :
    Units single (c :: t)
  | pair {c : Char} {t : Text} (inLine : c ≠ '\n') (rest : Units single t) : Units single ('\\' :: c :: t)

namespace Units

variable {single : Char → Bool} {t t' : Text}

theorem of_forall (h : ∀ c ∈ t, single c = true ∧ c ≠ '\\') : Units single t := by
  induction t with
  | nil => exact .nil
  | cons c t ih =>
    obtain ⟨⟨fits, unescaped⟩, later⟩ := List.forall_mem_cons.1 h
    exact .one fits unescaped (ih later)

theorem append (h : Units single t) (h' : Units single t') : Units single (t ++ t') := by
  induction h with
  | nil => exact h'
  | one fits unescaped _ ih => exact .one fits unescaped ih
  | pair inLine _ ih => exact .pair inLine ih

theorem mono {wider : Char → Bool} (within : ∀ c, single c = true → wider c = true) (h : Units single t) :
    Units wider t := by
  induction h with
  | nil => exact .nil
  | one fits unescaped _ ih => exact .one (within _ fits) unescaped ih
  | pair inLine _ ih => exact .pair inLine ih

end Units

namespace Lexer

/-- The characters of lexemes, one after the other. -/
def spell (ls : List Lexeme) : Text := (ls.map (·.2)).flatten

/-- The tokens of lexemes, the first one at `start`, where nothing is masked. -/
def lay (start : Nat) : List Lexeme → List Token
  | [] => []
  | (kind, t) :: more => { kind, start, written := t, masked := t } :: lay (start + t.length) more

/-- What the first token of `c :: rest` is, by the tests that it passes; `n` more characters belong to it. -/
inductive First (marks : Marks) (c : Char) (rest : Text) (n : Nat) : TokenKind → Prop
  | blank (blank : isBlank c = true) (length : (rest.takeWhile isBlank).length = n) : First marks c rest n .blank
  | mark {kind : TokenKind} (inked : isBlank c = false) (marked : marks c = some kind) (alone : n = 0) :
    First marks c rest n kind
  | quoted (inked : isBlank c = false) (unmarked : marks c = none) (quote : c = '"')
    (length : quotedLength rest = n) : First marks c rest n .quoted
  | word (inked : isBlank c = false) (unmarked : marks c = none) (unquoted : c ≠ '"')
    (length : wordLength marks (c :: rest) = n + 1) : First marks c rest n .word
  | stray (inked : isBlank c = false) (unmarked : marks c = none) (unquoted : c ≠ '"')
    (none : wordLength marks (c :: rest) = 0) (alone : n = 0) : First marks c rest n .stray

/-- No word goes on with the text. -/
def Stops (marks : Marks) (t : Text) : Prop := ∀ c ∈ t.head?, isPlain marks c = false ∧ c ≠ '\\'

/-- The text is cut into these lexemes, if no word goes on behind it. -/
def Reads (marks : Marks) (t : Text) (ls : List Lexeme) : Prop :=
  ∀ rest, Stops marks rest → scan marks (t ++ rest) = ls ++ scan marks rest

section

variable {marks : Marks} {c : Char} {t t' : Text} {ls ls' : List Lexeme} {n : Nat}

theorem first_eq_iff {kind : TokenKind} : first marks c t = (kind, n) ↔ First marks c t n kind := by
  constructor
  · intro h
    unfold first at h
    split at h
    · next blank =>
      cases h
      exact .blank blank rfl
    · next inked =>
      have inked : isBlank c = false := by simpa using inked
      split at h
      · next marked =>
        cases h
        exact .mark inked marked rfl
      · next unmarked =>
        split at h
        · next quote =>
          cases h
          exact .quoted inked unmarked quote rfl
        · next unquoted =>
          split at h
          · next length =>
            cases h
            exact .word inked unmarked unquoted length
          · next none =>
            cases h
            exact .stray inked unmarked unquoted none rfl
  · intro h
    cases h with
    | blank blank length => simp [first, blank, length]
    | mark inked marked alone => simp [first, inked, marked, alone]
    | quoted inked unmarked quote length =>
      subst quote
      simp [first, inked, unmarked, length]
    | word inked unmarked unquoted length => simp [first, inked, unmarked, unquoted, length]
    | stray inked unmarked unquoted none alone => simp [first, inked, unmarked, unquoted, none, alone]

theorem wordLength_le (marks : Marks) (t : Text) : wordLength marks t ≤ t.length := by
  fun_induction wordLength marks t <;> simp <;> omega

theorem quotedLength_le (t : Text) : quotedLength t ≤ t.length := by
  fun_induction quotedLength t <;> simp <;> omega

theorem first_le (marks : Marks) (c : Char) (rest : Text) : (first marks c rest).2 ≤ rest.length := by
  have whole := wordLength_le marks (c :: rest)
  cases found : first marks c rest with
  | mk kind n =>
    cases first_eq_iff.1 found with
    | blank _ length => exact length ▸ (List.takeWhile_prefix _).length_le
    | mark _ _ alone | stray _ _ _ _ alone => exact alone ▸ Nat.zero_le _
    | quoted _ _ _ length => exact length ▸ quotedLength_le rest
    | word _ _ _ length =>
      rw [length, List.length_cons] at whole
      exact Nat.le_of_succ_le_succ whole

theorem scan_cons (marks : Marks) (c : Char) (t : Text) : scan marks (c :: t) =
    ((first marks c t).1, c :: t.take (first marks c t).2) :: scan marks (t.drop (first marks c t).2) := by
  rw [scan]

/-- The lexeme that begins a text, and the lexemes behind it. -/
theorem scan_cons_eq_iff {l : Lexeme} : scan marks (c :: t) = l :: ls ↔
    ∃ s rest, l.2 = c :: s ∧ t = s ++ rest ∧ first marks c t = (l.1, s.length) ∧ scan marks rest = ls := by
  have within := first_le marks c t
  rw [scan_cons]
  constructor
  · intro same
    obtain ⟨rfl, rfl⟩ := List.cons.inj same
    refine ⟨t.take (first marks c t).2, t.drop (first marks c t).2, rfl, (List.take_append_drop ..).symm, ?_, rfl⟩
    rw [List.length_take, Nat.min_eq_left within]
  · rintro ⟨s, rest, same, rfl, found, rfl⟩
    rw [found, List.take_left, List.drop_left, ← same]

@[simp] theorem spell_nil : spell [] = [] := rfl

@[simp] theorem spell_cons (l : Lexeme) (ls : List Lexeme) : spell (l :: ls) = l.2 ++ spell ls := rfl

@[simp] theorem spell_append (ls ls' : List Lexeme) : spell (ls ++ ls') = spell ls ++ spell ls' := by
  simp [spell]

theorem spell_scan (marks : Marks) (t : Text) : spell (scan marks t) = t := flatten_scan marks t

theorem Stops.nil : Stops marks [] := fun c mem => by simp at mem

theorem Stops.cons {c : Char} (stops : isPlain marks c = false) (unescaped : c ≠ '\\') (t : Text) :
    Stops marks (c :: t) := by
  intro d mem
  obtain rfl : c = d := Option.some.inj mem
  exact ⟨stops, unescaped⟩

theorem Stops.append (h : Stops marks t) (h' : Stops marks t') : Stops marks (t ++ t') := by
  cases t with
  | nil => exact h'
  | cons c rest => exact h

theorem Reads.nil : Reads marks [] [] := fun _ _ => rfl

theorem Reads.append (h : Reads marks t ls) (h' : Reads marks t' ls') (stops : Stops marks t') :
    Reads marks (t ++ t') (ls ++ ls') := by
  intro rest stopsThere
  rw [List.append_assoc, h _ (stops.append stopsThere), h' rest stopsThere, List.append_assoc]

/-- A mark is a lexeme whatever follows it. -/
theorem Reads.mark {c : Char} {kind : TokenKind} (marked : marks c = some kind)
    (inked : isBlank c = false) (h : Reads marks t ls) : Reads marks (c :: t) ((kind, [c]) :: ls) := by
  intro rest stops
  exact scan_cons_eq_iff.2 ⟨[], t ++ rest, rfl, rfl, first_eq_iff.2 (.mark inked marked rfl), h rest stops⟩

/-- A single blank is a lexeme if no other one follows it. -/
theorem Reads.blank {b c : Char} (blank : isBlank b = true) (inked : isBlank c = false)
    (h : Reads marks (c :: t) ls) : Reads marks (b :: c :: t) ((.blank, [b]) :: ls) := by
  intro rest stops
  have alone : ((c :: (t ++ rest)).takeWhile isBlank).length = 0 := by simp [inked]
  exact scan_cons_eq_iff.2 ⟨[], c :: (t ++ rest), rfl, rfl, first_eq_iff.2 (.blank blank alone), h rest stops⟩

theorem wordLength_of_plain (fits : isPlain marks c = true) (unescaped : c ≠ '\\') :
    wordLength marks (c :: t) = wordLength marks t + 1 := by
  rw [wordLength.eq_def]
  split
  · next same => cases same
  · next same => exact absurd (List.head_eq_of_cons_eq same) unescaped
  · next same =>
    obtain ⟨rfl, rfl⟩ := List.cons.inj same
    rw [if_pos fits]

theorem wordLength_of_pair (inLine : c ≠ '\n') :
    wordLength marks ('\\' :: c :: t) = wordLength marks t + 2 := by
  rw [wordLength.eq_def]
  split
  · next same => cases same
  · next same =>
    obtain ⟨rfl, rfl⟩ := List.cons.inj (List.tail_eq_of_cons_eq same)
    rw [if_neg inLine]
  · next unpaired same =>
    obtain ⟨rfl, rfl⟩ := List.cons.inj same
    exact (unpaired _ _ rfl rfl).elim

/-- Units of plain characters go on a word. -/
theorem wordLength_append (h : Units (isPlain marks) t) (rest : Text) :
    wordLength marks (t ++ rest) = t.length + wordLength marks rest := by
  induction h with
  | nil => exact (Nat.zero_add _).symm
  | one fits unescaped _ ih =>
    rw [List.cons_append, wordLength_of_plain fits unescaped, ih, List.length_cons]
    omega
  | pair inLine _ ih =>
    rw [List.cons_append, List.cons_append, wordLength_of_pair inLine, ih, List.length_cons, List.length_cons]
    omega

theorem wordLength_of_stops (stops : Stops marks t) : wordLength marks t = 0 := by
  cases t with
  | nil => rfl
  | cons c t =>
    obtain ⟨ends, unescaped⟩ := stops c rfl
    rw [wordLength.eq_def]
    split
    · rfl
    · next same => exact absurd (List.head_eq_of_cons_eq same) unescaped
    · next same =>
      rw [← List.head_eq_of_cons_eq same, ends]
      rfl

/-- Units of plain characters are a word where no word begins behind them. -/
theorem scan_units (unmarked : ∀ c ∈ t.head?, marks c = none) (nonempty : t ≠ []) (h : Units (isPlain marks) t)
    {rest : Text} (ended : wordLength marks rest = 0) : scan marks (t ++ rest) = (.word, t) :: scan marks rest := by
  cases t with
  | nil => exact absurd rfl nonempty
  | cons c t =>
    have length := wordLength_append h rest
    rw [ended, Nat.add_zero] at length
    have unmarked : marks c = none := unmarked c rfl
    have begins : isBlank c = false ∧ c ≠ '"' := by
      cases h with
      | one fits =>
        simp only [isPlain, Bool.and_eq_true, Bool.not_eq_true', bne_iff_ne] at fits
        exact ⟨fits.1.1.1, fits.1.2⟩
      | pair => exact ⟨by decide, by decide⟩
    have found := first_eq_iff.2 (.word begins.1 unmarked begins.2 length)
    exact scan_cons_eq_iff.2 ⟨t, rest, rfl, rfl, found, rfl⟩

/-- Units of plain characters are a word if no word goes on behind them. -/
theorem Reads.units (unmarked : ∀ c ∈ t.head?, marks c = none) (nonempty : t ≠ [])
    (h : Units (isPlain marks) t) : Reads marks t [(.word, t)] := by
  intro rest stops
  exact scan_units unmarked nonempty h (wordLength_of_stops stops)

/-- A run of plain characters is a word if no word goes on behind it. -/
theorem Reads.word {w : Text} (nonempty : w ≠ []) (plain : ∀ c ∈ w, isPlain marks c = true) :
    Reads marks w [(.word, w)] := by
  refine .units (fun c mem => ?_) nonempty (.of_forall fun c mem => ⟨plain c mem, ?_⟩)
  · have goesOn := plain c (List.mem_of_mem_head? mem)
    simp only [isPlain, Bool.and_eq_true, Option.isNone_iff_eq_none] at goesOn
    exact goesOn.1.1.2
  · rintro rfl
    simpa [isPlain] using plain _ mem

/-- Units of plain characters begin with no mark, as long as the backslash is none. -/
theorem unmarked_of_units (unescaped : marks '\\' = none) (h : Units (isPlain marks) t) :
    ∀ c ∈ t.head?, marks c = none := by
  intro c first
  cases h with
  | nil => cases first
  | one plain =>
    obtain rfl := Option.some.inj first
    simp only [isPlain, Bool.and_eq_true, Option.isNone_iff_eq_none] at plain
    exact plain.1.1.2
  | pair =>
    obtain rfl := Option.some.inj first
    exact unescaped

/-- Units of plain characters and of one mark: a word, and the mark with what follows it. -/
theorem exists_first_word {single : Char → Bool} {mark : Char}
    (fits : ∀ c, single c = true → isPlain marks c = true ∨ c = mark) (h : Units single t) :
    ∃ w rest, t = w ++ rest ∧ Units (isPlain marks) w ∧
      (rest = [] ∨ ∃ more, rest = mark :: more ∧ Units single more) := by
  induction h with
  | nil => exact ⟨[], [], rfl, .nil, .inl rfl⟩
  | @one c t single unescaped units ih =>
    rcases fits c single with plain | rfl
    · obtain ⟨w, rest, rfl, word, ends⟩ := ih
      exact ⟨c :: w, rest, rfl, .one plain unescaped word, ends⟩
    · exact ⟨[], c :: t, rfl, .nil, .inr ⟨t, rfl, units⟩⟩
  | pair inLine _ ih =>
    obtain ⟨w, rest, rfl, word, ends⟩ := ih
    exact ⟨_ :: _ :: w, rest, rfl, .pair inLine word, ends⟩

/-- Units of plain characters and of one mark read as words and marks. -/
theorem exists_reads {single : Char → Bool} {mark : Char} {kind : TokenKind} (marked : marks mark = some kind)
    (inked : isBlank mark = false) (unescaped : marks '\\' = none)
    (fits : ∀ c, single c = true → isPlain marks c = true ∨ c = mark) (h : Units single t) :
    ∃ ls, Reads marks t ls ∧ ∀ l ∈ ls, l.1 = .word ∨ l.1 = kind := by
  induction size : t.length using Nat.strong_induction_on generalizing t with
  | _ size ih =>
    subst size
    have stops (more : Text) : Stops marks (mark :: more) := by
      refine .cons ?_ (fun same => ?_) more
      · simp [isPlain, marked]
      · rw [same, unescaped] at marked
        cases marked
    obtain ⟨w, rest, rfl, word, ends⟩ := exists_first_word fits h
    have first : ∃ ls, Reads marks w ls ∧ ∀ l ∈ ls, l.1 = .word := by
      by_cases empty : w = []
      · exact ⟨[], empty ▸ .nil, by simp⟩
      · exact ⟨[(.word, w)], .units (unmarked_of_units unescaped word) empty word, by simp⟩
    obtain ⟨ls, reads, words⟩ := first
    rcases ends with rfl | ⟨more, rfl, units⟩
    · exact ⟨ls, by simpa using reads, fun l mem => .inl (words l mem)⟩
    · obtain ⟨ls', reads', kinds⟩ := ih more.length (by simp; omega) units rfl
      refine ⟨ls ++ (kind, [mark]) :: ls', reads.append (.mark marked inked reads') (stops more), fun l mem => ?_⟩
      rcases List.mem_append.1 mem with passed | later
      · exact .inl (words l passed)
      · rcases List.mem_cons.1 later with rfl | behind
        · exact .inr rfl
        · exact kinds l behind

theorem scan_of_reads (h : Reads marks t ls) : scan marks t = ls := by
  have cut := h [] .nil
  rwa [List.append_nil, scan, List.append_nil] at cut

theorem spell_of_reads (h : Reads marks t ls) : spell ls = t := scan_of_reads h ▸ spell_scan marks t

theorem place_spell (n : Nat) (ls : List Lexeme) : place n (spell ls) ls = lay n ls := by
  induction ls generalizing n with
  | nil => rfl
  | cons l ls ih => simp [place, lay, ih]

/-- The lexemes in a row have their places in a row. -/
theorem place_append (n : Nat) (line : Text) (ls ls' : List Lexeme) : place n line (ls ++ ls') =
    place n line ls ++ place (n + (spell ls).length) (line.drop (spell ls).length) ls' := by
  induction ls generalizing n line with
  | nil => rfl
  | cons l ls ih => simp [place, ih, Nat.add_assoc]

/-- A token stands where the lexemes before it end, whatever is written there. -/
theorem mem_place {line : Text} {token : Token} (h : token ∈ place n line ls) : ∃ before after,
    ls = before ++ (token.kind, token.masked) :: after ∧ token.start = n + (spell before).length := by
  induction ls generalizing n line with
  | nil => cases h
  | cons l ls ih =>
    rcases List.mem_cons.1 h with rfl | later
    · exact ⟨[], ls, rfl, rfl⟩
    · obtain ⟨before, after, rfl, start⟩ := ih later
      refine ⟨l :: before, after, rfl, ?_⟩
      rw [start, spell_cons, List.length_append, Nat.add_assoc]

/-- What holds of the kinds of lexemes holds of those of their tokens, whatever is written there. -/
theorem kind_of_mem_place {p : TokenKind → Prop} (h : ∀ l ∈ ls, p l.1) {line : Text} {token : Token}
    (mem : token ∈ place n line ls) : p token.kind := by
  obtain ⟨before, after, rfl, -⟩ := mem_place mem
  exact h _ (List.mem_append_right _ List.mem_cons_self)

theorem start_of_mem_place {line : Text} {token : Token} (h : token ∈ place n line ls) :
    n ≤ token.start ∧ token.stop ≤ n + (spell ls).length := by
  obtain ⟨before, after, rfl, start⟩ := mem_place h
  simp only [Token.stop, spell_append, spell_cons, List.length_append]
  omega

/-- A token of lexemes that are not empty starts before their end, whatever is written there. -/
theorem start_lt_of_mem_place (inked : ∀ l ∈ ls, l.2 ≠ []) {line : Text} {token : Token}
    (h : token ∈ place n line ls) : token.start < n + (spell ls).length := by
  obtain ⟨before, after, rfl, start⟩ := mem_place h
  have length : 0 < token.masked.length := List.length_pos_iff.2 (inked (token.kind, token.masked) (by simp))
  simp only [spell_append, spell_cons, List.length_append]
  omega

theorem masked_place (n : Nat) (line : Text) (ls : List Lexeme) :
    ((place n line ls).map (·.masked)).flatten = spell ls := by
  induction ls generalizing n line with
  | nil => rfl
  | cons l ls ih => simp [place, ih]

/-- The tokens that start before a position, and those that do not. -/
theorem place_split (line : Text) (ls : List Lexeme) (n position : Nat) : ∃ xs ys,
    place n line ls = xs ++ ys ∧ (∀ t ∈ xs, t.start < position) ∧ ∀ t ∈ ys, position ≤ t.start := by
  induction ls generalizing n line with
  | nil => exact ⟨[], [], rfl, by simp, by simp⟩
  | cons l ls ih =>
    by_cases first : n < position
    · obtain ⟨xs, ys, same, before, beyond⟩ := ih (line.drop l.2.length) (n + l.2.length)
      refine ⟨_ :: xs, ys, by rw [place, same]; rfl, ?_, beyond⟩
      exact List.forall_mem_cons.2 ⟨first, before⟩
    · refine ⟨[], place n line (l :: ls), rfl, by simp, fun t mem => ?_⟩
      have := (start_of_mem_place mem).1
      omega

/-- The tokens of a line that reads as some lexemes. -/
theorem tokens_of_reads (unmasked : Text.mask t = t) (h : Reads marks t ls) :
    tokens marks t = lay 0 ls := by
  rw [tokens, unmasked, scan_of_reads h, ← spell_of_reads h, place_spell]

@[simp] theorem lay_nil (n : Nat) : lay n [] = [] := rfl

@[simp] theorem lay_cons (n : Nat) (l : Lexeme) (ls : List Lexeme) : lay n (l :: ls) =
    { kind := l.1, start := n, written := l.2, masked := l.2 } :: lay (n + l.2.length) ls := rfl

@[simp] theorem lay_append (n : Nat) (ls ls' : List Lexeme) :
    lay n (ls ++ ls') = lay n ls ++ lay (n + (spell ls).length) ls' := by
  induction ls generalizing n with
  | nil => simp
  | cons l ls ih => simp [lay, ih, Nat.add_assoc]

/-- A token stands where the lexemes before it end. -/
theorem mem_lay {token : Token} (h : token ∈ lay n ls) : ∃ before after,
    ls = before ++ (token.kind, token.written) :: after ∧ token.start = n + (spell before).length ∧
      token.masked = token.written := by
  induction ls generalizing n with
  | nil => cases h
  | cons l ls ih =>
    rcases List.mem_cons.1 h with rfl | later
    · exact ⟨[], ls, rfl, rfl, rfl⟩
    · obtain ⟨before, after, rfl, start, same⟩ := ih later
      refine ⟨l :: before, after, rfl, ?_, same⟩
      rw [start, spell_cons, List.length_append, Nat.add_assoc]

/-- What holds of the kinds of lexemes holds of those of their tokens. -/
theorem kind_of_mem_lay {p : TokenKind → Prop} (h : ∀ l ∈ ls, p l.1) {token : Token}
    (mem : token ∈ lay n ls) : p token.kind := by
  obtain ⟨before, after, rfl, -⟩ := mem_lay mem
  exact h _ (List.mem_append_right _ List.mem_cons_self)

/-- A token of lexemes that are not empty starts before their end. -/
theorem start_lt_of_mem_lay (inked : ∀ l ∈ ls, l.2 ≠ []) {token : Token} (h : token ∈ lay n ls) :
    token.start < n + (spell ls).length := by
  obtain ⟨before, after, rfl, start, -⟩ := mem_lay h
  have length : 0 < token.written.length := List.length_pos_iff.2 (inked (token.kind, token.written) (by simp))
  simp only [spell_append, spell_cons, List.length_append]
  omega

theorem start_le_of_mem_lay {token : Token} (h : token ∈ lay n ls) :
    n ≤ token.start ∧ token.stop ≤ n + (spell ls).length := by
  obtain ⟨before, after, rfl, start, same⟩ := mem_lay h
  have stop : token.stop = token.start + token.written.length := by rw [Token.stop, same]
  simp only [spell_append, spell_cons, List.length_append]
  omega

end

end Lexer

namespace Focus

/-- A token with more tokens behind it. -/
def followedBy (more : List Token) (f : Focus) : Focus := { f with after := f.after ++ more }

end Focus

theorem focusesFrom_append (before xs ys : List Token) :
    focusesFrom before (xs ++ ys) =
      (focusesFrom before xs).map (·.followedBy ys) ++ focusesFrom (xs.reverse ++ before) ys := by
  induction xs generalizing before with
  | nil => rfl
  | cons x xs ih => simp [focusesFrom, Focus.followedBy, ih]

theorem mem_focusesFrom {before ts : List Token} {f : Focus} (h : f ∈ focusesFrom before ts) :
    ∃ passed, ts = passed ++ f.token :: f.after ∧ f.before = passed.reverse ++ before := by
  induction ts generalizing before with
  | nil => cases h
  | cons t ts ih =>
    rcases List.mem_cons.1 h with rfl | later
    · exact ⟨[], rfl, rfl⟩
    · obtain ⟨passed, rfl, same⟩ := ih later
      exact ⟨t :: passed, rfl, by simp [same]⟩

/-- Those behind a focus are the tokens behind it, with their neighbours. -/
theorem focusesFrom_eq_append {before ts : List Token} {f : Focus} {passed later : List Focus}
    (same : focusesFrom before ts = passed ++ f :: later) : later = focusesFrom (f.token :: f.before) f.after := by
  induction ts generalizing before passed with
  | nil => cases passed <;> cases same
  | cons t ts ih =>
    cases passed with
    | nil =>
      obtain ⟨rfl, rfl⟩ := List.cons.inj same
      rfl
    | cons g passed => exact ih (List.cons.inj same).2

theorem token_mem_of_mem_focusesFrom {before ts : List Token} {f : Focus} (h : f ∈ focusesFrom before ts) :
    f.token ∈ ts := by
  obtain ⟨passed, same, -⟩ := mem_focusesFrom h
  exact same ▸ List.mem_append_right _ List.mem_cons_self

/-- The tokens before a position, if the others start there or later. -/
theorem focuses_filter {us vs : List Token} {position : Nat} (before : ∀ t ∈ us, t.start < position)
    (beyond : ∀ t ∈ vs, position ≤ t.start) :
    ((focuses (us ++ vs)).filter fun f => f.token.start < position) =
      (focuses us).map (·.followedBy vs) := by
  have kept : ((focusesFrom [] us).map (·.followedBy vs)).filter (fun f => f.token.start < position) =
      (focusesFrom [] us).map (·.followedBy vs) := by
    refine List.filter_eq_self.2 fun f mem => ?_
    obtain ⟨g, there, rfl⟩ := List.mem_map.1 mem
    exact decide_eq_true (before g.token (token_mem_of_mem_focusesFrom there))
  have dropped : (focusesFrom (us.reverse ++ []) vs).filter (fun f => f.token.start < position) = [] := by
    refine List.filter_eq_nil_iff.2 fun f mem => ?_
    simpa using beyond f.token (token_mem_of_mem_focusesFrom mem)
  rw [focuses, focusesFrom_append, List.filter_append, kept, dropped, List.append_nil]
  rfl

theorem after_subset_tail {before ts : List Token} {f : Focus} (h : f ∈ focusesFrom before ts) :
    f.after ⊆ ts.tail := by
  obtain ⟨passed, rfl, -⟩ := mem_focusesFrom h
  cases passed with
  | nil => exact List.Subset.refl _
  | cons t passed => exact fun u mem => List.mem_append_right _ (List.mem_cons_of_mem _ mem)

/-- The last token that starts before a position is the one behind which all start there or later. -/
theorem focusBefore?_append {xs ys : List Token} {t : Token} {position : Nat} (here : t.start < position)
    (beyond : ∀ u ∈ ys, position ≤ u.start) :
    focusBefore? (xs ++ t :: ys) position = some ⟨xs.reverse, t, ys⟩ := by
  have skipped : ∀ f ∈ (focusesFrom (t :: xs.reverse) ys).reverse,
      ¬ decide (f.token.start < position) = true := by
    intro f mem
    obtain ⟨passed, same, -⟩ := mem_focusesFrom (List.mem_reverse.1 mem)
    have := beyond f.token (same ▸ List.mem_append_right _ List.mem_cons_self)
    simpa using this
  rw [focusBefore?, focuses, focusesFrom_append, focusesFrom, List.append_nil, List.reverse_append,
    List.reverse_cons, List.append_assoc, List.find?_append, List.find?_eq_none.2 skipped]
  simp [here]

end Typeahead
