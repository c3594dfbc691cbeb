import Typeahead.Proofs.Token.Escaped

/-!
What stays of the lexemes of a line that goes on in another way behind a place.

- `units_of_wordLength`, `closed_of_quotedLength`: what words and quoted strings are made of.
- `first_of_later`: a lexeme is the same as long as the character behind it is.
- `scan_front`, `scan_back`: the lexemes in front of a place, and those behind it.
- `words_apart`: two words never stand side by side.
-/

namespace Typeahead

namespace Lexer

/-- A character that goes on a quoted string by itself. -/
def isBody (c : Char) : Bool := c != '"' && c != '\n'

variable {marks : Marks} {s t rest rest' : Text} {c d : Char} {kind : TokenKind} {ls ls' : List Lexeme}

theorem takeWhile_eq_of_length {p : Char → Bool} (h : ((s ++ rest).takeWhile p).length = s.length) :
    (∀ c ∈ s, p c = true) ∧ ∀ c ∈ rest.head?, p c = false := by
  have run : (s ++ rest).takeWhile p = s :=
    (List.prefix_of_prefix_length_le (List.takeWhile_prefix p) (List.prefix_append ..) h.le).eq_of_length h
  have all : ∀ c ∈ s, p c = true := fun c mem => List.mem_takeWhile_imp (l := s ++ rest) (run.symm ▸ mem)
  refine ⟨all, ?_⟩
  rw [List.takeWhile_append_of_pos all] at run
  intro c first
  cases rest with
  | nil => cases first
  | cons d rest =>
    obtain rfl := Option.some.inj first
    have stopped : (d :: rest).takeWhile p = [] := List.append_right_eq_self.1 run
    by_contra fits
    simp [fits] at stopped

/-- A backslash at the end of a line goes on no word. -/
theorem wordLength_of_lone (alone : ∀ d ∈ t.head?, d = '\n') : wordLength marks ('\\' :: t) = 0 := by
  rw [wordLength.eq_def]
  split
  · rfl
  · next same =>
    rw [List.tail_eq_of_cons_eq same] at alone
    rw [if_pos (alone _ rfl)]
  · next same =>
    rw [← List.head_eq_of_cons_eq same, if_neg (by simp [isPlain])]

/-- Every character that is no blank, no mark and no quote goes on a word, but a single backslash. -/
theorem eq_backslash_of_wordLength (inked : isBlank c = false) (unmarked : marks c = none) (unquoted : c ≠ '"')
    (none : wordLength marks (c :: t) = 0) : c = '\\' := by
  by_contra escape
  rw [wordLength_of_plain (by simp [isPlain, inked, unmarked, unquoted, escape]) escape] at none
  cases none

/-- A word is made of units. -/
theorem units_of_wordLength (h : wordLength marks (t ++ rest) = t.length) : Units (isPlain marks) t := by
  induction size : t.length using Nat.strong_induction_on generalizing t with
  | _ size ih =>
    subst size
    rcases t with _ | ⟨c, t⟩
    · exact .nil
    rw [List.cons_append, List.length_cons] at h
    by_cases escape : c = '\\'
    · subst escape
      by_cases alone : ∀ d ∈ (t ++ rest).head?, d = '\n'
      · rw [wordLength_of_lone alone] at h
        cases h
      · rcases t with _ | ⟨d, t⟩
        · rcases rest with _ | ⟨d, rest⟩
          · simp at alone
          · rw [List.nil_append, wordLength_of_pair (by simpa using alone), List.length_nil] at h
            omega
        · have inLine : d ≠ '\n' := by simpa using alone
          rw [List.cons_append, wordLength_of_pair inLine, List.length_cons] at h
          exact .pair inLine (ih t.length (by simp only [List.length_cons]; omega) (by omega) rfl)
    · by_cases plain : isPlain marks c = true
      · rw [wordLength_of_plain plain escape] at h
        exact .one plain escape (ih t.length (by simp) (by omega) rfl)
      · rw [wordLength_of_stops (.cons (by simpa using plain) escape _)] at h
        cases h

theorem quotedLength_of_quote : quotedLength ('"' :: t) = 1 := by
  rw [quotedLength.eq_def]
  rfl

theorem quotedLength_of_body (fits : isBody c = true) (unescaped : c ≠ '\\') :
    quotedLength (c :: t) = quotedLength t + 1 := by
  simp only [isBody, Bool.and_eq_true, bne_iff_ne] at fits
  rw [quotedLength.eq_def]
  split
  · next same => cases same
  · next same => exact absurd (List.head_eq_of_cons_eq same) fits.1
  · next same => exact absurd (List.head_eq_of_cons_eq same) unescaped
  · next same =>
    obtain ⟨rfl, rfl⟩ := List.cons.inj same
    rw [if_neg (by simp [unescaped, fits.2])]

theorem quotedLength_of_pair (inLine : c ≠ '\n') : quotedLength ('\\' :: c :: t) = quotedLength t + 2 := by
  rw [quotedLength.eq_def]
  split
  · next same => cases same
  · next same => cases List.head_eq_of_cons_eq same
  · next same =>
    obtain ⟨rfl, rfl⟩ := List.cons.inj (List.tail_eq_of_cons_eq same)
    rw [if_neg inLine]
  · next unpaired same =>
    obtain ⟨rfl, rfl⟩ := List.cons.inj same
    exact (unpaired _ _ rfl rfl).elim

/-- Before its closing quote a quoted string is made of units. -/
theorem quotedLength_append (h : Units isBody t) (rest : Text) :
    quotedLength (t ++ rest) = t.length + quotedLength rest := by
  induction h with
  | nil => exact (Nat.zero_add _).symm
  | one fits unescaped _ ih =>
    rw [List.cons_append, quotedLength_of_body fits unescaped, ih, List.length_cons]
    omega
  | pair inLine _ ih =>
    rw [List.cons_append, List.cons_append, quotedLength_of_pair inLine, ih, List.length_cons, List.length_cons]
    omega

theorem quotedLength_closed (h : Units isBody t) (rest : Text) :
    quotedLength (t ++ '"' :: rest) = t.length + 1 := by
  rw [quotedLength_append h, quotedLength_of_quote]

theorem quotedLength_of_string (h : Units isBody t) (rest : Text) :
    quotedLength (t ++ ['"'] ++ rest) = (t ++ ['"']).length := by
  rw [List.append_assoc, List.singleton_append, quotedLength_closed h, List.length_append, List.length_singleton]

/-- Where more of a line comes than a backslash, a quoted string ends with its closing quote. -/
theorem closed_of_quotedLength (inLine : ∀ x ∈ t ++ d :: rest, x ≠ '\n') (more : d :: rest ≠ ['\\'])
    (h : quotedLength (t ++ d :: rest) = t.length) : ∃ body, t = body ++ ['"'] ∧ Units isBody body := by
  induction size : t.length using Nat.strong_induction_on generalizing t with
  | _ size ih =>
    subst size
    rcases t with _ | ⟨c, t⟩
    · exfalso
      rw [List.nil_append] at h inLine
      by_cases escape : d = '\\'
      · subst escape
        rcases rest with _ | ⟨e, rest⟩
        · exact more rfl
        · rw [quotedLength_of_pair (inLine e (by simp))] at h
          cases h
      · by_cases quote : d = '"'
        · subst quote
          rw [quotedLength_of_quote] at h
          cases h
        · rw [quotedLength_of_body (by simp [isBody, quote, inLine d (by simp)]) escape] at h
          cases h
    rw [List.cons_append, List.length_cons] at h
    obtain ⟨here, later⟩ := List.forall_mem_cons.1 (List.cons_append ▸ inLine)
    by_cases escape : c = '\\'
    · subst escape
      rcases t with _ | ⟨e, t⟩
      · rw [List.nil_append, quotedLength_of_pair (later d (by simp)), List.length_nil] at h
        omega
      · rw [List.cons_append, quotedLength_of_pair (later e (by simp)), List.length_cons] at h
        obtain ⟨body, rfl, units⟩ := ih t.length (by simp only [List.length_cons]; omega)
          (fun x mem => later x (by rw [List.cons_append]; exact List.mem_cons_of_mem _ mem)) (by omega) rfl
        exact ⟨'\\' :: e :: body, rfl, .pair (later e (by simp)) units⟩
    · by_cases quote : c = '"'
      · subst quote
        rw [quotedLength_of_quote] at h
        obtain rfl : t = [] := List.length_eq_zero_iff.1 (by simpa using h.symm)
        exact ⟨[], rfl, .nil⟩
      · have fits : isBody c = true := by simp [isBody, quote, here]
        rw [quotedLength_of_body fits escape] at h
        obtain ⟨body, rfl, units⟩ := ih t.length (by simp) later (by omega) rfl
        exact ⟨c :: body, rfl, .one fits escape units⟩

/-- Where no word goes on, none goes on whatever comes behind the next character, if that is not the backslash at
the end of a line. -/
theorem stops_of_later (inLine : ∀ x ∈ d :: rest, x ≠ '\n') (more : d :: rest ≠ ['\\'])
    (ended : wordLength marks (d :: rest) = 0) (rest' : Text) : Stops marks (d :: rest') := by
  have unescaped : d ≠ '\\' := by
    rintro rfl
    rcases rest with _ | ⟨e, rest⟩
    · exact absurd rfl more
    · rw [wordLength_of_pair (inLine e (by simp))] at ended
      cases ended
  refine .cons ?_ unescaped _
  by_contra plain
  rw [wordLength_of_plain (by simpa using plain) unescaped] at ended
  cases ended

/-- A lexeme with something behind it is the same whatever comes behind the next character, if it is not the
backslash at the end of a line that comes next. -/
theorem first_of_later (inLine : ∀ x ∈ s ++ d :: rest, x ≠ '\n') (more : d :: rest ≠ ['\\'])
    (h : first marks c (s ++ d :: rest) = (kind, s.length)) (rest' : Text) :
    first marks c (s ++ d :: rest') = (kind, s.length) := by
  rw [first_eq_iff] at h ⊢
  cases h with
  | blank blank length =>
    obtain ⟨all, ends⟩ := takeWhile_eq_of_length length
    have stops : (d :: rest').takeWhile isBlank = [] := by simp [ends d rfl]
    refine .blank blank ?_
    rw [List.takeWhile_append_of_pos all, stops, List.append_nil]
  | mark inked marked alone => exact .mark inked marked alone
  | quoted inked unmarked quote length =>
    obtain ⟨body, rfl, units⟩ := closed_of_quotedLength inLine more length
    exact .quoted inked unmarked quote (quotedLength_of_string units _)
  | word inked unmarked unquoted length =>
    rw [← List.cons_append] at length
    have units := units_of_wordLength (t := c :: s) length
    have ended : wordLength marks (d :: rest) = 0 := by
      rw [wordLength_append units, List.length_cons] at length
      omega
    have stops : Stops marks (d :: rest') :=
      stops_of_later (fun x mem => inLine x (List.mem_append_right _ mem)) more ended rest'
    refine .word inked unmarked unquoted ?_
    rw [← List.cons_append, wordLength_append units, wordLength_of_stops stops, List.length_cons]
  | stray inked unmarked unquoted none alone =>
    -- a backslash goes on a word with the character behind it
    obtain rfl := eq_backslash_of_wordLength inked unmarked unquoted none
    obtain rfl := List.length_eq_zero_iff.1 alone
    rw [List.nil_append, wordLength_of_pair (inLine d (by simp))] at none
    cases none

/-- The lexemes in front of a character stay if what follows the character changes. -/
theorem scan_front (inLine : ∀ x ∈ spell ls ++ d :: rest, x ≠ '\n') (more : d :: rest ≠ ['\\'])
    (h : scan marks (spell ls ++ d :: rest) = ls ++ ls') (rest' : Text) :
    scan marks (spell ls ++ d :: rest') = ls ++ scan marks (d :: rest') := by
  induction ls with
  | nil => rfl
  | cons l ls ih =>
    have nonempty : l.2 ≠ [] := scan_ne_nil (h ▸ List.mem_append_left _ List.mem_cons_self)
    obtain ⟨c, s, same⟩ := List.exists_cons_of_ne_nil nonempty
    rw [spell_cons, List.append_assoc] at inLine h ⊢
    rw [same, List.cons_append] at inLine h ⊢
    obtain ⟨s', rest₁, same', split, found, later⟩ := scan_cons_eq_iff.1 h
    obtain rfl : s = s' := List.tail_eq_of_cons_eq (same.symm.trans same')
    obtain rfl : spell ls ++ d :: rest = rest₁ := List.append_cancel_left split
    have behind : ∀ x ∈ spell ls ++ d :: rest, x ≠ '\n' :=
      fun x mem => inLine x (List.mem_cons_of_mem _ (List.mem_append_right _ mem))
    refine scan_cons_eq_iff.2 ⟨s, spell ls ++ d :: rest', same, rfl, ?_, ih behind later⟩
    -- the next character is the same, be it of the next lexeme or the one behind them all
    have inside : ∀ x ∈ s ++ (spell ls ++ d :: rest), x ≠ '\n' := fun x mem => inLine x (List.mem_cons_of_mem _ mem)
    cases front : spell ls with
    | nil =>
      rw [front] at found inside
      exact first_of_later inside more found rest'
    | cons e front' =>
      rw [front] at found inside
      have behind : e :: (front' ++ d :: rest) ≠ ['\\'] := by simp
      exact first_of_later inside behind found (front' ++ d :: rest')

/-- The lexemes behind others are those of their characters. -/
theorem scan_back (h : scan marks t = ls ++ ls') : scan marks (spell ls') = ls' := by
  induction ls generalizing t with
  | nil =>
    rw [List.nil_append] at h
    rw [← h, spell_scan, h]
  | cons l ls ih =>
    cases t with
    | nil => rw [scan] at h; cases h
    | cons c t =>
      obtain ⟨-, rest, -, -, -, later⟩ := scan_cons_eq_iff.1 h
      exact ih later

/-- The characters of a word are made of units, and behind it no word goes on. -/
theorem word_of_scan (unmarked : ∀ c, marks c ≠ some .word) (h : scan marks t = (.word, s) :: ls) :
    ∃ rest, t = s ++ rest ∧ Units (isPlain marks) s ∧ wordLength marks rest = 0 ∧ scan marks rest = ls := by
  have nonempty : s ≠ [] := scan_ne_nil (h ▸ List.mem_cons_self)
  have own : t ≠ [] := by
    rintro rfl
    rw [scan] at h
    cases h
  obtain ⟨c, t, rfl⟩ := List.exists_cons_of_ne_nil own
  obtain ⟨s, rest, rfl, rfl, found, later⟩ := scan_cons_eq_iff.1 h
  have length : wordLength marks (c :: s ++ rest) = (c :: s).length := by
    cases first_eq_iff.1 found with
    | mark _ marked => exact absurd marked (unmarked c)
    | word _ _ _ length => exact length
  have units := units_of_wordLength length
  rw [wordLength_append units] at length
  exact ⟨rest, rfl, units, by omega, later⟩

/-- Two words never stand side by side. -/
theorem words_apart (unmarked : ∀ c, marks c ≠ some .word) {l l' : Lexeme}
    (h : scan marks t = ls ++ l :: l' :: ls') (word : l.1 = .word) : l'.1 ≠ .word := by
  intro word'
  obtain ⟨kind, a⟩ := l
  obtain ⟨kind', b⟩ := l'
  obtain rfl : kind = .word := word
  obtain rfl : kind' = .word := word'
  obtain ⟨rest, -, -, ended, later⟩ := word_of_scan unmarked (scan_back h)
  have nonempty : b ≠ [] := scan_ne_nil (later ▸ List.mem_cons_self)
  obtain ⟨behind, rfl, units, -, -⟩ := word_of_scan unmarked later
  rw [wordLength_append units] at ended
  exact nonempty (List.length_eq_zero_iff.1 (by omega))

/-- Only blanks begin a run of blanks. -/
theorem inked_of_scan {l : Lexeme} (h : scan marks (c :: t) = l :: ls) (kind : l.1 ≠ .blank) : isBlank c = false := by
  obtain ⟨kind', chars⟩ := l
  obtain ⟨s, rest, -, -, found, -⟩ := scan_cons_eq_iff.1 h
  cases first_eq_iff.1 found with
  | blank => exact absurd rfl kind
  | mark inked | quoted inked | word inked | stray inked => exact inked

/-- A quoted string begins with a quote. -/
theorem quote_of_scan (unmarked : ∀ c, marks c ≠ some .quoted) (h : scan marks t = ls ++ (.quoted, s) :: ls') :
    s.head? = some '"' := by
  have nonempty : s ≠ [] := scan_ne_nil (h ▸ List.mem_append_right ls List.mem_cons_self)
  obtain ⟨c, s, rfl⟩ := List.exists_cons_of_ne_nil nonempty
  obtain ⟨s', rest, -, -, found, -⟩ := scan_cons_eq_iff.1 (scan_back h)
  cases first_eq_iff.1 found with
  | mark _ marked => exact absurd marked (unmarked c)
  | quoted _ _ quote => rw [quote, List.head?_cons]

/-- Marks and single backslashes have one character. -/
theorem length_of_scan {l : Lexeme} (h : scan marks t = ls ++ l :: ls')
    (kind : l.1 ≠ .blank ∧ l.1 ≠ .word ∧ l.1 ≠ .quoted) : l.2.length = 1 := by
  obtain ⟨notBlank, notWord, notQuoted⟩ := kind
  obtain ⟨kind, chars⟩ := l
  obtain ⟨c, s, rfl⟩ := List.exists_cons_of_ne_nil (scan_ne_nil (h ▸ List.mem_append_right ls List.mem_cons_self))
  obtain ⟨s', rest, same, -, found, -⟩ := scan_cons_eq_iff.1 (scan_back h)
  obtain rfl : s = s' := List.tail_eq_of_cons_eq same
  have none_behind : s.length = 0 := by
    cases first_eq_iff.1 found with
    | blank => exact absurd rfl notBlank
    | quoted => exact absurd rfl notQuoted
    | word => exact absurd rfl notWord
    | mark _ _ alone | stray _ _ _ _ alone => exact alone
  rw [List.length_cons, none_behind]

/-- A lexeme that goes on with nothing but blanks: a run of blanks, or a mark. -/
inductive Ended (marks : Marks) : Lexeme → Prop
  | blanks {s : Text} (nonempty : s ≠ []) (blank : ∀ c ∈ s, isBlank c = true) : Ended marks (.blank, s)
  | mark {c : Char} {kind : TokenKind} (inked : isBlank c = false) (marked : marks c = some kind) :
    Ended marks (kind, [c])

/-- A mark is a lexeme, whatever it is followed by. -/
theorem scan_mark (marked : marks c = some kind) (inked : isBlank c = false) (t : Text) :
    scan marks (c :: t) = (kind, [c]) :: scan marks t := by
  exact scan_cons_eq_iff.2 ⟨[], t, rfl, rfl, first_eq_iff.2 (.mark inked marked rfl), rfl⟩

theorem Ended.scan {l : Lexeme} (h : Ended marks l) (inked : ∀ c ∈ rest.head?, isBlank c = false) :
    Lexer.scan marks (l.2 ++ rest) = l :: Lexer.scan marks rest := by
  cases h with
  | @blanks s nonempty blank =>
    obtain ⟨c, s, rfl⟩ := List.exists_cons_of_ne_nil nonempty
    obtain ⟨begins, goesOn⟩ := List.forall_mem_cons.1 blank
    have stops : rest.takeWhile isBlank = [] := by
      cases rest with
      | nil => rfl
      | cons d rest => simp [inked d rfl]
    have length : ((s ++ rest).takeWhile isBlank).length = s.length := by
      rw [List.takeWhile_append_of_pos goesOn, stops, List.append_nil]
    exact scan_cons_eq_iff.2 ⟨s, rest, rfl, rfl, first_eq_iff.2 (.blank begins length), rfl⟩
  | mark inked marked => exact scan_mark marked inked rest

/-- The lexemes up to a run of blanks or a mark stay if what follows it changes. So do those up to a place in a
run of blanks. -/
theorem scan_upTo {l : Lexeme} (inLine : ∀ x ∈ spell ls ++ d :: rest, x ≠ '\n') (unescaped : marks '\\' = none)
    (h : scan marks (spell ls ++ d :: rest) = ls ++ ls') (ended : Ended marks l) (begins : l.2.head? = some d)
    (inked : ∀ c ∈ rest'.head?, isBlank c = false) :
    scan marks (spell (ls ++ [l]) ++ rest') = ls ++ [l] ++ scan marks rest' := by
  have more : d :: rest ≠ ['\\'] := by
    intro same
    obtain rfl : d = '\\' := List.head_eq_of_cons_eq same
    cases ended with
    | @blanks s nonempty blank =>
      have held := blank '\\' (List.mem_of_mem_head? begins)
      revert held
      decide
    | mark inked marked =>
      obtain rfl := Option.some.inj begins
      rw [unescaped] at marked
      cases marked
  obtain ⟨s, same⟩ : ∃ s, l.2 = d :: s := by
    cases chars : l.2 with
    | nil => simp [chars] at begins
    | cons c s =>
      obtain rfl : c = d := by simpa [chars] using begins
      exact ⟨s, rfl⟩
  have stays := scan_front inLine more h (s ++ rest')
  have own := ended.scan inked
  rw [same, List.cons_append] at own
  rw [spell_append, spell_cons, spell_nil, List.append_nil, same, List.append_assoc, List.cons_append, stays, own,
    List.append_assoc, List.singleton_append]

/-- A lexeme that is no word, no quoted string and no backslash is a run of blanks or a mark. -/
theorem ended_of_scan {l : Lexeme} (h : scan marks t = ls ++ l :: ls')
    (gap : l.1 ≠ .word ∧ l.1 ≠ .quoted ∧ l.1 ≠ .stray) : Ended marks l := by
  obtain ⟨notWord, notQuoted, notStray⟩ := gap
  obtain ⟨kind, chars⟩ := l
  obtain ⟨c, s, rfl⟩ := List.exists_cons_of_ne_nil (scan_ne_nil (h ▸ List.mem_append_right ls List.mem_cons_self))
  obtain ⟨s', rest, same, split, found, -⟩ := scan_cons_eq_iff.1 (scan_back h)
  obtain rfl : s = s' := List.tail_eq_of_cons_eq same
  change s ++ spell ls' = s ++ rest at split
  obtain rfl : spell ls' = rest := List.append_cancel_left split
  cases first_eq_iff.1 found with
  | blank blank length =>
    exact .blanks (by simp) (List.forall_mem_cons.2 ⟨blank, (takeWhile_eq_of_length length).1⟩)
  | mark inked marked alone =>
    obtain rfl := List.length_eq_zero_iff.1 alone
    exact .mark inked marked
  | quoted => exact absurd rfl notQuoted
  | word => exact absurd rfl notWord
  | stray => exact absurd rfl notStray

/-- A run of blanks goes up to the next character that is not blank. -/
theorem blanks_of_scan (unmarked : ∀ c, marks c ≠ some .blank) (h : scan marks (s ++ rest) = (.blank, s) :: ls) :
    (∀ c ∈ s, isBlank c = true) ∧ ∀ c ∈ rest.head?, isBlank c = false := by
  have there : (TokenKind.blank, s) ∈ scan marks (s ++ rest) := h ▸ List.mem_cons_self
  have nonempty : s ≠ [] := scan_ne_nil there
  obtain ⟨c, s, rfl⟩ := List.exists_cons_of_ne_nil nonempty
  obtain ⟨s', rest', same, split, found, -⟩ := scan_cons_eq_iff.1 h
  obtain rfl : s = s' := List.tail_eq_of_cons_eq same
  obtain rfl : rest = rest' := List.append_cancel_left split
  cases first_eq_iff.1 found with
  | blank blank length =>
    obtain ⟨all, ends⟩ := takeWhile_eq_of_length length
    exact ⟨List.forall_mem_cons.2 ⟨blank, all⟩, ends⟩
  | mark _ marked => exact absurd marked (unmarked c)

/-- Some tokens of a line in a row are those of some lexemes in a row. -/
theorem place_eq_append {n : Nat} {line : Text} {xs ys : List Token} (h : place n line ls = xs ++ ys) :
    ∃ ls₁ ls₂, ls = ls₁ ++ ls₂ ∧ xs = place n line ls₁ ∧
      ys = place (n + (spell ls₁).length) (line.drop (spell ls₁).length) ls₂ := by
  induction xs generalizing n line ls with
  | nil => exact ⟨[], ls, rfl, rfl, h.symm⟩
  | cons x xs ih =>
    cases ls with
    | nil => cases h
    | cons l ls =>
      obtain ⟨rfl, later⟩ := List.cons.inj h
      obtain ⟨ls₁, ls₂, rfl, rfl, rfl⟩ := ih later
      exact ⟨l :: ls₁, ls₂, rfl, rfl, by simp [Nat.add_assoc]⟩

/-- So no two words stand side by side among tokens. -/
theorem kind_ne_word_of_word (unmarked : ∀ c, marks c ≠ some .word) (scanned : scan marks s = ls) {n : Nat}
    {line : Text} {xs ys : List Token} {t u : Token} (same : place n line ls = xs ++ t :: u :: ys)
    (word : t.kind = .word) : u.kind ≠ .word := by
  obtain ⟨ls₁, ls₂, rfl, -, later⟩ := place_eq_append same
  rcases ls₂ with _ | ⟨l, _ | ⟨l', ls₂⟩⟩
  · cases later
  · cases later
  · obtain ⟨first, later⟩ := List.cons.inj later
    obtain ⟨second, -⟩ := List.cons.inj later
    have kind : t.kind = l.1 := congrArg Token.kind first
    have kind' : u.kind = l'.1 := congrArg Token.kind second
    rw [kind']
    exact words_apart unmarked scanned (kind.symm.trans word)

/-- The tokens are written with as many characters as the lexemes have. -/
theorem place_congr {n : Nat} {line line' : Text}
    (same : line.take (spell ls).length = line'.take (spell ls).length) : place n line ls = place n line' ls := by
  induction ls generalizing n line line' with
  | nil => rfl
  | cons l ls ih =>
    rw [spell_cons, List.length_append] at same
    have here : line.take l.2.length = line'.take l.2.length := by
      have first := congrArg (List.take l.2.length) same
      simpa [List.take_take, Nat.min_eq_left (Nat.le_add_right ..)] using first
    have later := congrArg (List.drop l.2.length) same
    rw [List.drop_take, List.drop_take, Nat.add_sub_cancel_left] at later
    rw [place, place, here, ih later]

end Lexer

namespace Token

/-- A token behind a place that moves. -/
def moved (old new : Nat) (t : Token) : Token := { t with start := t.start - old + new }

/-- The part of a token in front of a position. -/
def upTo (t : Token) (position : Nat) : Token where
  kind := t.kind
  start := t.start
  written := t.written.take (position - t.start)
  masked := t.masked.take (position - t.start)

/-- The part of a token behind a position. -/
def behind (t : Token) (position : Nat) : Token where
  kind := t.kind
  start := position
  written := t.written.drop (position - t.start)
  masked := t.masked.drop (position - t.start)

end Token

namespace Lexer

/-- Lexemes behind a place move with the place. -/
theorem place_moved (old new k : Nat) (line : Text) (ls : List Lexeme) :
    place (new + k) line ls = (place (old + k) line ls).map (Token.moved old new) := by
  induction ls generalizing k line with
  | nil => rfl
  | cons l ls ih =>
    have start : old + k - old + new = new + k := by omega
    simp only [place, List.map_cons, Token.moved, start, Nat.add_assoc, ih]

end Lexer

end Typeahead
