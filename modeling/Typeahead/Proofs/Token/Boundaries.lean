import Mathlib.Data.List.Basic
import Typeahead.Proofs.Token.Seams

/-!
Where a line is cut between two of its lexemes, and where two lines are put together.

- `scan_truncate`: the lexemes up to a place between two of them are those of the line that ends there.
- `Whole`, `whole_of_scan`: what a lexeme is that something else follows.
- `scan_append`: behind a whole lexeme with which no other one goes on, the lexemes are those of the rest.
- `cut_of_blanks`: in front of blanks a line can be cut, unless the first of them is escaped.
-/

namespace Typeahead

namespace Text

variable {a b u : Text} {c : Char} {covered : Nat}

/-- The characters that still belong to a placeholder are masked. -/
theorem maskFrom_covered {t : Text} {n i : Nat} (within : i < n) (there : i < t.length) :
    (maskFrom n t)[i]? = some 'x' := by
  induction t generalizing n i with
  | nil => cases there
  | cons d t ih =>
    obtain ⟨n, rfl⟩ := Nat.exists_eq_succ_of_ne_zero (Nat.ne_zero_of_lt within)
    cases i with
    | zero => rfl
    | succ i => exact ih (Nat.lt_of_succ_lt_succ within) (Nat.lt_of_succ_lt_succ there)

theorem maskFrom_split (other : c ≠ 'x') (there : (maskFrom covered (a ++ b))[a.length]? = some c) :
    maskFrom covered (a ++ b) = maskFrom covered a ++ mask b := by
  have reached (n : Nat) (d : Text) (there : (maskFrom n (d ++ b))[d.length]? = some c) : n ≤ d.length := by
    by_contra beyond
    have within := (List.getElem?_eq_some_iff.1 there).1
    rw [length_maskFrom] at within
    rw [maskFrom_covered (Nat.lt_of_not_le beyond) within] at there
    exact other (Option.some.inj there).symm
  induction a generalizing covered with
  | nil =>
    obtain rfl := Nat.le_zero.1 (reached covered [] there)
    rfl
  | cons d a ih =>
    cases covered with
    | succ n =>
      rw [List.cons_append, maskFrom, List.length_cons, List.getElem?_cons_succ] at there
      rw [List.cons_append, maskFrom, maskFrom, ih there, List.cons_append]
    | zero =>
      simp only [List.cons_append, maskFrom, List.length_cons] at there ⊢
      cases length : placeholderLength (d :: (a ++ b)) with
      | zero =>
        have front := placeholderLength_append (a := d :: a) (b := b)
          (by rw [List.cons_append, length]; exact Nat.zero_le _)
        rw [List.cons_append, length] at front
        simp only [length, front, List.getElem?_cons_succ] at there ⊢
        rw [ih there, List.cons_append]
      | succ n =>
        simp only [length, List.getElem?_cons_succ] at there ⊢
        have short := reached n a there
        have front := placeholderLength_append (a := d :: a) (b := b)
          (by rw [List.cons_append, length]; simpa using short)
        rw [List.cons_append, length] at front
        simp only [front]
        rw [ih there, List.cons_append]

/-- In front of a character that is not masked, a line is masked by itself. -/
theorem mask_split (other : c ≠ 'x') (there : (mask (a ++ b))[a.length]? = some c) : mask (a ++ b) = mask a ++ mask b :=
  maskFrom_split other there

/-- A placeholder without a closing mark is a dollar sign with a name. -/
theorem Placeholder.eq_of_unclosed {p : Text} (h : Placeholder p) (last : p.getLast? = some c)
    (unclosed : c ≠ '}' ∧ c ≠ ']') : ∃ name, p = '$' :: name ∧ ∀ d ∈ name, isNameChar d = true := by
  cases h with
  | @braced name chars =>
    rw [← List.cons_append, ← List.cons_append, List.getLast?_concat] at last
    exact absurd (Option.some.inj last).symm unclosed.1
  | @bare d name begins chars =>
    exact ⟨d :: name, rfl, List.forall_mem_cons.2 ⟨isNameChar_of_isNameStart begins, chars⟩⟩
  | @bracketed name chars =>
    have ends : ('[' :: '[' :: (name ++ [']']) ++ [']']).getLast? = some c := by simpa using last
    rw [List.getLast?_concat] at ends
    exact absurd (Option.some.inj ends).symm unclosed.2

/-- Only the second character of a placeholder is an opening brace. -/
theorem Placeholder.braceless {p : Text} (h : Placeholder p) : '{' ∉ p.drop 2 := by
  intro mem
  cases h with
  | @braced name chars =>
    rcases List.mem_append.1 mem with own | close
    · exact absurd (chars _ own) (by decide)
    · cases List.mem_singleton.1 close
  | @bare d name begins chars => exact absurd (chars _ mem) (by decide)
  | @bracketed name chars =>
    rcases List.mem_append.1 mem with own | close
    · exact absurd (chars _ own) (by decide)
    · simp at close

/-- No placeholder reaches over the beginning of a text in which none ends, if no name goes on there. -/
theorem mask_append_word
    (seam : (∀ c ∈ a.getLast?, isNameChar c = false ∧ c ≠ '$') ∨ ∀ c ∈ u.head?, isNameChar c = false)
    (filled : u ≠ []) (unclosed : ∀ c ∈ u, c ≠ '}' ∧ c ≠ ']') (ends : ∀ c ∈ b.head?, isBlank c = true ∨ c = '{') :
    mask (a ++ (u ++ b)) = mask a ++ mask (u ++ b) := by
  apply mask_append
  intro s suffix nonempty
  by_contra longer
  obtain ⟨p, rest, same, length, placeholder⟩ := exists_placeholder (t := s ++ (u ++ b)) (by omega)
  obtain ⟨q, rfl⟩ : s <+: p :=
    List.prefix_of_prefix_length_le (List.prefix_append ..) (same ▸ List.prefix_append p rest) (by omega)
  have further : q ≠ [] := by
    rintro rfl
    rw [List.append_nil] at length
    omega
  rw [List.append_assoc] at same
  obtain ⟨more, parts⟩ | ⟨e, more, rfl, next⟩ :
      (∃ more, u = q ++ more) ∨ ∃ e more, q = u ++ e :: more ∧ e ∈ b.head? := by
    rcases List.append_eq_append_iff.1 (List.append_cancel_left same) with ⟨_ | ⟨e, more⟩, rfl, rfl⟩ | ⟨more, rfl, -⟩
    · exact .inl ⟨[], by simp⟩
    · exact .inr ⟨e, more, rfl, rfl⟩
    · exact .inl ⟨more, rfl⟩
  · -- the placeholder ends in `u`, so it is a name behind a dollar sign
    obtain ⟨c, last⟩ : ∃ c, q.getLast? = some c := ⟨_, List.getLast?_eq_some_getLast further⟩
    have whole : (s ++ q).getLast? = some c := by rw [List.getLast?_append_of_ne_nil _ further, last]
    have among : c ∈ u := parts ▸ List.mem_append_left _ (List.mem_of_getLast? last)
    obtain ⟨name, shown, chars⟩ := placeholder.eq_of_unclosed whole (unclosed c among)
    obtain ⟨d, s, rfl⟩ := List.exists_cons_of_ne_nil nonempty
    obtain ⟨rfl, rfl⟩ := List.cons.inj shown
    rcases seam with before | behind
    · obtain ⟨x, ends⟩ : ∃ x, ('$' :: s).getLast? = some x := ⟨_, List.getLast?_eq_some_getLast nonempty⟩
      have front : x ∈ a.getLast? := by
        obtain ⟨front, rfl⟩ := suffix
        rw [List.getLast?_append_of_ne_nil _ nonempty]
        exact ends
      obtain ⟨unnamed, dollar⟩ := before x front
      rcases List.mem_cons.1 (List.mem_of_getLast? ends) with rfl | own
      · exact dollar rfl
      · rw [chars x (List.mem_append_left _ own)] at unnamed
        cases unnamed
    · obtain ⟨x, q, rfl⟩ := List.exists_cons_of_ne_nil further
      have unnamed := behind x (by rw [parts]; rfl)
      rw [chars x (List.mem_append_right _ List.mem_cons_self)] at unnamed
      cases unnamed
  · -- the placeholder goes on with a blank or a brace
    rcases ends e next with blank | rfl
    · rw [placeholder.inked e (by simp)] at blank
      cases blank
    · apply placeholder.braceless
      obtain ⟨d, s, rfl⟩ := List.exists_cons_of_ne_nil nonempty
      obtain ⟨x, u, rfl⟩ := List.exists_cons_of_ne_nil filled
      have behind : (d :: s ++ (x :: u ++ '{' :: more)).drop 2 = (s ++ x :: (u ++ '{' :: more)).drop 1 := rfl
      rw [behind]
      cases s <;> simp

/-- Blanks around a text stay as they are. -/
theorem mask_padded {left right : Text} (blank : ∀ c ∈ left, isBlank c = true) (blank' : ∀ c ∈ right, isBlank c = true)
    (t : Text) : mask (left ++ t ++ right) = left ++ mask t ++ right := by
  have plain {s : Text} (blanks : ∀ c ∈ s, isBlank c = true) : ∀ c ∈ s, c ≠ '$' ∧ c ≠ '[' := by
    intro c mem
    have held := blanks c mem
    constructor <;> rintro rfl <;> revert held <;> decide
  rw [mask_append_blank fun c first => blank' c (List.mem_of_mem_head? first), mask_plain_append (plain blank),
    mask_of_plain (plain blank')]

theorem inked_head?_mask (inked : ∀ c ∈ a.head?, isBlank c = false) : ∀ c ∈ (mask a).head?, isBlank c = false := by
  intro c first
  rw [List.head?_eq_getElem?] at first
  rcases maskFrom_eq_or 0 a 0 c first with rfl | own
  · decide
  · exact inked c (by rw [List.head?_eq_getElem?]; exact own)

theorem inked_getLast?_mask (inked : ∀ c ∈ a.getLast?, isBlank c = false) :
    ∀ c ∈ (mask a).getLast?, isBlank c = false := by
  intro c last
  rw [List.getLast?_eq_getElem?, length_mask] at last
  rcases maskFrom_eq_or 0 a _ c last with rfl | own
  · decide
  · exact inked c (by rw [List.getLast?_eq_getElem?]; exact own)

end Text

namespace Lexer

variable {marks : Marks} {t front gap rest : Text} {c d : Char} {kind : TokenKind} {l : Lexeme}
  {ls ls' : List Lexeme}

/-- A backslash at the end of a line goes on no quoted string. -/
theorem quotedLength_of_lone (alone : ∀ d ∈ t.head?, d = '\n') : quotedLength ('\\' :: t) = 0 := by
  rw [quotedLength.eq_def]
  split
  · rfl
  · next same => cases List.head_eq_of_cons_eq same
  · next same =>
    rw [List.tail_eq_of_cons_eq same] at alone
    rw [if_pos (alone _ rfl)]
  · next same => rw [← List.head_eq_of_cons_eq same, if_pos (by simp)]

/-- Up to its end a quoted string is made of units, but for the quote that closes it. -/
theorem body_of_quotedLength (inLine : ∀ x ∈ t, x ≠ '\n') (h : quotedLength (t ++ rest) = t.length) :
    Units isBody t ∨ ∃ body, t = body ++ ['"'] ∧ Units isBody body := by
  induction size : t.length using Nat.strong_induction_on generalizing t with
  | _ size ih =>
    subst size
    rcases t with _ | ⟨c, t⟩
    · exact .inl .nil
    obtain ⟨here, later⟩ := List.forall_mem_cons.1 inLine
    rw [List.cons_append, List.length_cons] at h
    by_cases escape : c = '\\'
    · subst escape
      by_cases alone : ∀ d ∈ (t ++ rest).head?, d = '\n'
      · rw [quotedLength_of_lone alone] at h
        cases h
      · rcases t with _ | ⟨d, t⟩
        · rcases rest with _ | ⟨d, rest⟩
          · simp at alone
          · rw [List.nil_append, quotedLength_of_pair (by simpa using alone), List.length_nil] at h
            omega
        · have paired : d ≠ '\n' := later d List.mem_cons_self
          rw [List.cons_append, quotedLength_of_pair paired, List.length_cons] at h
          have inLine' : ∀ x ∈ t, x ≠ '\n' := fun x mem => later x (List.mem_cons_of_mem _ mem)
          rcases ih t.length (by simp only [List.length_cons]; omega) inLine' (by omega) rfl with
            units | ⟨body, rfl, units⟩
          · exact .inl (.pair paired units)
          · exact .inr ⟨'\\' :: d :: body, rfl, .pair paired units⟩
    · by_cases quote : c = '"'
      · subst quote
        rw [quotedLength_of_quote] at h
        obtain rfl : t = [] := List.length_eq_zero_iff.1 (by omega)
        exact .inr ⟨[], rfl, .nil⟩
      · have fits : isBody c = true := by simp [isBody, quote, here]
        rw [quotedLength_of_body fits escape] at h
        rcases ih t.length (by simp) later (by omega) rfl with units | ⟨body, rfl, units⟩
        · exact .inl (.one fits escape units)
        · exact .inr ⟨c :: body, rfl, .one fits escape units⟩

theorem quotedLength_truncate (inLine : ∀ x ∈ t, x ≠ '\n') (h : quotedLength (t ++ rest) = t.length) :
    quotedLength t = t.length := by
  rcases body_of_quotedLength inLine h with units | ⟨body, rfl, units⟩
  · have length := quotedLength_append units []
    rwa [List.append_nil] at length
  · rw [quotedLength_closed units, List.length_append, List.length_singleton]

theorem wordLength_truncate (h : wordLength marks (t ++ rest) = t.length) : wordLength marks t = t.length := by
  have length := wordLength_append (units_of_wordLength h) []
  rwa [List.append_nil] at length

/-- A lexeme stays if the line ends with it. -/
theorem first_truncate (inLine : ∀ x ∈ t, x ≠ '\n') (h : first marks c (t ++ rest) = (kind, t.length)) :
    first marks c t = (kind, t.length) := by
  rw [first_eq_iff] at h ⊢
  cases h with
  | blank blank length =>
    obtain ⟨all, -⟩ := takeWhile_eq_of_length length
    exact .blank blank (by rw [List.takeWhile_eq_self_iff.2 all])
  | mark inked marked alone => exact .mark inked marked alone
  | quoted inked unmarked quote length =>
    exact .quoted inked unmarked quote (quotedLength_truncate inLine length)
  | word inked unmarked unquoted length =>
    exact .word inked unmarked unquoted (wordLength_truncate (t := c :: t) length)
  | stray inked unmarked unquoted none alone =>
    obtain rfl := eq_backslash_of_wordLength inked unmarked unquoted none
    obtain rfl := List.length_eq_zero_iff.1 alone
    exact .stray inked unmarked unquoted (wordLength_of_lone (by simp)) rfl

/-- The lexemes up to a place between two of them are those of the line that ends there. -/
theorem scan_truncate (inLine : ∀ x ∈ spell ls ++ rest, x ≠ '\n') (h : scan marks (spell ls ++ rest) = ls ++ ls') :
    scan marks (spell ls) = ls := by
  induction ls with
  | nil => rw [spell_nil, scan]
  | cons l ls ih =>
    obtain ⟨c, s, same⟩ := List.exists_cons_of_ne_nil (scan_ne_nil (h ▸ List.mem_append_left _ List.mem_cons_self))
    rw [spell_cons, same, List.cons_append, List.cons_append, List.append_assoc] at h inLine
    obtain ⟨s', rest', same', split, found, later⟩ := scan_cons_eq_iff.1 h
    obtain rfl : s = s' := List.tail_eq_of_cons_eq (same.symm.trans same')
    obtain rfl : spell ls ++ rest = rest' := List.append_cancel_left split
    have inside : ∀ x ∈ s ++ (spell ls ++ rest), x ≠ '\n' := fun x mem => inLine x (List.mem_cons_of_mem _ mem)
    have behind : ∀ x ∈ spell ls ++ rest, x ≠ '\n' := fun x mem => inside x (List.mem_append_right _ mem)
    rw [spell_cons, same, List.cons_append]
    refine scan_cons_eq_iff.2 ⟨s, spell ls, same, rfl, ?_, ih behind later⟩
    cases next : spell ls with
    | nil =>
      rw [List.append_nil]
      exact first_truncate (fun x mem => inside x (List.mem_append_left _ mem)) found
    | cons e more =>
      rw [next, List.cons_append] at found inside
      by_cases alone : e :: (more ++ rest) = ['\\']
      · obtain ⟨rfl, rfl⟩ := List.append_eq_nil_iff.1 (List.tail_eq_of_cons_eq alone)
        exact found
      · exact first_of_later inside alone found more

/-- Marks that are neither quotes nor backslashes, and no tokens of the kinds that all languages share. -/
structure Proper (marks : Marks) : Prop where
  kinds : ∀ c kind, marks c = some kind → kind ≠ .blank ∧ kind ≠ .word ∧ kind ≠ .quoted ∧ kind ≠ .stray
  quote : marks '"' = none
  escape : marks '\\' = none

theorem Proper.not_blank (proper : Proper marks) (c : Char) : marks c ≠ some .blank :=
  fun marked => (proper.kinds c _ marked).1 rfl

theorem Proper.not_word (proper : Proper marks) (c : Char) : marks c ≠ some .word :=
  fun marked => (proper.kinds c _ marked).2.1 rfl

theorem proper_metricsMarks : Proper metricsMarks := by
  refine ⟨fun c kind marked => ?_, rfl, rfl⟩
  unfold metricsMarks at marked
  split at marked <;> cases marked <;> decide

theorem proper_logsMarks : Proper logsMarks := by
  refine ⟨fun c kind marked => ?_, rfl, rfl⟩
  unfold logsMarks at marked
  split at marked <;> cases marked <;> decide

/-- A lexeme that something else can follow: a run of blanks, a mark, a word, or a quoted string that is closed. -/
inductive Whole (marks : Marks) : Lexeme → Prop
  | ended {l : Lexeme} (h : Ended marks l) : Whole marks l
  | word {s : Text} (nonempty : s ≠ []) (units : Units (isPlain marks) s) : Whole marks (.word, s)
  | quoted {body : Text} (units : Units isBody body) : Whole marks (.quoted, '"' :: (body ++ ['"']))

/-- A quoted string begins with a quote. -/
theorem quoted_of_first (proper : Proper marks) {n : Nat} (h : first marks c t = (.quoted, n)) :
    c = '"' ∧ quotedLength t = n := by
  cases first_eq_iff.1 h with
  | mark _ marked => exact absurd rfl (proper.kinds c _ marked).2.2.1
  | quoted _ _ quote length => exact ⟨quote, length⟩

/-- A backslash goes on no word only where the line ends. -/
theorem stray_of_first (proper : Proper marks) {n : Nat} (h : first marks c t = (.stray, n)) :
    c = '\\' ∧ ∀ d ∈ t.head?, d = '\n' := by
  cases first_eq_iff.1 h with
  | mark _ marked => exact absurd rfl (proper.kinds c _ marked).2.2.2
  | stray inked unmarked unquoted none =>
    obtain rfl := eq_backslash_of_wordLength inked unmarked unquoted none
    refine ⟨rfl, fun d next => ?_⟩
    cases t with
    | nil => cases next
    | cons e t =>
      obtain rfl := Option.some.inj next
      by_contra inLine
      rw [wordLength_of_pair inLine] at none
      cases none

/-- A lexeme is whole if anything but the backslash at the end of the line follows it. -/
theorem whole_of_scan (proper : Proper marks) (inLine : ∀ x ∈ t, x ≠ '\n') (h : scan marks t = ls ++ l :: ls')
    (followed : spell ls' ≠ []) (more : spell ls' ≠ ['\\']) : Whole marks l := by
  obtain ⟨kind, chars⟩ := l
  obtain ⟨c, s, rfl⟩ := List.exists_cons_of_ne_nil (scan_ne_nil (h ▸ List.mem_append_right ls List.mem_cons_self))
  have own : scan marks (c :: (s ++ spell ls')) = (kind, c :: s) :: ls' := scan_back h
  obtain ⟨s', rest, same, split, found, -⟩ := scan_cons_eq_iff.1 own
  obtain rfl : s = s' := List.tail_eq_of_cons_eq same
  obtain rfl : spell ls' = rest := List.append_cancel_left split
  obtain ⟨d, rest, next⟩ := List.exists_cons_of_ne_nil followed
  have inside : ∀ x ∈ s ++ spell ls', x ≠ '\n' := by
    intro x mem
    refine inLine x ?_
    rw [← spell_scan marks t, h]
    simp only [spell_append, spell_cons, List.cons_append]
    exact List.mem_append_right _ (List.mem_cons_of_mem _ mem)
  by_cases word : kind = .word
  · subst word
    obtain ⟨-, -, units, -, -⟩ := word_of_scan proper.not_word own
    exact .word (List.cons_ne_nil _ _) units
  by_cases quoted : kind = .quoted
  · subst quoted
    obtain ⟨rfl, length⟩ := quoted_of_first proper found
    rw [next] at inside more length
    obtain ⟨body, rfl, units⟩ := closed_of_quotedLength inside more length
    exact .quoted units
  by_cases stray : kind = .stray
  · subst stray
    obtain ⟨-, ends⟩ := stray_of_first proper found
    obtain rfl : s = [] := by
      cases s with
      | nil => rfl
      | cons e s => exact absurd (ends e rfl) (inside e (by simp))
    rw [next] at ends inside
    exact absurd (ends d rfl) (inside d (by simp))
  · exact .ended (ended_of_scan h ⟨word, quoted, stray⟩)

/-- Nothing goes on a lexeme: no blank goes on a run of blanks, and no word goes on a word. -/
def Apart (marks : Marks) (l : Lexeme) (rest : Text) : Prop :=
  (l.1 = .blank → ∀ c ∈ rest.head?, isBlank c = false) ∧ (l.1 = .word → Stops marks rest)

theorem Whole.scan (proper : Proper marks) (h : Whole marks l) (apart : Apart marks l rest) :
    Lexer.scan marks (l.2 ++ rest) = l :: Lexer.scan marks rest := by
  cases h with
  | ended ended =>
    cases ended with
    | blanks nonempty blank => exact Ended.scan (.blanks nonempty blank) (apart.1 rfl)
    | mark inked marked => exact scan_mark marked inked rest
  | word nonempty units =>
    exact Reads.units (unmarked_of_units proper.escape units) nonempty units rest (apart.2 rfl)
  | @quoted body units =>
    have found := first_eq_iff.2 (.quoted (by decide) proper.quote rfl (quotedLength_of_string units rest))
    exact scan_cons_eq_iff.2 ⟨body ++ ['"'], rest, rfl, rfl, found, rfl⟩

theorem Whole.ne_nil (h : Whole marks l) : l.2 ≠ [] := by
  cases h with
  | ended ended => cases ended <;> simp_all
  | word nonempty => exact nonempty
  | quoted => exact List.cons_ne_nil _ _

theorem Whole.ne_stray (proper : Proper marks) (h : Whole marks l) : l.1 ≠ .stray := by
  cases h with
  | ended ended =>
    cases ended with
    | blanks => simp
    | mark inked marked => exact (proper.kinds _ _ marked).2.2.2
  | word => simp
  | quoted => simp

theorem Whole.blank_of_mem (proper : Proper marks) (h : Whole marks l) (run : l.1 = .blank) :
    ∀ c ∈ l.2, isBlank c = true := by
  cases h with
  | ended ended =>
    cases ended with
    | blanks _ blank => exact blank
    | mark _ marked => exact absurd run (proper.kinds _ _ marked).1
  | word => cases run
  | quoted => cases run

/-- A backslash alone is not whole. -/
theorem Whole.ne_backslash (proper : Proper marks) (h : Whole marks l) : l.2 ≠ ['\\'] := by
  obtain ⟨kind, chars⟩ := l
  rintro rfl
  cases h with
  | ended ended =>
    cases ended with
    | blanks nonempty blank =>
      have held := blank '\\' List.mem_cons_self
      revert held
      decide
    | mark inked marked =>
      rw [proper.escape] at marked
      cases marked
  | word nonempty units =>
    cases units with
    | one fits unescaped => exact unescaped rfl

/-- Behind a whole lexeme with which the rest does not go on, the lexemes are those of the rest. -/
theorem scan_append (proper : Proper marks) (inLine : ∀ x ∈ spell (ls ++ [l]), x ≠ '\n')
    (h : scan marks (spell (ls ++ [l])) = ls ++ [l]) (whole : Whole marks l) (apart : Apart marks l rest) :
    scan marks (spell (ls ++ [l]) ++ rest) = ls ++ [l] ++ scan marks rest := by
  obtain ⟨d, s, same⟩ := List.exists_cons_of_ne_nil whole.ne_nil
  have more := whole.ne_backslash proper
  have own := whole.scan proper apart
  rw [spell_append, spell_cons, spell_nil, List.append_nil, same] at h inLine
  rw [same] at more
  rw [spell_append, spell_cons, spell_nil, List.append_nil, List.append_assoc, same, List.cons_append,
    scan_front inLine more h, ← List.cons_append, ← same, own, List.append_assoc, List.singleton_append]

/-- A backslash at the end of a line is a lexeme of its own. -/
theorem scan_lone (proper : Proper marks) (units : Units (isPlain marks) t) :
    ∃ front, scan marks (t ++ ['\\']) = front ++ [(.stray, ['\\'])] := by
  have none : wordLength marks ['\\'] = 0 := wordLength_of_lone (by simp)
  have alone : scan marks ['\\'] = [(.stray, ['\\'])] := by
    refine scan_cons_eq_iff.2 ⟨[], [], rfl, rfl, ?_, by rw [scan]⟩
    exact first_eq_iff.2 (.stray (by decide) proper.escape (by decide) none rfl)
  by_cases empty : t = []
  · exact ⟨[], by rw [empty, List.nil_append, alone, List.nil_append]⟩
  · refine ⟨[(.word, t)], ?_⟩
    rw [scan_units (unmarked_of_units proper.escape units) empty units none, alone]
    rfl

/-- Units of plain characters end with a blank only if that is escaped. -/
theorem escaped_of_units (h : Units (isPlain marks) t) {b : Char} (last : t.getLast? = some b)
    (blank : isBlank b = true) : ∃ w, t = w ++ ['\\', b] ∧ Units (isPlain marks) w := by
  induction h with
  | nil => cases last
  | @one c t fits unescaped units ih =>
    cases t with
    | nil =>
      obtain rfl : c = b := by simpa using last
      simp [isPlain, blank] at fits
    | cons d t =>
      obtain ⟨w, same, word⟩ := ih (by rwa [List.getLast?_cons_cons] at last)
      exact ⟨c :: w, by rw [same]; rfl, .one fits unescaped word⟩
  | @pair c t inLine units ih =>
    cases t with
    | nil =>
      obtain rfl : c = b := by simpa using last
      exact ⟨[], rfl, .nil⟩
    | cons d t =>
      obtain ⟨w, same, word⟩ := ih (by simpa [List.getLast?_cons_cons] using last)
      exact ⟨'\\' :: c :: w, by rw [same]; rfl, .pair inLine word⟩

/-- A whole lexeme that ends with a blank is a run of blanks, or a word whose last character is escaped. -/
theorem Whole.of_blank_last (h : Whole marks l) {b : Char} (last : l.2.getLast? = some b)
    (blank : isBlank b = true) : l.1 = .blank ∨
      ∃ w, l = (.word, w ++ ['\\', b]) ∧ Units (isPlain marks) w := by
  cases h with
  | ended ended =>
    cases ended with
    | blanks => exact .inl rfl
    | @mark c kind inked marked =>
      have own : c = b := Option.some.inj last
      rw [← own, inked] at blank
      cases blank
  | word nonempty units =>
    obtain ⟨w, same, word⟩ := escaped_of_units units last blank
    exact .inr ⟨w, congrArg (Prod.mk _) same, word⟩
  | quoted =>
    have quote : ('"' :: (_ ++ ['"'])).getLast? = some b := last
    rw [← List.cons_append, List.getLast?_concat] at quote
    obtain rfl := Option.some.inj quote
    exact absurd blank (by decide)

/-- Of the blanks behind an escaped one there are none. -/
theorem eq_of_escaped {a : Text} {b : Char} (same : a ++ ['\\', b] = front ++ gap) (filled : gap ≠ [])
    (blank : ∀ c ∈ gap, isBlank c = true) : front = a ++ ['\\'] := by
  rcases List.eq_nil_or_concat' gap with rfl | ⟨gap, c, rfl⟩
  · exact absurd rfl filled
  · rw [← List.append_assoc, List.append_cons] at same
    have parts : a ++ ['\\'] = front ++ gap := (List.append_inj_left' same rfl)
    rcases List.eq_nil_or_concat' gap with rfl | ⟨gap, e, rfl⟩
    · rw [parts, List.append_nil]
    · rw [← List.append_assoc] at parts
      obtain rfl : '\\' = e := List.head_eq_of_cons_eq (List.append_inj_right' parts rfl)
      exact absurd (blank '\\' (by simp)) (by decide)

/-- No run of blanks follows another one. -/
theorem blanks_apart (proper : Proper marks) {ys : List Lexeme} {l' : Lexeme}
    (h : scan marks t = ls ++ l :: l' :: ys) (blank' : l'.1 = .blank) : l.1 ≠ .blank := by
  intro blank
  obtain ⟨kind, s⟩ := l
  obtain ⟨kind', s'⟩ := l'
  obtain rfl : kind = .blank := blank
  obtain rfl : kind' = .blank := blank'
  have first : scan marks (s ++ (s' ++ spell ys)) = (.blank, s) :: (.blank, s') :: ys := scan_back h
  have second : scan marks (s' ++ spell ys) = (.blank, s') :: ys := by
    rw [List.append_cons] at h
    exact scan_back h
  obtain ⟨c, r, rfl⟩ := List.exists_cons_of_ne_nil (scan_ne_nil (second ▸ List.mem_cons_self))
  have inked := (blanks_of_scan proper.not_blank first).2 c rfl
  rw [(blanks_of_scan proper.not_blank second).1 c List.mem_cons_self] at inked
  cases inked

/-- Blanks at the end of a text whose other blanks stand in front of them. -/
theorem exists_gap_of_blanks {a s : Text} (same : a ++ s = front ++ gap) (blank : ∀ c ∈ s, isBlank c = true)
    (inked : ∀ c ∈ front.getLast?, isBlank c = false) : ∃ gap', a = front ++ gap' ∧ gap = gap' ++ s := by
  cases List.append_eq_append_iff.1 same with
  | inr behind =>
    obtain ⟨gap', front', split⟩ := behind
    exact ⟨gap', front', split⟩
  | inl within =>
    obtain ⟨part, front', split⟩ := within
    cases List.eq_nil_or_concat' part with
    | inl empty =>
      rw [empty, List.append_nil] at front'
      rw [empty, List.nil_append] at split
      exact ⟨[], by rw [front', List.append_nil], split.symm⟩
    | inr filled =>
      obtain ⟨part, c, rfl⟩ := filled
      rw [← List.append_assoc] at front'
      have ink := inked c (by rw [front', List.getLast?_concat]; rfl)
      have here : c ∈ s := split ▸ List.mem_append_left _ (List.mem_append_right _ List.mem_cons_self)
      rw [blank c here] at ink
      cases ink

/-- A whole lexeme that ends with blanks and is no run of them is a word whose last character is escaped. -/
theorem Whole.escaped (whole : Whole marks l) {xs : List Lexeme} (same : spell xs ++ l.2 = front ++ gap)
    (filled : gap ≠ []) (blank : ∀ c ∈ gap, isBlank c = true) (other : l.1 ≠ .blank) :
    ∃ w b, l = (.word, w ++ ['\\', b]) ∧ front = spell xs ++ (w ++ ['\\']) ∧ Units (isPlain marks) w := by
  obtain ⟨b, last⟩ : ∃ b, gap.getLast? = some b := ⟨_, List.getLast?_eq_some_getLast filled⟩
  have ends := congrArg List.getLast? same
  rw [List.getLast?_append_of_ne_nil _ whole.ne_nil, List.getLast?_append_of_ne_nil _ filled, last] at ends
  cases whole.of_blank_last ends (blank b (List.mem_of_getLast? last)) with
  | inl run => exact absurd run other
  | inr word =>
    obtain ⟨w, rfl, units⟩ := word
    refine ⟨w, b, rfl, ?_, units⟩
    rw [← List.append_assoc] at same ⊢
    exact eq_of_escaped same filled blank

/-- In front of blanks a line is cut between two lexemes, unless the first of the blanks is escaped. -/
theorem cut_of_blanks (proper : Proper marks) (inLine : ∀ x ∈ front ++ gap ++ rest, x ≠ '\n')
    (inked : ∀ c ∈ front.getLast?, isBlank c = false) (filled : front ≠ []) (blank : ∀ c ∈ gap, isBlank c = true)
    (h : scan marks (front ++ gap ++ rest) = ls ++ ls') (same : spell ls = front ++ gap) (followed : rest ≠ [])
    (more : rest ≠ ['\\']) :
    (∃ xs l ys, ls = xs ++ l :: ys ∧ spell (xs ++ [l]) = front ∧ Whole marks l) ∨
      ∃ xs w b ys, ls = xs ++ (.word, w ++ ['\\', b]) :: ys ∧ front = spell xs ++ (w ++ ['\\']) ∧
        Units (isPlain marks) w := by
  have behind : spell ls' = rest := by
    have parts := congrArg spell h
    rw [spell_scan, spell_append, same] at parts
    exact (List.append_cancel_left parts).symm
  have whole (xs : List Lexeme) (l : Lexeme) (ys : List Lexeme) (split : ls = xs ++ l :: ys) : Whole marks l := by
    have row : scan marks (front ++ gap ++ rest) = xs ++ l :: (ys ++ ls') := by
      rw [h, split, List.append_assoc, List.cons_append]
    apply whole_of_scan proper inLine row
    all_goals rw [spell_append, behind]
    · simp [followed]
    · cases shown : spell ys with
      | nil => exact more
      | cons c s => simp [followed]
  rcases List.eq_nil_or_concat' ls with rfl | ⟨xs, l, rfl⟩
  · exact absurd (List.append_eq_nil_iff.1 same.symm).1 filled
  rw [spell_append, spell_cons, spell_nil, List.append_nil] at same
  by_cases none : gap = []
  · refine .inl ⟨xs, l, [], rfl, ?_, whole xs l [] rfl⟩
    rw [spell_append, spell_cons, spell_nil, List.append_nil, same, none, List.append_nil]
  by_cases run : l.1 = .blank
  · -- the last lexeme is a run of blanks, and the blanks in front of it belong to the lexeme before
    obtain ⟨kind, s⟩ := l
    obtain rfl : kind = .blank := run
    have row : scan marks (front ++ gap ++ rest) = xs ++ (.blank, s) :: ls' := by
      rw [h, List.append_assoc, List.singleton_append]
    have own : scan marks (s ++ spell ls') = (.blank, s) :: ls' := scan_back row
    obtain ⟨gap', front', split⟩ := exists_gap_of_blanks same (blanks_of_scan proper.not_blank own).1 inked
    rcases List.eq_nil_or_concat' xs with rfl | ⟨xs, l', rfl⟩
    · exact absurd (List.append_eq_nil_iff.1 front'.symm).1 filled
    by_cases near : gap' = []
    · refine .inl ⟨xs, l', [(.blank, s)], by simp, ?_, whole xs l' [(.blank, s)] (by simp)⟩
      rw [front', near, List.append_nil]
    · have apart : l'.1 ≠ .blank := blanks_apart proper (row.trans (List.append_assoc ..)) rfl
      have shown : spell xs ++ l'.2 = front ++ gap' := by simpa using front'
      have blank' : ∀ c ∈ gap', isBlank c = true := fun c mem => blank c (split ▸ List.mem_append_left _ mem)
      obtain ⟨w, b, rfl, cut, units⟩ := (whole xs l' [(.blank, s)] (by simp)).escaped shown near blank' apart
      exact .inr ⟨xs, w, b, [(.blank, s)], by simp, cut, units⟩
  · obtain ⟨w, b, rfl, cut, units⟩ := (whole xs l [] rfl).escaped same none blank run
    exact .inr ⟨xs, w, b, [], rfl, cut, units⟩

/-- The kinds and the characters of tokens are those of their lexemes. -/
theorem lexemes_place (n : Nat) (line : Text) (ls : List Lexeme) :
    (place n line ls).map (fun t => (t.kind, t.masked)) = ls := by
  induction ls generalizing n line with
  | nil => rfl
  | cons l ls ih => rw [place, List.map_cons, ih]

theorem getLast?_tokens (marks : Marks) (t : Text) :
    (tokens marks t).getLast?.map (fun t => (t.kind, t.masked)) = (scan marks (Text.mask t)).getLast? := by
  rw [← List.getLast?_map, tokens, lexemes_place]

end Lexer

end Typeahead
