import Typeahead.Proofs.Logs.Quoted
import Typeahead.Proofs.Logs.Spaced
import Typeahead.Proofs.Token.Tiled

/-!
Which quoted strings are left open. The test looks at the characters that are written, from the end of the string; the
lexer reads those that are masked, from its beginning. Both agree, since no placeholder ends with a quote or a
backslash, so that what stands at the end of a string is hidden from neither of them.

- `Text.Masks`, `Text.masks_mask`, `masks_written`: what a masked text says of the quotes and backslashes in a text.
- `Lexer.exists_body`: how a quoted string is read, and what stands behind one that is not closed.
- `isClosedString_written_eq_false_iff`: the test finds the strings that are left open.
- `isClosedString_iff_closed`: the test finds the strings that are closed, and no part of one passes for it.
-/

namespace Typeahead

namespace Text

variable {t m a b a' b' : Text} {covered i : Nat} {c d : Char}

/-- A placeholder is a part of its text, and it ends with no quote and no backslash. -/
theorem placeholder_ends {n : Nat} (length : placeholderLength (d :: t) = n + 1) :
    n ≤ t.length ∧ ∀ c ∈ (t.take n).getLast?, c ≠ '\\' ∧ c ≠ '"' := by
  obtain ⟨p, rest, parts, size, placeholder⟩ := exists_placeholder (t := d :: t) (by omega)
  have long := congrArg List.length parts
  rw [List.length_cons, List.length_append] at long
  refine ⟨by omega, fun c last => ?_⟩
  have whole : (d :: t).take (n + 1) = p := by rw [parts, ← length, ← size, List.take_left]
  have ends : p.getLast? = some c := by
    rw [← whole, List.take_succ_cons, List.getLast?_cons, Option.mem_def.1 last]
    rfl
  rcases placeholder.last ends with rfl | rfl | named
  · decide
  · decide
  · constructor <;> rintro rfl <;> revert named <;> decide

/-- A quote or a backslash that is masked is followed by what is masked with it. The induction is on the text, whose
first `covered` characters belong to a placeholder. -/
theorem maskFrom_next (within : covered ≤ t.length) (ends : ∀ c ∈ (t.take covered).getLast?, c ≠ '\\' ∧ c ≠ '"')
    (there : t[i]? = some c) (marked : c = '\\' ∨ c = '"') (hidden : (maskFrom covered t)[i]? = some 'x') :
    (maskFrom covered t)[i + 1]? = some 'x' := by
  induction t generalizing covered i with
  | nil => cases there
  | cons d t ih =>
    have same (zero : i = 0) : d = c := by
      subst zero
      exact Option.some.inj there
    cases covered with
    | succ n =>
      rw [List.length_cons] at within
      rw [List.take_succ_cons, List.getLast?_cons] at ends
      cases i with
      | zero =>
        obtain rfl := same rfl
        cases n with
        | zero => exact absurd marked (not_or.2 (ends d rfl))
        | succ n =>
          have filled : 0 < t.length := by omega
          exact maskFrom_covered (Nat.succ_lt_succ (Nat.succ_pos n)) (Nat.succ_lt_succ filled)
      | succ i =>
        refine ih (Nat.le_of_succ_le_succ within) (fun c last => ends c ?_) there hidden
        rw [Option.mem_def.1 last]
        rfl
    | zero =>
      simp only [maskFrom] at hidden ⊢
      cases length : placeholderLength (d :: t) with
      | zero =>
        simp only [length] at hidden ⊢
        cases i with
        | zero =>
          obtain rfl := same rfl
          obtain rfl := Option.some.inj hidden
          exact absurd marked (by decide)
        | succ i => exact ih (Nat.zero_le _) (by simp) there hidden
      | succ n =>
        simp only [length] at hidden ⊢
        cases i with
        | zero =>
          obtain rfl := same rfl
          have plain : d ≠ '$' ∧ d ≠ '[' := by rcases marked with rfl | rfl <;> decide
          rw [placeholderLength_of_plain plain.1 plain.2] at length
          cases length
        | succ i =>
          obtain ⟨long, ends⟩ := placeholder_ends length
          exact ih long ends there hidden

/-- A text is masked as another one: each character stays or is the letter, and of those that are masked in a row the
last one is no quote and no backslash. -/
structure Masks (t m : Text) : Prop where
  length : m.length = t.length
  shown (i : Nat) (c : Char) (there : m[i]? = some c) : c = 'x' ∨ t[i]? = some c
  hidden (i : Nat) (c : Char) (there : t[i]? = some c) (marked : c = '\\' ∨ c = '"') :
    m[i]? = some c ∨ m[i + 1]? = some 'x'

theorem masks_mask (t : Text) : Masks t (mask t) where
  length := length_mask t
  shown := maskFrom_eq_or 0 t
  hidden i c there marked := by
    obtain ⟨d, masked, rfl | rfl⟩ := exists_masked there
    · exact .inr (maskFrom_next (Nat.zero_le _) (by simp) there marked masked)
    · exact .inl masked

namespace Masks

theorem tail (h : Masks (c :: t) (d :: m)) : Masks t m where
  length := Nat.succ.inj h.length
  shown i := h.shown (i + 1)
  hidden i := h.hidden (i + 1)

/-- A part of a text is masked as the part of the masked text, if nothing is masked at its end or right behind it. -/
theorem part (h : Masks (a ++ (t ++ b)) (a' ++ (m ++ b'))) (front : a'.length = a.length) (length : m.length = t.length)
    (ends : m.getLast? ≠ some 'x' ∨ b'.head? ≠ some 'x') : Masks t m := by
  have inner {u v w : Text} {i : Nat} (within : i < v.length) : (u ++ (v ++ w))[u.length + i]? = v[i]? := by
    rw [List.getElem?_append_right (Nat.le_add_right ..), Nat.add_sub_cancel_left, List.getElem?_append_left within]
  have shows (i : Nat) (c : Char) (there : m[i]? = some c) : c = 'x' ∨ t[i]? = some c := by
    have within := (List.getElem?_eq_some_iff.1 there).1
    have shown := h.shown (a'.length + i) c (by rw [inner within, there])
    rwa [front, inner (length ▸ within)] at shown
  refine ⟨length, shows, fun i c there marked => ?_⟩
  have within : i < m.length := length ▸ (List.getElem?_eq_some_iff.1 there).1
  have hidden := h.hidden (a.length + i) c (by rw [inner (length ▸ within), there]) marked
  rw [← front, inner within, Nat.add_assoc] at hidden
  rcases hidden with same | next
  · exact .inl same
  by_cases further : i + 1 < m.length
  · rw [inner further] at next
    exact .inr next
  · have stop : i + 1 = m.length := by omega
    have masked : m[i]? = some m[i] := List.getElem?_eq_getElem within
    rcases ends with shown | unmasked
    · have last : m.getLast? = some m[i] := by rw [List.getLast?_eq_getElem?, ← stop, Nat.add_sub_cancel, masked]
      rcases shows i _ masked with letter | own
      · exact absurd (last.trans (congrArg some letter)) shown
      · exact .inl (masked.trans (own.symm.trans there))
    · rw [stop, List.getElem?_append_right (Nat.le_add_right ..), Nat.add_sub_cancel_left,
        List.getElem?_append_right (Nat.le_refl _), Nat.sub_self, ← List.head?_eq_getElem?] at next
      exact absurd next unmasked

/-- In front of a character that is not masked all backslashes are shown. -/
theorem length_trailing (h : Masks t m) {n : Nat} (within : n < m.length) (shown : m[n]? ≠ some 'x') :
    (trailing (· = '\\') (m.take n)).length = (trailing (· = '\\') (t.take n)).length := by
  induction n with
  | zero => rfl
  | succ n ih =>
    have escaped {s : Text} (last : s[n]? = some '\\') : (trailing (· = '\\') (s.take (n + 1))).length =
        (trailing (· = '\\') (s.take n)).length + 1 := by
      rw [List.take_add_one, last, Option.toList_some, trailing_append_run (by simp), List.length_append,
        List.length_singleton]
    have other {s : Text} {d : Char} (last : s[n]? = some d) (unescaped : d ≠ '\\') :
        trailing (· = '\\') (s.take (n + 1)) = [] := by
      rw [List.take_add_one, last, Option.toList_some]
      exact trailing_eq_nil (by simpa using unescaped)
    have inText : n < t.length := h.length ▸ Nat.lt_of_succ_lt within
    have written : t[n]? = some t[n] := List.getElem?_eq_getElem inText
    by_cases escape : m[n]? = some '\\'
    · have same := (h.shown n _ escape).resolve_left (by decide)
      rw [escaped escape, escaped same, ih (Nat.lt_of_succ_lt within) (by rw [escape]; decide)]
    · have unescaped : t[n] ≠ '\\' := by
        intro same
        rw [same] at written
        exact (h.hidden n _ written (.inl rfl)).elim escape shown
      obtain ⟨d, masked⟩ : ∃ d, m[n]? = some d := ⟨_, List.getElem?_eq_getElem (Nat.lt_of_succ_lt within)⟩
      have apart : d ≠ '\\' := fun same => escape (masked.trans (congrArg some same))
      rw [other masked apart, other written unescaped]

/-- The test for closed strings says the same of a text and of how it is masked. -/
theorem isClosedString_eq (h : Masks (c :: t) (d :: m)) :
    Logs.isClosedString (c :: t) = Logs.isClosedString (d :: m) := by
  have inner := h.tail
  by_cases closes : m.getLast? = some '"'
  · have there : m[m.length - 1]? = some '"' := by rw [← List.getLast?_eq_getElem?, closes]
    have written : t.getLast? = some '"' := by
      rw [List.getLast?_eq_getElem?, ← inner.length]
      exact (inner.shown _ _ there).resolve_left (by decide)
    have run := inner.length_trailing (List.getElem?_eq_some_iff.1 there).1 (by rw [there]; decide)
    simp only [Logs.isClosedString, closes, written, List.dropLast_eq_take, ← inner.length, run]
  · have written : t.getLast? ≠ some '"' := by
      intro last
      rw [List.getLast?_eq_getElem?, ← inner.length] at last
      rcases inner.hidden _ _ last (.inr rfl) with same | next
      · exact closes (List.getLast?_eq_getElem?.trans same)
      · have within := (List.getElem?_eq_some_iff.1 next).1
        omega
    simp [Logs.isClosedString, closes, written]

end Masks

end Text

namespace Lexer

variable {marks : Marks} {t s : Text} {ls ls' : List Lexeme}

/-- A quoted string does not reach over the end of its line. -/
theorem inLine_of_quotedLength (t : Text) : ∀ c ∈ t.take (quotedLength t), c ≠ '\n' := by
  fun_induction quotedLength t with
  | case1 | case2 | case3 | case5 => simp
  | case4 c rest inside ih =>
    rw [List.take_succ_cons, List.take_succ_cons]
    exact List.forall_mem_cons.2 ⟨by decide, List.forall_mem_cons.2 ⟨inside, ih⟩⟩
  | case6 c rest _ _ inside ih =>
    rw [List.take_succ_cons]
    simp only [Bool.or_eq_true, decide_eq_true_eq, not_or] at inside
    exact List.forall_mem_cons.2 ⟨inside.2, ih⟩

/-- A quoted string is a quote with units behind it. Either another quote closes it, or its line ends. -/
theorem exists_body (proper : Proper marks) (scanned : scan marks t = ls ++ (.quoted, s) :: ls') :
    ∃ body, Units isBody body ∧ (s = '"' :: (body ++ ['"']) ∨ s = '"' :: body ∧ (spell ls').head? ≠ some 'x') := by
  have mem : (.quoted, s) ∈ scan marks t := scanned ▸ List.mem_append_right ls List.mem_cons_self
  obtain ⟨c, rest, rfl⟩ := List.exists_cons_of_ne_nil (scan_ne_nil mem)
  have own : scan marks (c :: (rest ++ spell ls')) = (.quoted, c :: rest) :: ls' := scan_back scanned
  obtain ⟨s', rest', same, split, found, -⟩ := scan_cons_eq_iff.1 own
  obtain rfl : rest = s' := List.tail_eq_of_cons_eq same
  obtain rfl : spell ls' = rest' := List.append_cancel_left split
  obtain ⟨rfl, length⟩ := quoted_of_first proper found
  have inLine : ∀ x ∈ rest, x ≠ '\n' := by
    have inside := inLine_of_quotedLength (rest ++ spell ls')
    rwa [length, List.take_left] at inside
  rcases body_of_quotedLength inLine length with units | ⟨body, rfl, units⟩
  · refine ⟨rest, units, .inr ⟨rfl, fun goesOn => ?_⟩⟩
    obtain ⟨more, next⟩ := List.head?_eq_some_iff.1 goesOn
    rw [quotedLength_append units, next, quotedLength_of_body (by decide) (by decide)] at length
    omega
  · exact ⟨body, units, .inl rfl⟩

end Lexer

/-- A token is masked as a part of its line, if nothing is masked at its end or right behind it. -/
theorem masks_written {marks : Marks} {line : Text} {t : Token} (mem : t ∈ tokens marks line)
    (ends : t.masked.getLast? ≠ some 'x' ∨ (line.mask.drop t.stop).head? ≠ some 'x') :
    Text.Masks t.written t.masked := by
  have whole := Text.masks_mask line
  rw [← take_masked_drop mem] at whole
  nth_rewrite 1 [← take_written_drop mem] at whole
  have front : (line.mask.take t.start).length = (line.take t.start).length := by
    rw [List.length_take, List.length_take, Text.length_mask]
  exact whole.part front (length_written mem).symm ends

namespace Logs

/-- A quoted string is left open: behind its opening quote come characters and escape pairs, and no quote closes it. -/
def Unclosed (t : Token) : Prop := ∃ body, t.masked = '"' :: body ∧ Units Lexer.isBody body

/-- A quoted string is closed: behind its opening quote come characters and escape pairs, and behind them the quote that
closes it. -/
def Closed (t : Token) : Prop := ∃ body, Units Lexer.isBody body ∧ t.masked = '"' :: (body ++ ['"'])

variable {line : Text} {t : Token}

theorem Unclosed.isClosedString_masked (h : Unclosed t) : isClosedString t.masked = false := by
  obtain ⟨body, same, units⟩ := h
  rw [same, isClosedString_eq_false units]

theorem Closed.isClosedString_masked (h : Closed t) : isClosedString t.masked = true := by
  obtain ⟨body, units, same⟩ := h
  rw [same, isClosedString_of_units units]

/-- A quoted string is closed, or left open where its line ends. -/
theorem closed_or_unclosed (mem : t ∈ tokens logsMarks line) (quoted : t.kind = .quoted) :
    Closed t ∨ Unclosed t ∧ (line.mask.drop t.stop).head? ≠ some 'x' := by
  obtain ⟨before, after, scanned, -, behind⟩ := exists_lexeme mem
  rw [quoted] at scanned
  obtain ⟨body, units, closed | ⟨same, ends⟩⟩ := Lexer.exists_body Lexer.proper_logsMarks scanned
  · exact .inl ⟨body, units, closed⟩
  · exact .inr ⟨⟨body, same, units⟩, behind ▸ ends⟩

theorem isClosedString_masked_eq_false_iff (mem : t ∈ tokens logsMarks line) (quoted : t.kind = .quoted) :
    isClosedString t.masked = false ↔ Unclosed t := by
  constructor
  · intro opened
    cases closed_or_unclosed mem quoted with
    | inl closed => cases opened.symm.trans closed.isClosedString_masked
    | inr unclosed => exact unclosed.1
  · exact Unclosed.isClosedString_masked

/-- The characters that are written at the end of a quoted string show whether it is left open. -/
theorem isClosedString_written_eq_false_iff (mem : t ∈ tokens logsMarks line) (quoted : t.kind = .quoted) :
    isClosedString t.written = false ↔ Unclosed t := by
  rw [← isClosedString_masked_eq_false_iff mem quoted]
  have ends : t.masked.getLast? ≠ some 'x' ∨ (line.mask.drop t.stop).head? ≠ some 'x' := by
    refine (closed_or_unclosed mem quoted).imp (fun ⟨body, _, closed⟩ => ?_) And.right
    rw [closed, ← List.cons_append, List.getLast?_concat]
    decide
  obtain ⟨c, written, writes⟩ := List.exists_cons_of_ne_nil (written_ne_nil mem)
  obtain ⟨d, masked, reads⟩ := List.exists_cons_of_ne_nil (masked_ne_nil mem)
  have masks := masks_written mem ends
  rw [writes, reads] at masks ⊢
  rw [masks.isClosedString_eq]

/-- A quoted string is closed or left open, and not both. -/
theorem closed_iff_not_unclosed (mem : t ∈ tokens logsMarks line) (quoted : t.kind = .quoted) :
    Closed t ↔ ¬Unclosed t := by
  constructor
  · intro closed opened
    cases opened.isClosedString_masked.symm.trans closed.isClosedString_masked
  · intro closed
    exact (closed_or_unclosed mem quoted).resolve_right fun opened => closed opened.1

/-- What is cut off behind its closing quote, or in front of it, is not closed. -/
theorem isClosedString_take_eq_false {body : Text} (units : Units Lexer.isBody body) (n : Nat) :
    isClosedString (('"' :: body).take n) = false := by
  cases n with
  | zero => rfl
  | succ n =>
    rw [List.take_succ_cons]
    cases units.take_cases n with
    | inl units => exact isClosedString_eq_false units
    | inr split =>
      obtain ⟨s, same, -⟩ := split
      simp [isClosedString, same]

theorem isClosedString_take_iff (mem : t ∈ tokens logsMarks line) (quoted : t.kind = .quoted) (n : Nat) :
    isClosedString (t.masked.take n) = true ↔ Closed t ∧ t.masked.length ≤ n := by
  by_cases closed : Closed t
  · obtain ⟨body, units, same⟩ := id closed
    by_cases whole : t.masked.length ≤ n
    · rw [List.take_of_length_le whole, closed.isClosedString_masked]
      exact iff_of_true rfl ⟨closed, whole⟩
    · -- the cut stands in front of the closing quote
      have inside : n ≤ ('"' :: body).length := by
        rw [same, ← List.cons_append, List.length_append, List.length_singleton] at whole
        omega
      rw [same, ← List.cons_append, List.take_append_of_le_length inside, isClosedString_take_eq_false units,
        List.cons_append, ← same]
      exact iff_of_false Bool.false_ne_true fun held => whole held.2
  · obtain ⟨body, same, units⟩ := not_not.1 (mt (closed_iff_not_unclosed mem quoted).2 closed)
    rw [same, isClosedString_take_eq_false units]
    exact iff_of_false Bool.false_ne_true fun held => closed held.1

/-- The test that looks at a quoted string from its end agrees with the lexer, which reads it from its beginning: be it
taken as it is masked or as it is written, the string passes if and only if it is closed; and of what stands of it in
front of a position nothing passes but the whole closed string. -/
theorem isClosedString_iff_closed (mem : t ∈ tokens logsMarks line) (quoted : t.kind = .quoted) :
    (isClosedString t.masked = true ↔ Closed t) ∧ (isClosedString t.written = true ↔ Closed t) ∧
      ∀ position, isClosedString (t.masked.take (position - t.start)) = true ↔ Closed t ∧ t.stop ≤ position := by
  have starts : t.start < t.stop := Nat.lt_add_of_pos_right (List.length_pos_iff.2 (masked_ne_nil mem))
  refine ⟨?_, ?_, ?_⟩
  · rw [closed_iff_not_unclosed mem quoted, ← isClosedString_masked_eq_false_iff mem quoted, Bool.not_eq_false]
  · rw [closed_iff_not_unclosed mem quoted, ← isClosedString_written_eq_false_iff mem quoted, Bool.not_eq_false]
  · intro position
    rw [isClosedString_take_iff mem quoted]
    have reached : t.masked.length ≤ position - t.start ↔ t.stop ≤ position := by
      rw [Token.stop] at starts ⊢
      omega
    rw [reached]

/-- An escaped quote does not close a string, and a quote behind two backslashes does. -/
theorem isClosedString_iff_closed_backslashes :
    let line := "a:\"\\\"\\\\\"".toList
    let t : Token := ⟨.quoted, 2, line.drop 2, line.drop 2⟩
    (t ∈ tokens logsMarks line ∧ t.kind = .quoted) ∧
      (isClosedString t.masked = true ↔ Closed t) ∧ (isClosedString t.written = true ↔ Closed t) ∧
        ∀ position, isClosedString (t.masked.take (position - t.start)) = true ↔ Closed t ∧ t.stop ≤ position :=
  have mem : (⟨.quoted, 2, "\"\\\"\\\\\"".toList, "\"\\\"\\\\\"".toList⟩ : Token) ∈
      tokens logsMarks "a:\"\\\"\\\\\"".toList := by decide +kernel
  ⟨⟨mem, rfl⟩, isClosedString_iff_closed mem rfl⟩

end Logs

end Typeahead
