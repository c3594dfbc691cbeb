import Mathlib.Data.List.Chain
import Typeahead.Proofs.Token.Boundaries
import Typeahead.Proofs.Token.Typed
import Typeahead.Reading

/-!
The tokens of a line lie side by side and leave nothing of it out, and a mark is written as the character that it is.

- `writing_tokens`, `start_eq`: the tokens of a line, one after the other, are the line, and each stands where those
  before it end.
- `masked_of_mark`, `written_of_mark`: what is read of a mark, and what is written there.
- `stray_tokens`: a backslash is a token of its own only where a line ends.
- `tokens_tile`: the tokens of a line tile it, whatever the line is.
-/

namespace Typeahead

/-- What is written in some tokens, one after the other. -/
def writing (ts : List Token) : Text := (ts.map (·.written)).flatten

@[simp] theorem writing_nil : writing [] = [] := rfl

@[simp] theorem writing_cons (t : Token) (ts : List Token) : writing (t :: ts) = t.written ++ writing ts := rfl

@[simp] theorem writing_append (ts us : List Token) : writing (ts ++ us) = writing ts ++ writing us := by
  simp [writing]

namespace Lexer

theorem writing_place (n : Nat) {line : Text} {ls : List Lexeme} (within : (spell ls).length ≤ line.length) :
    writing (place n line ls) = line.take (spell ls).length := by
  induction ls generalizing n line with
  | nil => rfl
  | cons l ls ih =>
    rw [spell_cons, List.length_append] at within
    have behind : (spell ls).length ≤ (line.drop l.2.length).length := by
      rw [List.length_drop]
      omega
    have later := ih (n + l.2.length) behind
    rw [place, writing_cons, later, spell_cons, List.length_append, List.take_add]

/-- Marks each of which is a character of its own, and none the letter that masks. -/
structure Single (marks : Marks) : Prop extends Proper marks where
  unique : ∀ c d kind, marks c = some kind → marks d = some kind → c = d
  letter : marks 'x' = none

theorem single_metricsMarks : Single metricsMarks := by
  refine ⟨proper_metricsMarks, fun c d kind marked same => ?_, rfl⟩
  unfold metricsMarks at marked same
  split at marked <;> cases marked <;> split at same <;> cases same <;> rfl

theorem single_logsMarks : Single logsMarks := by
  refine ⟨proper_logsMarks, fun c d kind marked same => ?_, rfl⟩
  unfold logsMarks at marked same
  split at marked <;> cases marked <;> split at same <;> cases same <;> rfl

end Lexer

theorem Language.proper_marks (language : Language) : Lexer.Proper language.marks := by
  cases language with
  | metrics => exact Lexer.proper_metricsMarks
  | logs => exact Lexer.proper_logsMarks

variable {marks : Marks} {line : Text} {t : Token}

/-- The tokens of a line, one after the other, are the line. -/
theorem writing_tokens (marks : Marks) (line : Text) : writing (tokens marks line) = line := by
  have length : (Lexer.spell (Lexer.scan marks line.mask)).length = line.length := by
    rw [Lexer.spell_scan, Text.length_mask]
  rw [tokens, Lexer.writing_place 0 (Nat.le_of_eq length), length, List.take_length]

/-- A token stands where those before it end. -/
theorem start_eq {us vs : List Token} (same : tokens marks line = us ++ t :: vs) :
    t.start = (writing us).length := by
  obtain ⟨ls, ls', scanned, rfl, later⟩ := Lexer.place_eq_append same
  have length : (Lexer.spell (ls ++ ls')).length = line.length := by
    rw [← scanned, Lexer.spell_scan, Text.length_mask]
  rw [Lexer.spell_append, List.length_append] at length
  rw [Lexer.writing_place 0 (by omega), List.length_take, Nat.min_eq_left (by omega)]
  cases ls' with
  | nil => cases later
  | cons l ls' =>
    obtain ⟨rfl, -⟩ := List.cons.inj later
    exact Nat.zero_add _

/-- A token starts behind those in front of it. -/
theorem start_lt_of_tokens {us vs : List Token} (same : tokens marks line = us ++ t :: vs) :
    ∀ u ∈ us, u.start < t.start := by
  intro u mem
  obtain ⟨ls, ls', scanned, rfl, later⟩ := Lexer.place_eq_append same
  cases ls' with
  | nil => cases later
  | cons l ls' =>
    have inked : ∀ l ∈ ls, l.2 ≠ [] := fun l among => Lexer.scan_ne_nil (scanned ▸ List.mem_append_left _ among)
    have before := Lexer.start_lt_of_mem_place inked mem
    rw [(List.cons.inj later).1]
    exact before

/-- The tokens of a line start one behind the other. -/
theorem pairwise_tokens (marks : Marks) (line : Text) :
    (tokens marks line).Pairwise fun t u => t.start < u.start := by
  rw [List.pairwise_iff_getElem]
  intro i j _ within lt
  have split : tokens marks line = (tokens marks line).take j ++ (tokens marks line)[j] ::
      (tokens marks line).drop (j + 1) := by simp
  apply start_lt_of_tokens split
  exact List.mem_take_iff_getElem.2 ⟨i, by omega, rfl⟩

/-- What starts behind a token stands behind it. -/
theorem mem_after_of_start_lt {f : Focus} (there : f ∈ focuses (tokens marks line)) (mem : t ∈ tokens marks line)
    (behind : f.token.start < t.start) : t ∈ f.after := by
  obtain ⟨passed, whole, -⟩ := mem_focusesFrom there
  have before := start_lt_of_tokens whole
  rw [whole] at mem
  rcases List.mem_append.1 mem with front | here
  · have earlier := before t front
    omega
  · rcases List.mem_cons.1 here with rfl | later
    · omega
    · exact later

theorem length_written (mem : t ∈ tokens marks line) : t.written.length = t.masked.length := by
  have stop := (Lexer.start_of_mem_place mem).2
  rw [Lexer.spell_scan, Text.length_mask, Nat.zero_add] at stop
  rw [written_eq_slice mem, Text.slice, List.length_drop, List.length_take, Nat.min_eq_left stop, Token.stop,
    Nat.add_sub_cancel_left]

/-- A token is a part of its line. -/
theorem take_written_drop (mem : t ∈ tokens marks line) :
    line.take t.start ++ (t.written ++ line.drop t.stop) = line := by
  have begins : t.start ≤ t.stop := Nat.le_add_right ..
  have front : line.take t.start ++ t.written = line.take t.stop := by
    rw [written_eq_slice mem, Text.slice, ← Nat.min_eq_left begins, ← List.take_take, Nat.min_eq_left begins,
      List.take_append_drop]
  rw [← List.append_assoc, front, List.take_append_drop]

/-- The lexeme of a token: those in front of it spell the masked line up to where it starts, and those behind it what
comes where it stops. -/
theorem exists_lexeme (mem : t ∈ tokens marks line) : ∃ before after,
    Lexer.scan marks line.mask = before ++ (t.kind, t.masked) :: after ∧
      line.mask.take t.start = Lexer.spell before ∧ line.mask.drop t.stop = Lexer.spell after := by
  obtain ⟨before, after, scanned, start⟩ := Lexer.mem_place mem
  have whole := Lexer.spell_scan marks line.mask
  rw [scanned, Lexer.spell_append, Lexer.spell_cons] at whole
  rw [Nat.zero_add] at start
  refine ⟨before, after, scanned, by rw [← whole, start, List.take_left], ?_⟩
  rw [← whole, Token.stop, start, ← List.append_assoc, ← List.length_append, List.drop_left]

/-- A token is masked as it is in the masked line. -/
theorem take_masked_drop (mem : t ∈ tokens marks line) :
    line.mask.take t.start ++ (t.masked ++ line.mask.drop t.stop) = line.mask := by
  obtain ⟨before, after, scanned, front, behind⟩ := exists_lexeme mem
  have whole := Lexer.spell_scan marks line.mask
  rw [front, behind]
  rwa [scanned, Lexer.spell_append, Lexer.spell_cons] at whole

theorem masked_ne_nil (mem : t ∈ tokens marks line) : t.masked ≠ [] := by
  obtain ⟨before, after, scanned, -⟩ := exists_lexeme mem
  exact Lexer.scan_ne_nil (scanned ▸ List.mem_append_right before List.mem_cons_self : (t.kind, t.masked) ∈ _)

theorem written_ne_nil (mem : t ∈ tokens marks line) : t.written ≠ [] := by
  rw [← List.length_pos_iff, length_written mem, List.length_pos_iff]
  exact masked_ne_nil mem

/-- The first character of a token stands in the masked line where the token starts. -/
theorem getElem?_mask_start (mem : t ∈ tokens marks line) {c : Char} (first : t.masked.head? = some c) :
    line.mask[t.start]? = some c := by
  have within : t.start ≤ line.mask.length := by
    have stop := (Lexer.start_of_mem_place mem).2
    rw [Lexer.spell_scan, Token.stop] at stop
    omega
  have start : (line.mask.take t.start).length = t.start := by rw [List.length_take, Nat.min_eq_left within]
  rw [← take_masked_drop mem, List.getElem?_append_right (Nat.le_of_eq start), start, Nat.sub_self,
    ← List.head?_eq_getElem?, List.head?_append, first, Option.some_or]

/-- The same of the line as it is written, but for the letter that masks. -/
theorem getElem?_start {text : Text} (mem : t ∈ tokens marks text) {c : Char} (first : t.masked.head? = some c)
    (other : c ≠ 'x') : text[t.start]? = some c :=
  (Text.maskFrom_eq_or 0 text t.start c (getElem?_mask_start mem first)).resolve_left other

/-- A mark is read from its character alone. -/
theorem masked_of_mark (single : Lexer.Single marks) {c : Char} {kind : TokenKind} (marked : marks c = some kind)
    (mem : t ∈ tokens marks line) (is : t.kind = kind) : t.masked = [c] := by
  subst is
  obtain ⟨before, after, scanned, -⟩ := exists_lexeme mem
  obtain ⟨notBlank, own⟩ := single.kinds c t.kind marked
  have ended : Lexer.Ended marks (t.kind, t.masked) := Lexer.ended_of_scan scanned own
  generalize t.kind = kind at ended marked notBlank
  generalize t.masked = masked at ended ⊢
  cases ended with
  | blanks => exact absurd rfl notBlank
  | @mark d _ _ marked' => rw [single.unique d c kind marked' marked]

/-- What is masked as a single character, and not as the letter, is written as that character. -/
theorem written_of_singleton (mem : t ∈ tokens marks line) {c : Char} (masked : t.masked = [c]) (other : c ≠ 'x') :
    t.written = [c] := by
  have there := getElem?_start mem (by rw [masked]; rfl) other
  have stop : t.stop = t.start + 1 := by rw [Token.stop, masked, List.length_singleton]
  rw [written_eq_slice mem, stop, Text.slice, List.take_add_one, there, List.drop_append]
  have within := (List.getElem?_eq_some_iff.1 there).1
  simp [Nat.le_of_lt within]

/-- A mark is written as its character. -/
theorem written_of_mark (single : Lexer.Single marks) {c : Char} {kind : TokenKind} (marked : marks c = some kind)
    (mem : t ∈ tokens marks line) (is : t.kind = kind) : t.written = [c] := by
  apply written_of_singleton mem (masked_of_mark single marked mem is)
  rintro rfl
  cases single.letter.symm.trans marked

/-! ### The tiling -/

namespace Lexer

variable {text : Text}

/-- Each lexeme has its place where the one before it ends. -/
theorem isChain_place (n : Nat) (line : Text) (ls : List Lexeme) :
    (place n line ls).IsChain fun t u => t.stop = u.start := by
  induction ls generalizing n line with
  | nil => exact .nil
  | cons l ls ih =>
    cases ls with
    | nil => exact .singleton _
    | cons l' ls => exact .cons_cons rfl (ih _ _)

/-- No run of blanks follows another one, and no word follows a word. -/
theorem isChain_scan (proper : Proper marks) (text : Text) : (scan marks text).IsChain fun l l' =>
    ¬(l.1 = .blank ∧ l'.1 = .blank) ∧ ¬(l.1 = .word ∧ l'.1 = .word) := by
  rw [List.isChain_iff_forall_rel_of_append_cons_cons]
  intro l l' ls ls' same
  constructor
  · rintro ⟨blank, blank'⟩
    exact blanks_apart proper same blank' blank
  · rintro ⟨word, word'⟩
    exact words_apart proper.not_word same word word'

/-- A stray lexeme is a backslash, and behind it the line ends. -/
theorem stray_of_scan (proper : Proper marks) {ls ls' : List Lexeme} {s : Text}
    (scanned : scan marks text = ls ++ (.stray, s) :: ls') : s = ['\\'] ∧ ∀ d ∈ (spell ls').head?, d = '\n' := by
  have single : s.length = 1 := length_of_scan scanned ⟨nofun, nofun, nofun⟩
  obtain ⟨c, rfl⟩ := List.length_eq_one_iff.1 single
  have own : scan marks (c :: spell ls') = (.stray, [c]) :: ls' := scan_back scanned
  obtain ⟨s, rest, same, split, found, -⟩ := scan_cons_eq_iff.1 own
  obtain ⟨rfl, ends⟩ := stray_of_first proper found
  exact ⟨rfl, ends⟩

end Lexer

/-- A backslash is a token of its own only at the end of a line. -/
theorem stray_tokens {text : Text} (proper : Lexer.Proper marks) (mem : t ∈ tokens marks text)
    (stray : t.kind = .stray) : t.written = ['\\'] ∧ (t.stop = text.length ∨ text[t.stop]? = some '\n') := by
  obtain ⟨before, after, scanned, -, behind⟩ := exists_lexeme mem
  rw [stray] at scanned
  obtain ⟨masked, ends⟩ := Lexer.stray_of_scan proper scanned
  refine ⟨written_of_singleton mem masked (by decide), ?_⟩
  rw [← behind, List.head?_drop] at ends
  cases next : text.mask[t.stop]? with
  | none =>
    have beyond := List.getElem?_eq_none_iff.1 next
    have within := (Lexer.start_of_mem_place mem).2
    rw [Lexer.spell_scan] at within
    rw [Text.length_mask] at beyond within
    exact .inl (by omega)
  | some d =>
    obtain rfl := ends d next
    exact .inr ((Text.maskFrom_eq_or 0 text t.stop _ next).resolve_left (by decide))

/-- Tokens tile a line: they lie in it side by side, from its beginning to its end. -/
structure Tiles (text : Text) (ts : List Token) : Prop where
  filled : ∀ t ∈ ts, t.start < t.stop
  begins : ∀ t ∈ ts.head?, t.start = 0
  joined : ts.IsChain fun t u => t.stop = u.start
  /-- The last token ends with the line, and an empty line has no tokens. -/
  ends : (ts.getLast?.map Token.stop).getD 0 = text.length
  masked : (ts.map (·.masked)).flatten = text.mask
  written : ∀ t ∈ ts, t.written = text.slice t.start t.stop
  /-- Runs of blanks and words are as long as they can be. -/
  apart : ts.IsChain fun t u => ¬(t.kind = .blank ∧ u.kind = .blank) ∧ ¬(t.kind = .word ∧ u.kind = .word)
  /-- A token of no other kind is a backslash that has nothing behind it to escape. -/
  stray : ∀ t ∈ ts, t.kind = .stray → t.written = ['\\'] ∧ (t.stop = text.length ∨ text[t.stop]? = some '\n')

/-- The last token stops where the line ends. -/
theorem stop_getLast?_tokens (marks : Marks) (line : Text) :
    ((tokens marks line).getLast?.map Token.stop).getD 0 = line.length := by
  have whole := congrArg List.length (writing_tokens marks line)
  by_cases empty : tokens marks line = []
  · rw [empty] at whole ⊢
    exact whole
  · obtain ⟨us, t, same⟩ : ∃ us t, tokens marks line = us ++ [t] :=
      ⟨_, _, (List.dropLast_append_getLast empty).symm⟩
    have mem : t ∈ tokens marks line := by simp [same]
    have length := length_written mem
    rw [same, writing_append, List.length_append, ← start_eq same] at whole
    rw [same, List.getLast?_concat]
    simpa [Token.stop, ← length] using whole

/-- Whatever a line is, the tokens that either language reads in it tile it. -/
theorem tokens_tile (language : Language) (line : Text) : Tiles line (tokens language.marks line) := by
  have proper := language.proper_marks
  constructor
  case filled =>
    intro t mem
    exact Nat.lt_add_of_pos_right (List.length_pos_iff.2 (masked_ne_nil mem))
  case begins =>
    intro t first
    obtain ⟨us, same⟩ := List.head?_eq_some_iff.1 first
    rw [start_eq (same.trans (List.nil_append _).symm), writing_nil, List.length_nil]
  case joined => exact Lexer.isChain_place _ _ _
  case ends => exact stop_getLast?_tokens _ _
  case masked => rw [tokens, Lexer.masked_place, Lexer.spell_scan]
  case written =>
    intro t mem
    exact written_eq_slice mem
  case apart =>
    have kinds := Lexer.isChain_scan proper line.mask
    rw [← Lexer.lexemes_place 0 line (Lexer.scan language.marks line.mask), List.isChain_map] at kinds
    exact kinds
  case stray =>
    intro t mem stray
    exact stray_tokens proper mem stray

end Typeahead
