import Mathlib.Data.List.Basic
import Typeahead.Logs.Cursor
import Typeahead.Proofs.Token.Seams

/-!
A logs line seen around a position: the value token there, the tokens in front of it and those behind it, and
what the cursor takes for typed of the value.

- `Around`, `exists_around`: the value and the tokens around it.
- `Around.exists_pieces`: the pieces of the line that they are read from.
- `Around.typed`: what is typed of the value.
-/

namespace Typeahead.Logs

open Lexer

/-- Whether a token is a value: a quoted string, or a word that is no operator. -/
def isValue (t : Token) : Bool := t.kind = .quoted || t.kind = .word && !isOperator t

/-- A position in a line: the value there, and the tokens in front of it and behind it. Where there is no value,
the position may be in a run of blanks, which is cut in two. -/
inductive Around (position : Nat) : List Token → List Token → Option Token → List Token → Prop
  | value {before after : List Token} {t : Token} (holds : isValue t = true) (begins : t.start ≤ position)
    (ends : position ≤ t.stop) : Around position (before ++ t :: after) before (some t) after
  | gap {before after : List Token} (ends : ∀ t ∈ before, t.stop ≤ position)
    (begins : ∀ t ∈ after, position ≤ t.start)
    (free : ∀ t ∈ before ++ after, isValue t = true → t.stop < position ∨ position < t.start) :
    Around position (before ++ after) before none after
  | blank {before after : List Token} {t : Token} (blank : t.kind = .blank) (begins : t.start < position)
    (ends : position < t.stop) :
    Around position (before ++ t :: after) (before ++ [t.upTo position]) none (t.behind position :: after)

/-- A line can be seen around every position that is not in an operator. -/
theorem exists_around (text : Text) (position : Nat) :
    (∃ before value? after, Around position (tokens logsMarks text) before value? after) ∨
      ∃ t ∈ tokens logsMarks text, isOperator t = true ∧ t.start < position ∧ position < t.stop := by
  by_cases touched : ∃ t ∈ tokens logsMarks text, isValue t = true ∧ t.start ≤ position ∧ position ≤ t.stop
  · obtain ⟨t, mem, holds, begins, ends⟩ := touched
    obtain ⟨before, after, split⟩ := List.append_of_mem mem
    exact .inl ⟨before, some t, after, split ▸ .value holds begins ends⟩
  have free : ∀ t ∈ tokens logsMarks text, isValue t = true → t.stop < position ∨ position < t.start := by
    intro t mem holds
    by_contra apart
    exact touched ⟨t, mem, holds, by omega, by omega⟩
  by_cases crossed : ∃ t ∈ tokens logsMarks text, t.start < position ∧ position < t.stop
  · obtain ⟨t, mem, begins, ends⟩ := crossed
    by_cases blank : t.kind = .blank
    · obtain ⟨before, after, split⟩ := List.append_of_mem mem
      exact .inl ⟨before ++ [t.upTo position], none, t.behind position :: after, split ▸ .blank blank begins ends⟩
    refine .inr ⟨t, mem, ?_, begins, ends⟩
    have other : isValue t ≠ true := by
      intro holds
      rcases free t mem holds with before | behind <;> omega
    by_cases word : t.kind = .word
    · simpa [isValue, word] using other
    · -- no other token has a place inside
      obtain ⟨before, after, whole, -⟩ := mem_place mem
      have unquoted : t.kind ≠ .quoted := fun quoted => other (by simp [isValue, quoted])
      have length : t.masked.length = 1 := length_of_scan whole ⟨blank, word, unquoted⟩
      simp only [Token.stop] at ends
      omega
  · obtain ⟨before, after, split, begins, beyond⟩ := place_split text (scan logsMarks (Text.mask text)) 0 position
    rw [tokens, split] at free crossed ⊢
    refine .inl ⟨before, none, after, .gap (fun t mem => ?_) beyond free⟩
    by_contra ends
    exact crossed ⟨t, List.mem_append_left _ mem, begins t mem, Nat.lt_of_not_le ends⟩

/-- The lexemes of the tokens around a position, where those in front of it end with a blank or a mark. -/
structure Pieces (text : Text) (before value after : List Token) (front own back : List Lexeme) : Prop where
  before : before = place 0 text front
  value : value = place (spell front).length (text.drop (spell front).length) own
  after : after = place (spell front ++ spell own).length (text.drop (spell front ++ spell own).length) back
  masked : Text.mask text = spell front ++ spell own ++ spell back
  reads : ∀ rest : Text, (∀ c ∈ rest.head?, isBlank c = false) →
    scan logsMarks (spell front ++ rest) = front ++ scan logsMarks rest
  later : scan logsMarks (spell back) = back
  last : ∀ l ∈ front.getLast?, Ended logsMarks l

theorem logsMarks_ne_blank (c : Char) : logsMarks c ≠ some .blank := by
  unfold logsMarks
  split <;> simp

/-- The tokens of a line, cut between tokens. -/
theorem pieces_of_split {text : Text} (inLine : ∀ c ∈ text, Text.insideLine c = true)
    {before value after : List Token} (split : tokens logsMarks text = before ++ value ++ after)
    (front : ∀ t ∈ before.getLast?, t.kind ≠ .word ∧ t.kind ≠ .quoted ∧ t.kind ≠ .stray) :
    ∃ lexemes own back, Pieces text before value after lexemes own back := by
  rw [List.append_assoc] at split
  obtain ⟨lexemes, rest, whole, first, later⟩ := place_eq_append split
  obtain ⟨own, back, rfl, value, after⟩ := place_eq_append later.symm
  have masked : Text.mask text = spell lexemes ++ spell own ++ spell back := by
    rw [← spell_scan logsMarks (Text.mask text), whole, spell_append, spell_append, List.append_assoc]
  have last : ∀ l ∈ lexemes.getLast?, Ended logsMarks l := by
    intro l mem
    obtain ⟨passed, rfl⟩ := List.getLast?_eq_some_iff.1 mem
    have cut : scan logsMarks (Text.mask text) = passed ++ l :: (own ++ back) := by simpa using whole
    refine ended_of_scan cut ?_
    obtain ⟨t, ends, kind⟩ : ∃ t, before.getLast? = some t ∧ t.kind = l.1 :=
      ⟨_, by rw [first, place_append, place, place, List.getLast?_concat], rfl⟩
    exact kind ▸ front t ends
  refine ⟨lexemes, own, back, first, ?_, ?_, masked, fun rest inked => ?_, ?_, last⟩
  · simpa using value
  · simpa [List.length_append, List.drop_drop] using after
  · rcases List.eq_nil_or_concat' lexemes with rfl | ⟨passed, l, rfl⟩
    · rfl
    · have there : l ∈ scan logsMarks (Text.mask text) := by simp [whole]
      obtain ⟨d, s, same⟩ := List.exists_cons_of_ne_nil (scan_ne_nil there)
      have parts : Text.mask text = spell passed ++ d :: (s ++ spell own ++ spell back) := by
        simp [masked, same]
      have inside := Text.mask_inLine inLine
      have cut : scan logsMarks (Text.mask text) = passed ++ l :: (own ++ back) := by simpa using whole
      rw [parts] at inside cut
      exact scan_upTo inside (by decide) cut (last l (by simp)) (by simp [same]) inked
  · rw [← List.append_assoc] at whole
    exact scan_back whole

/-- The tokens of a line, cut in a run of blanks. -/
theorem pieces_of_blank {text : Text} (inLine : ∀ c ∈ text, Text.insideLine c = true) {before after : List Token}
    {t : Token} {position : Nat} (split : tokens logsMarks text = before ++ t :: after) (blank : t.kind = .blank)
    (begins : t.start < position) (ends : position < t.stop) : ∃ lexemes back,
      Pieces text (before ++ [t.upTo position]) [] (t.behind position :: after) lexemes [] back ∧
        (spell lexemes).length = position := by
  obtain ⟨passed, rest, whole, first, later⟩ := place_eq_append split
  rcases rest with _ | ⟨⟨kind, m⟩, rest⟩
  · cases later
  obtain ⟨rfl, rfl⟩ := List.cons.inj later
  obtain rfl : kind = .blank := blank
  rw [Nat.zero_add] at *
  change (spell passed).length < position at begins
  change position < (spell passed).length + m.length at ends
  obtain ⟨n, rfl⟩ : ∃ n, position = (spell passed).length + n := ⟨position - (spell passed).length, by omega⟩
  have started : 0 < n := by omega
  have within : n < m.length := by omega
  have here : scan logsMarks (m ++ spell rest) = (.blank, m) :: rest := scan_back whole
  obtain ⟨all, inked⟩ := blanks_of_scan logsMarks_ne_blank here
  have masked : Text.mask text = spell passed ++ (m ++ spell rest) := by
    rw [← spell_scan logsMarks (Text.mask text), whole, spell_append, spell_cons]
  have shown : (spell (passed ++ [(TokenKind.blank, m.take n)])).length = (spell passed).length + n := by
    simp
    omega
  have front : Ended logsMarks (.blank, m.take n) :=
    .blanks (List.length_pos_iff.1 (by rw [List.length_take]; omega)) fun c mem => all c (List.mem_of_mem_take mem)
  have back : Ended logsMarks (.blank, m.drop n) :=
    .blanks (List.length_pos_iff.1 (by rw [List.length_drop]; omega)) fun c mem => all c (List.mem_of_mem_drop mem)
  refine ⟨passed ++ [(.blank, m.take n)], (.blank, m.drop n) :: rest,
    ⟨?_, rfl, ?_, ?_, fun more blanks => ?_, ?_, ?_⟩, shown⟩
  · rw [place_append, ← first]
    simp [place, Token.upTo, List.take_take, Nat.min_eq_left within.le]
  · rw [spell_nil, List.append_nil, shown]
    simp [place, Token.behind, List.drop_take, Nat.add_assoc, Nat.add_sub_cancel' within.le]
  · have halves : m = m.take n ++ m.drop n := (List.take_append_drop n m).symm
    have parts := congrArg (fun w => spell passed ++ (w ++ spell rest)) halves
    rw [masked]
    simpa only [spell_append, spell_cons, spell_nil, List.append_nil, List.append_assoc] using parts
  · obtain ⟨d, s, rfl⟩ := List.exists_cons_of_ne_nil (List.length_pos_iff.1 (Nat.zero_lt_of_lt within))
    have inside := Text.mask_inLine inLine
    rw [masked, List.cons_append] at inside whole
    refine scan_upTo inside (by decide) whole front ?_ blanks
    obtain ⟨n, rfl⟩ := Nat.exists_eq_add_of_lt started
    simp
  · have cut : scan logsMarks (Text.mask text) = (passed ++ [(.blank, m)]) ++ rest := by simpa using whole
    rw [spell_cons, back.scan inked, scan_back cut]
  · intro l mem
    obtain rfl : (.blank, m.take n) = l := by simpa using mem
    exact front

theorem logsMarks_ne_quoted (c : Char) : logsMarks c ≠ some .quoted := by
  unfold logsMarks
  split <;> simp

/-- A quoted string is written with its quote. -/
theorem quote_of_mem_tokens {text : Text} {t : Token} (mem : t ∈ tokens logsMarks text) (quoted : t.kind = .quoted) :
    t.masked.head? = some '"' ∧ text[t.start]? = some '"' := by
  obtain ⟨before, after, whole, start⟩ := mem_place mem
  rw [quoted] at whole
  have masked : Text.mask text = spell before ++ (t.masked ++ spell after) := by
    rw [← spell_scan logsMarks (Text.mask text), whole, spell_append, spell_cons]
  have first := quote_of_scan logsMarks_ne_quoted whole
  have there : (Text.mask text)[t.start]? = some '"' := by
    rw [masked, start, Nat.zero_add, List.getElem?_append_right (Nat.le_refl _), Nat.sub_self,
      ← List.head?_eq_getElem?, List.head?_append, first, Option.some_or]
  rcases Text.maskFrom_eq_or 0 text t.start _ there with letter | written
  · cases letter
  · exact ⟨first, written⟩

/-- A text in three parts. -/
theorem text_parts (text : Text) (m n : Nat) :
    text = text.take m ++ (text.drop m).take n ++ text.drop (m + n) := by
  rw [List.append_assoc, ← List.drop_drop, List.take_append_drop, List.take_append_drop]

namespace Pieces

variable {text : Text} {before value after : List Token} {front own back : List Lexeme}

/-- The bounds of the value, and its characters. -/
theorem of_value {t : Token} (pieces : Pieces text before [t] after front own back) :
    (spell front).length = t.start ∧ (spell front ++ spell own).length = t.stop ∧
      t.written = (text.drop t.start).take (spell own).length ∧ own = [(t.kind, t.masked)] := by
  have value := pieces.value
  rcases own with _ | ⟨l, _ | ⟨l', own⟩⟩
  · cases value
  · obtain rfl := List.head_eq_of_cons_eq value
    simp [Token.stop]
  · cases List.tail_eq_of_cons_eq value

/-- A string begins with its quote. -/
theorem exists_body {t : Token} (pieces : Pieces text before [t] after front own back)
    (mem : t ∈ tokens logsMarks text) (quoted : t.kind = .quoted) : ∃ body, t.written = '"' :: body := by
  obtain ⟨-, -, written, rfl⟩ := pieces.of_value
  obtain ⟨masked, quote⟩ := quote_of_mem_tokens mem quoted
  have nonempty : (spell [(t.kind, t.masked)]).length ≠ 0 := by
    rw [spell_cons, spell_nil, List.append_nil, ne_eq, List.length_eq_zero_iff]
    intro empty
    change t.masked = [] at empty
    rw [empty] at masked
    cases masked
  refine ⟨t.written.tail, (List.cons_head?_tail ?_).symm⟩
  rw [written, List.head?_take, if_neg nonempty, List.head?_drop]
  exact quote

theorem of_none (pieces : Pieces text before [] after front own back) : own = [] := by
  have value := pieces.value
  rcases own with _ | ⟨l, own⟩
  · rfl
  · cases value

variable (pieces : Pieces text before value after front own back)

include pieces

theorem length_front : (spell front).length ≤ text.length := by
  have length := congrArg List.length pieces.masked
  rw [Text.length_mask, List.length_append, List.length_append] at length
  omega

theorem length_own : ((text.drop (spell front).length).take (spell own).length).length = (spell own).length := by
  have length := congrArg List.length pieces.masked
  rw [Text.length_mask, List.length_append, List.length_append] at length
  rw [List.length_take, List.length_drop]
  omega

/-- The tokens in front start before the place where they end. -/
theorem start_lt (t : Token) (mem : t ∈ before) : t.start < (spell front).length := by
  have cut := pieces.reads [] (by simp)
  rw [pieces.before] at mem
  have starts := start_lt_of_mem_place (fun l among => scan_ne_nil (cut ▸ List.mem_append_left _ among)) mem
  omega

/-- The tokens behind start where the value ends or later. -/
theorem le_start (t : Token) (mem : t ∈ after) : (spell front ++ spell own).length ≤ t.start := by
  rw [pieces.after] at mem
  exact (start_of_mem_place mem).1

/-- No quote stands in front. -/
theorem unquoted : (text.take (spell front).length).getLast? ≠ some '"' := by
  intro quote
  have length : (text.take (spell front).length).length = (spell front).length := by
    rw [List.length_take, Nat.min_eq_left pieces.length_front]
  have positive : 0 < (spell front).length := by
    by_contra empty
    simp [Nat.le_zero.1 (Nat.le_of_not_lt empty)] at quote
  rw [List.getLast?_eq_getElem?, length, List.getElem?_take_of_lt (by omega)] at quote
  obtain ⟨d, there, letter⟩ := Text.exists_masked quote
  rw [pieces.masked, List.append_assoc, List.getElem?_append_left (by omega), ← List.getLast?_eq_getElem?] at there
  rcases List.eq_nil_or_concat' front with rfl | ⟨passed, l, rfl⟩
  · cases there
  -- a character of a blank or a mark is neither the letter nor a quote
  have among : ∀ c ∈ l.2.getLast?, c ≠ 'x' ∧ c ≠ '"' := by
    intro c mem
    have ended := pieces.last l (by simp)
    cases ended with
    | blanks nonempty blank =>
      have held := blank c (List.mem_of_getLast? mem)
      constructor <;> rintro rfl <;> revert held <;> decide
    | mark inked marked =>
      obtain rfl : _ = c := by simpa using mem
      constructor <;> rintro rfl <;> revert marked <;> simp [logsMarks]
  have nonempty : l.2 ≠ [] := by
    cases pieces.last l (by simp) with
    | blanks nonempty => exact nonempty
    | mark => simp
  have own : l.2.getLast? = some d := by
    rw [spell_append, spell_cons, spell_nil, List.append_nil, List.getLast?_append_of_ne_nil _ nonempty] at there
    exact there
  obtain ⟨notLetter, notQuote⟩ := among d own
  rcases letter with same | same
  · exact notLetter same
  · exact notQuote same

end Pieces

namespace Around

variable {text : Text} {position : Nat} {before after : List Token} {value? : Option Token}
  (around : Around position (tokens logsMarks text) before value? after)
  (front : ∀ t ∈ before.getLast?, t.kind ≠ .word ∧ t.kind ≠ .quoted ∧ t.kind ≠ .stray)

include around front

omit front in
theorem of_value {t : Token} (same : value? = some t) :
    t ∈ tokens logsMarks text ∧ isValue t = true ∧ t.start ≤ position ∧ position ≤ t.stop := by
  generalize tokens logsMarks text = ts at around
  cases around with
  | value holds begins ends =>
    obtain rfl := Option.some.inj same
    exact ⟨by simp, holds, begins, ends⟩
  | gap => cases same
  | blank => cases same

/-- The tokens around a position are made of pieces of the line. -/
theorem exists_pieces (inLine : ∀ c ∈ text, Text.insideLine c = true) (within : position ≤ text.length) :
    ∃ lexemes own back, Pieces text before value?.toList after lexemes own back ∧
      (spell lexemes).length = (value?.map (·.start)).getD position := by
  generalize same : tokens logsMarks text = ts at around
  cases around with
  | @value before after t holds begins ends =>
    have split : tokens logsMarks text = before ++ [t] ++ after := by simp [same]
    obtain ⟨lexemes, own, back, pieces⟩ := pieces_of_split inLine split front
    exact ⟨lexemes, own, back, pieces, pieces.of_value.1⟩
  | @gap before after ends begins free =>
    have split : tokens logsMarks text = before ++ [] ++ after := by simp [same]
    obtain ⟨lexemes, own, back, pieces⟩ := pieces_of_split inLine split front
    refine ⟨lexemes, own, back, pieces, ?_⟩
    obtain rfl := pieces.of_none
    have upper : (spell lexemes).length ≤ position := by
      rcases List.eq_nil_or_concat' lexemes with rfl | ⟨passed, l, rfl⟩
      · exact Nat.zero_le _
      · rw [pieces.before, place_append] at ends
        have stop := ends _ (List.mem_append_right _ List.mem_cons_self)
        simpa [Token.stop] using stop
    have lower : position ≤ (spell lexemes).length := by
      rcases back with _ | ⟨l, back⟩
      · have length := congrArg List.length pieces.masked
        simp only [Text.length_mask, spell_nil, List.append_nil] at length
        omega
      · rw [pieces.after] at begins
        simpa using begins _ List.mem_cons_self
    exact Nat.le_antisymm upper lower
  | @blank before after t blank begins ends =>
    obtain ⟨lexemes, back, pieces, length⟩ := pieces_of_blank inLine same blank begins ends
    exact ⟨lexemes, [], back, pieces, length⟩

end Around

/-- What is typed of a value in front of a position, without the quote that opens it. -/
def typedOf (t : Token) (position : Nat) : Text :=
  let typed := t.written.take (position - t.start)
  if t.kind = .quoted then typed.drop 1 else typed

/-- A search term is no value. -/
theorem termContext_place (r : Reading) (base : Context) (search : base.place = .logsSearch) (f : Focus)
    (position : Nat) : (r.termContext base f position).place ≠ .facetValue := by
  rw [Reading.termContext]
  dsimp only
  generalize (if f.token.kind = .word then bareFacet (f.token.written.take (position - f.token.start)) else []) =
    typed
  split
  · simp
  · simp [search]

section

variable {r : Reading} {position : Nat} {f : Focus} (found : focusBefore? r.tokens position = some f)
  (place : (r.contextAt position).place = .facetValue)

include found place

/-- Behind a blank or a mark nothing of a value is typed. -/
theorem token_of_gap (gap : f.token.kind ≠ .word ∧ f.token.kind ≠ .quoted) :
    (r.contextAt position).token = [] := by
  obtain ⟨notWord, notQuoted⟩ := gap
  simp only [Reading.contextAt, found] at place ⊢
  cases slot : Reading.slot? f (f.token.written.take (position - f.token.start)) with
  | some named =>
    obtain ⟨name, value⟩ := named
    simp only [Reading.valueContext]
    unfold Reading.slot? at slot
    split at slot
    · obtain ⟨name', -, same⟩ := Option.map_eq_some_iff.1 slot
      exact (congrArg Prod.snd same).symm
    · next word => exact absurd word notWord
    · next quoted => exact absurd quoted notQuoted
    · cases slot
  | none =>
    simp only [slot, notQuoted, if_false] at place ⊢
    split
    · simp [Reading.valueContext, notWord]
    · next free =>
      rw [free] at place
      exact absurd place (termContext_place _ _ rfl _ _)

theorem token_of_value (value : isValue f.token = true) :
    (r.contextAt position).token = typedOf f.token position := by
  unfold typedOf
  simp only [isValue, Bool.or_eq_true, Bool.and_eq_true, decide_eq_true_eq, Bool.not_eq_true'] at value
  simp only [Reading.contextAt, found] at place ⊢
  cases slot : Reading.slot? f (f.token.written.take (position - f.token.start)) with
  | some named =>
    obtain ⟨name, own⟩ := named
    simp only [Reading.valueContext]
    rcases value with quoted | ⟨word, -⟩
    · simp only [Reading.slot?, quoted] at slot
      obtain ⟨name', -, same⟩ := Option.map_eq_some_iff.1 slot
      rw [if_pos quoted]
      exact (congrArg Prod.snd same).symm
    · simp only [Reading.slot?, word] at slot
      obtain ⟨name', -, same⟩ := Option.map_eq_some_iff.1 slot
      rw [if_neg (by simp [word])]
      exact (congrArg Prod.snd same).symm
  | none =>
    rcases value with quoted | ⟨word, ordinary⟩
    · simp [slot, quoted] at place
    · have unquoted : f.token.kind ≠ .quoted := by simp [word]
      simp only [slot, unquoted, if_false] at place ⊢
      split
      · simp [Reading.valueContext, word, ordinary]
      · next free =>
        rw [free] at place
        exact absurd place (termContext_place _ _ rfl _ _)

end

/-- Behind a blank or a mark the token before a position is no value. -/
theorem kind_of_focusBefore? {front rest : List Token} {position : Nat} {f : Focus}
    (gap : ∀ t ∈ front.getLast?, t.kind ≠ .word ∧ t.kind ≠ .quoted) (before : ∀ t ∈ front, t.start < position)
    (beyond : ∀ t ∈ rest, position ≤ t.start) (found : focusBefore? (front ++ rest) position = some f) :
    f.token.kind ≠ .word ∧ f.token.kind ≠ .quoted := by
  rcases List.eq_nil_or_concat' front with rfl | ⟨passed, t, rfl⟩
  · have starts : f.token.start < position := by simpa using List.find?_some found
    have there := token_mem_of_mem_focusesFrom (List.mem_reverse.1 (List.mem_of_find?_eq_some found))
    have := beyond f.token there
    omega
  · rw [List.append_assoc, List.singleton_append,
      focusBefore?_append (before t (by simp)) beyond] at found
    obtain rfl := Option.some.inj found
    exact gap t (by simp)

namespace Around

variable {text : Text} {position : Nat} {before after : List Token} {value? : Option Token}
  (around : Around position (tokens logsMarks text) before value? after)
  (front : ∀ t ∈ before.getLast?, t.kind ≠ .word ∧ t.kind ≠ .quoted ∧ t.kind ≠ .stray)

include around front

/-- The token before a position is the value there, or else is a blank or a mark. -/
theorem token_of_focusBefore? (inLine : ∀ c ∈ text, Text.insideLine c = true) (within : position ≤ text.length)
    {f : Focus} (found : focusBefore? (tokens logsMarks text) position = some f) :
    (value? = some f.token ∧ isValue f.token = true) ∨
      ((value?.map (·.start)).getD position = position ∧ f.token.kind ≠ .word ∧ f.token.kind ≠ .quoted) := by
  obtain ⟨lexemes, own, back, pieces, length⟩ := around.exists_pieces front inLine within
  have gap : ∀ t ∈ before.getLast?, t.kind ≠ .word ∧ t.kind ≠ .quoted :=
    fun t last => ⟨(front t last).1, (front t last).2.1⟩
  generalize tokens logsMarks text = ts at around found
  cases around with
  | @value before after t holds begins ends =>
    obtain ⟨starts, stops, -⟩ := pieces.of_value
    have beyond : ∀ u ∈ after, position ≤ u.start := fun u mem => ends.trans (stops ▸ pieces.le_start u mem)
    by_cases typed : t.start < position
    · rw [focusBefore?_append typed beyond] at found
      obtain rfl := Option.some.inj found
      exact .inl ⟨rfl, holds⟩
    · have here : t.start = position := Nat.le_antisymm begins (Nat.le_of_not_lt typed)
      refine .inr ⟨here, kind_of_focusBefore? gap (fun u mem => ?_) (List.forall_mem_cons.2 ⟨here.ge, beyond⟩) found⟩
      exact here ▸ starts ▸ pieces.start_lt u mem
  | @gap before after ends begins free =>
    refine .inr ⟨rfl, kind_of_focusBefore? gap (fun u mem => ?_) begins found⟩
    exact (pieces.start_lt u mem).trans_le length.le
  | @blank before after t blank begins ends =>
    have there : focusBefore? ((before ++ [t]) ++ after) position = some f := by simpa using found
    refine .inr ⟨rfl, kind_of_focusBefore? (by simp [blank]) ?_ (fun u mem => ?_) there⟩
    · refine List.forall_mem_append.2 ⟨fun u mem => ?_, by simpa using begins⟩
      exact (pieces.start_lt u (List.mem_append_left _ mem)).trans_le length.le
    · obtain rfl := pieces.of_none
      have behind := pieces.le_start u (List.mem_cons_of_mem _ mem)
      rw [spell_nil, List.append_nil] at behind
      exact length.symm.le.trans behind

/-- What is typed at a position is what is typed of the value there. -/
theorem typed (inLine : ∀ c ∈ text, Text.insideLine c = true) (within : position ≤ text.length)
    (place : ((Reading.of text).contextAt position).place = .facetValue) :
    ((Reading.of text).contextAt position).token = (value?.map (typedOf · position)).getD [] := by
  cases found : focusBefore? (Reading.of text).tokens position with
  | none => simp [Reading.contextAt, found] at place
  | some f =>
    rcases around.token_of_focusBefore? front inLine within found with ⟨rfl, value⟩ | ⟨start, gap⟩
    · exact token_of_value found place value
    · rw [token_of_gap found place gap]
      cases value? with
      | none => rfl
      | some t =>
        obtain rfl : t.start = position := start
        simp [typedOf]

end Around

/-- In a text of one line the context is that of the line. -/
theorem contextOf_inLine {text : Text} (inLine : ∀ c ∈ text, Text.insideLine c = true) {cursor : Int}
    (place : (contextOf text cursor).place = .facetValue) :
    ((Reading.of text).contextAt (text.clamp cursor)).place = .facetValue ∧
      (contextOf text cursor).token = ((Reading.of text).contextAt (text.clamp cursor)).token := by
  simp only [contextOf, Text.lineAt_of_inside inLine, Nat.sub_zero, Context.located] at place ⊢
  split at place
  · next inked => exact ⟨place, by simp [inked]⟩
  · cases place

end Typeahead.Logs
