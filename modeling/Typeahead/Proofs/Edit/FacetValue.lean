import Typeahead.Proofs.Edit.Splice
import Typeahead.Proofs.Logs.Around
import Typeahead.Proofs.Logs.Quoted
import Typeahead.Proofs.Suggestion.Offered

/-!
Accepting a value of a facet.

- `value_around`: the edit replaces the value at the cursor.
- `accept_facetValue`: where nothing is joined to the value, its token is replaced and no other one.
- `accept_facetValue_quoted_blank`: the rest of a quoted value is left over.
-/

namespace Typeahead.Logs

open Lexer

/-- No word goes on with a character that ends a value. -/
theorem not_isPlain_of_endsValue {c : Char} (h : Edit.endsValue .logs c = true) :
    isPlain logsMarks c = false ∧ c ≠ '\\' := by
  simp only [Edit.endsValue, Bool.or_eq_true, decide_eq_true_eq] at h
  rcases h with (blank | rfl) | rfl
  · have blank' : isBlank c = true := by
      simp only [isAsciiBlank, Bool.or_eq_true, Bool.and_eq_true, decide_eq_true_eq] at blank
      rcases blank with rfl | within
      · decide
      · simp [isBlank, within.1, within.2]
    refine ⟨by simp [isPlain, blank'], ?_⟩
    rintro rfl
    revert blank
    decide
  · decide
  · decide

/-- What stands behind ends the value if its token begins so. -/
theorem Pieces.head_after {text : Text} {before value after : List Token} {front own back : List Lexeme}
    (pieces : Pieces text before value after front own back)
    (ends : ∀ t ∈ after.head?, ∀ c ∈ t.masked.head?, Edit.endsValue .logs c = true) :
    (∀ c ∈ (spell back).head?, Edit.endsValue .logs c = true) ∧
      ∀ c ∈ (text.drop (spell front ++ spell own).length).head?, Edit.endsValue .logs c = true := by
  have masked : ∀ c ∈ (spell back).head?, Edit.endsValue .logs c = true := by
    intro c mem
    rcases back with _ | ⟨l, back⟩
    · cases mem
    have nonempty : l.2 ≠ [] := scan_ne_nil (pieces.later ▸ List.mem_cons_self)
    rw [pieces.after, place] at ends
    refine ends _ rfl c ?_
    rwa [spell_cons, List.head?_append_of_ne_nil _ nonempty] at mem
  refine ⟨masked, fun c mem => ?_⟩
  rw [List.head?_drop] at mem
  obtain ⟨d, there, letter⟩ := Text.exists_masked mem
  rw [pieces.masked, List.getElem?_append_right (Nat.le_refl _), Nat.sub_self, ← List.head?_eq_getElem?] at there
  have held := masked d there
  rcases letter with rfl | rfl
  · exact absurd held (by decide)
  · exact held

section

variable {text : Text} (inLine : ∀ c ∈ text, Text.insideLine c = true) {cursor : Int}
  (place : (contextOf text cursor).place = .facetValue) {before after : List Token} {value? : Option Token}
  (around : Around (text.clamp cursor) (tokens logsMarks text) before value? after)
  (front : ∀ t ∈ before.getLast?, t.kind ≠ .word ∧ t.kind ≠ .quoted ∧ t.kind ≠ .stray)
  {lexemes own back : List Lexeme} (pieces : Pieces text before value?.toList after lexemes own back)
  (start : (spell lexemes).length = (value?.map (·.start)).getD (text.clamp cursor))

include inLine place around front pieces start

/-- The edit replaces from where the value starts. -/
theorem valueStart_around :
    Edit.valueStart text (text.clamp cursor) (contextOf text cursor) = (spell lexemes).length := by
  obtain ⟨line, token⟩ := contextOf_inLine inLine place
  rw [around.typed front inLine (text.clamp_le cursor) line] at token
  have length : (text.take (spell lexemes).length).length = (spell lexemes).length := by
    rw [List.length_take, Nat.min_eq_left pieces.length_front]
  have parts := text_parts text (spell lexemes).length (spell own).length
  -- where no quote is in front of what is typed, it is the beginning of the value
  have plain {n : Nat} (within : n ≤ (spell own).length) (position : text.clamp cursor = (spell lexemes).length + n)
      (same : (contextOf text cursor).token = ((text.drop (spell lexemes).length).take (spell own).length).take n) :
      Edit.valueStart text (text.clamp cursor) (contextOf text cursor) = (spell lexemes).length := by
    have started := Edit.valueStart_eq (text.take (spell lexemes).length) _
      (text.drop ((spell lexemes).length + (spell own).length)) (.inr place) (pieces.length_own.symm ▸ within) same
    rw [← parts, if_neg pieces.unquoted, length, ← position] at started
    exact started
  cases value? with
  | none => exact plain (Nat.zero_le _) start.symm token
  | some t =>
    obtain ⟨mem, -, begins, ends⟩ := around.of_value rfl
    obtain ⟨starts, stops, written, rfl⟩ := pieces.of_value
    have own := pieces.length_own
    rw [starts, ← written] at plain parts own
    rw [starts] at length
    rw [starts]
    have within : text.clamp cursor - t.start ≤ (spell [(t.kind, t.masked)]).length := by
      simp [Token.stop] at ends ⊢
      omega
    by_cases quoted : t.kind = .quoted
    · obtain ⟨body, same⟩ := pieces.exists_body mem quoted
      cases reached : text.clamp cursor - t.start with
      | zero => exact plain (Nat.zero_le _) (by omega) (by simpa [typedOf, reached] using token)
      | succ n =>
        rw [same] at parts own
        have typed : (contextOf text cursor).token = body.take n := by
          rw [token]
          simp [typedOf, quoted, reached, same]
        have started := Edit.valueStart_quoted (text.take t.start)
          (text.drop (t.start + (spell [(t.kind, t.masked)]).length)) body (.inr place)
          (by simp at own within; omega) typed
        have position : t.start + (n + 1) = text.clamp cursor := by omega
        rw [← parts, length, position] at started
        exact started
    · exact plain within (by omega) (by simpa [typedOf, quoted] using token)

/-- The edit replaces the value, if none of its characters behind the cursor ends a value, and what follows
it does. -/
theorem value_around (whole : ∀ t ∈ value?, ∀ c ∈ t.written.drop (text.clamp cursor - t.start),
      Edit.endsValue .logs c = false)
    (ends : ∀ t ∈ after.head?, ∀ c ∈ t.masked.head?, Edit.endsValue .logs c = true) (insert : Text) :
    Edit.value text (text.clamp cursor) insert (contextOf text cursor) =
      ⟨text.take (spell lexemes).length ++ insert ++ text.drop (spell lexemes ++ spell own).length,
        (spell lexemes).length + insert.length⟩ := by
  have started := valueStart_around inLine place around front pieces start
  have parts := text_parts text (spell lexemes).length (spell own).length
  have length : (text.take (spell lexemes).length).length = (spell lexemes).length := by
    rw [List.length_take, Nat.min_eq_left pieces.length_front]
  have language : (contextOf text cursor).language = .logs := by rw [Context.language, place]; rfl
  obtain ⟨n, position, within, left⟩ : ∃ n, text.clamp cursor = (spell lexemes).length + n ∧ n ≤ (spell own).length ∧
      Edit.leftover .logs ((text.drop (spell lexemes).length).take (spell own).length) n = [] := by
    rw [start]
    cases value? with
    | none =>
      obtain rfl := pieces.of_none
      exact ⟨0, rfl, Nat.zero_le _, rfl⟩
    | some t =>
      obtain ⟨-, -, begins, ends⟩ := around.of_value rfl
      obtain ⟨starts, stops, written, rfl⟩ := pieces.of_value
      refine ⟨text.clamp cursor - t.start, ?_, ?_, ?_⟩
      · simp only [Option.map_some, Option.getD_some]
        omega
      · simp [Token.stop] at ends ⊢
        omega
      · rw [Option.map_some, Option.getD_some, ← written, Edit.leftover_eq_nil_iff]
        exact whole t rfl
  have next : ∀ c ∈ (text.drop ((spell lexemes).length + (spell own).length)).head?,
      Edit.endsValue (contextOf text cursor).language c = true := by
    rw [language, ← List.length_append]
    exact (pieces.head_after ends).2
  have here : Edit.valueStart (text.take (spell lexemes).length ++
      (text.drop (spell lexemes).length).take (spell own).length ++
      text.drop ((spell lexemes).length + (spell own).length))
        ((text.take (spell lexemes).length).length + n) (contextOf text cursor) =
          (text.take (spell lexemes).length).length := by
    rw [← parts, length, ← position]
    exact started
  have replaced := Edit.value_parts _ _ _ (pieces.length_own.symm ▸ within) here next insert
  rw [← parts, length, ← position, language, left, List.nil_append, List.length_append, length] at replaced
  rw [List.length_append]
  exact replaced

end

theorem acceptAt_of_valueSource {item : Typeahead.Item} {facet? : Option Facet}
    (kind : item.kind = (Suggestion.valueSource facet?).1) (text : Text) (cursor : Nat) (context : Context) :
    Edit.acceptAt text cursor item context = Edit.value text cursor item.insert context := by
  rcases facet? with _ | facet
  · simp only [Suggestion.valueSource] at kind
    simp only [Edit.acceptAt, kind]
  · cases facet <;> simp only [Suggestion.valueSource] at kind <;> simp only [Edit.acceptAt, kind]

/-- A line with a value between pieces of another line reads as the value between the lexemes of those. -/
theorem tokens_around {text line : Text} {before value after : List Token} {front own back : List Lexeme}
    (pieces : Pieces text before value after front own back) {label : Text} (filled : label ≠ [])
    (inLine : ∀ c ∈ label, Text.insideLine c = true)
    (ends : ∀ t ∈ after.head?, ∀ c ∈ t.masked.head?, Edit.endsValue .logs c = true)
    (written : line = text.take (spell front).length ++ quoteFacetValue label ++
      text.drop (spell front ++ spell own).length)
    (masked : Text.mask line = spell front ++ Text.mask (quoteFacetValue label) ++ spell back) :
    let new := valueToken (spell front).length label
    tokens logsMarks line =
      before ++ new :: after.map (Token.moved (spell front ++ spell own).length new.stop) := by
  intro new
  have stops : Stops logsMarks (spell back) :=
    fun c mem => not_isPlain_of_endsValue ((pieces.head_after ends).1 c mem)
  have cut := scan_quoteFacetValue filled inLine stops
  have inked : ∀ c ∈ (Text.mask (quoteFacetValue label) ++ spell back).head?, isBlank c = false := by
    intro c mem
    obtain ⟨rest, same⟩ := List.head?_eq_some_iff.1 mem
    rw [same] at cut
    refine inked_of_scan cut ?_
    simp only [valueToken]
    split <;> simp
  have lexemes : scan logsMarks (Text.mask line) =
      front ++ (new.kind, Text.mask (quoteFacetValue label)) :: back := by
    rw [masked, List.append_assoc, pieces.reads _ inked, cut, pieces.later]
    rfl
  have length : (text.take (spell front).length).length = (spell front).length := by
    rw [List.length_take, Nat.min_eq_left pieces.length_front]
  have first : line.take (spell front).length = text.take (spell front).length := by
    rw [written, List.append_assoc, List.take_append_of_le_length length.ge, List.take_take, Nat.min_self]
  have later : line.drop (spell front).length =
      quoteFacetValue label ++ text.drop (spell front ++ spell own).length := by
    rw [written, List.append_assoc, List.drop_append_of_le_length length.ge, List.drop_take, Nat.sub_self,
      List.take_zero, List.nil_append]
  have size : (Text.mask (quoteFacetValue label)).length = (quoteFacetValue label).length := Text.length_mask _
  have stop : (spell front).length + (quoteFacetValue label).length = new.stop := by
    rw [← size]
    rfl
  have moved := place_moved (spell front ++ spell own).length new.stop 0
    (text.drop (spell front ++ spell own).length) back
  rw [Nat.add_zero, Nat.add_zero, ← pieces.after] at moved
  rw [tokens, lexemes, place_append, place_congr first, ← pieces.before, later, Nat.zero_add, place, size,
    List.take_left, List.drop_left, stop, moved]
  rfl

/-- Accepting a value of a facet. Suppose that a blank or a mark stands in front of the value at the cursor, that none
of its characters behind the cursor may end a value, that such a character or the end of the line follows it, and
that no placeholder reaches into the accepted value or out of it. Then the new line has the tokens of the old one,
with the one token of the accepted value in the place of the value at the cursor, or at the cursor where no value
is; and the cursor stands behind it. -/
theorem accept_facetValue {text : Text} (inLine : ∀ c ∈ text, Text.insideLine c = true) {cursor : Int}
    (place : (contextOf text cursor).place = .facetValue) {names : Candidates} {limit : Int} {item : Typeahead.Item}
    (offered : item ∈ suggest (contextOf text cursor) names limit) (value : item.insert = quoteFacetValue item.label)
    (filled : item.label ≠ []) (oneLine : ∀ c ∈ item.label, Text.insideLine c = true)
    {before after : List Token} {value? : Option Token}
    (around : Around (text.clamp cursor) (tokens logsMarks text) before value? after)
    (front : ∀ t ∈ before.getLast?, t.kind ≠ .word ∧ t.kind ≠ .quoted ∧ t.kind ≠ .stray)
    (whole : ∀ t ∈ value?, ∀ c ∈ t.written.drop (text.clamp cursor - t.start), Edit.endsValue .logs c = false)
    (ends : ∀ t ∈ after.head?, ∀ c ∈ t.masked.head?, Edit.endsValue .logs c = true)
    (apart : Text.mask (Edit.accept text cursor item (contextOf text cursor)).text =
      (before.map (·.masked)).flatten ++ Text.mask item.insert ++ (after.map (·.masked)).flatten) :
    let position := text.clamp cursor
    let edit := Edit.accept text cursor item (contextOf text cursor)
    let new := valueToken ((value?.map (·.start)).getD position) item.label
    tokens logsMarks edit.text =
      before ++ new :: after.map (Token.moved ((value?.map Token.stop).getD position) new.stop) ∧
    edit.cursor = new.stop := by
  intro position edit new
  obtain ⟨lexemes, own, back, pieces, start⟩ := around.exists_pieces front inLine (text.clamp_le cursor)
  have stop : (spell lexemes ++ spell own).length = (value?.map Token.stop).getD position := by
    cases value? with
    | none =>
      obtain rfl := pieces.of_none
      simpa using start
    | some t => exact pieces.of_value.2.1
  have kind : item.kind = (Suggestion.valueSource (contextOf text cursor).facet?).1 :=
    (Suggestion.facetValue_of_offered offered place).1
  have accepted : edit = Edit.value text position item.insert (contextOf text cursor) :=
    acceptAt_of_valueSource kind text position _
  rw [value_around inLine place around front pieces start whole ends, value] at accepted
  have masked : Text.mask edit.text =
      spell lexemes ++ Text.mask (quoteFacetValue item.label) ++ spell back := by
    rw [apart, pieces.before, pieces.after, masked_place, masked_place, value]
  have read := tokens_around pieces filled oneLine ends (congrArg Edit.text accepted) masked
  rw [start, stop] at read
  refine ⟨read, ?_⟩
  rw [accepted, start]
  simp [new, position, valueToken, Token.stop]

/-- The services found when only these are known. -/
def serviceNames (names : List Text) : Candidates := fun dataset => if dataset = .services then names else []

/-- The item of a service. -/
def serviceItem (name : Text) : Typeahead.Item :=
  { label := name, kind := .service, insert := quoteFacetValue name, sortKey := "10_".toList ++ name
    detail? := some ("service: " ++ name.toString) }

theorem accept_facetValue_behind_operator :
    let text : Text := "service:(a OR b)".toList
    let item := serviceItem "my app".toList
    (contextOf text 14).place = .facetValue ∧
    item ∈ suggest (contextOf text 14) (serviceNames ["my app".toList]) 10 ∧
    (tokens logsMarks (Edit.accept text 14 item (contextOf text 14)).text).map (fun t => (t.kind, t.written)) =
      [(.word, "service".toList), (.colon, [':']), (.openParen, ['(']), (.word, ['a']), (.blank, [' ']),
        (.word, "OR".toList), (.blank, [' ']), (.quoted, "\"my app\"".toList), (.closeParen, [')'])] := by
  intro text item
  have place : (contextOf text 14).place = .facetValue := by decide +kernel
  have offered : item ∈ suggest (contextOf text 14) (serviceNames ["my app".toList]) 10 := by decide +kernel
  let before := (tokens logsMarks text).take 7
  let own : Token := ⟨.word, 14, ['b'], ['b']⟩
  let after : List Token := [⟨.closeParen, 15, [')'], [')']⟩]
  have split : tokens logsMarks text = before ++ own :: after := by decide +kernel
  have around : Around (text.clamp 14) (tokens logsMarks text) before (some own) after := by
    rw [split]
    exact .value (by decide) (by decide) (by decide)
  have inLine : ∀ c ∈ text, Text.insideLine c = true := List.all_eq_true.1 (by decide)
  have oneLine : ∀ c ∈ "my app".toList, Text.insideLine c = true := List.all_eq_true.1 (by decide)
  have letter : ∀ c ∈ own.written.drop (text.clamp 14 - own.start), Edit.endsValue .logs c = false :=
    List.forall_mem_singleton.2 rfl
  have read := (accept_facetValue inLine place offered rfl (by decide) oneLine around (by decide +kernel)
    (fun t mem => Option.mem_some_iff.1 mem ▸ letter) (by simp [after]; decide) (by decide +kernel)).1
  refine ⟨place, offered, ?_⟩
  rw [read]
  decide +kernel

/-- Of a quoted value what stands behind its blank is left over, and its closing quote opens another string. -/
theorem accept_facetValue_quoted_blank :
    let text : Text := "service:\"my app\"".toList
    let item := serviceItem "my api".toList
    let edit := Edit.accept text 11 item (contextOf text 11)
    (contextOf text 11).place = .facetValue ∧
    item ∈ suggest (contextOf text 11) (serviceNames ["my api".toList]) 10 ∧
    tokens logsMarks text = (tokens logsMarks text).take 2 ++ [valueToken 8 "my app".toList] ∧
    edit.text = "service:\"my api\" app\"".toList ∧
    tokens logsMarks edit.text ≠ (tokens logsMarks text).take 2 ++ [valueToken 8 "my api".toList] := by
  decide +kernel

end Typeahead.Logs
