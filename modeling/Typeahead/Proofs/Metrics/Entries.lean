import Typeahead.Proofs.Metrics.Braces
import Typeahead.Proofs.Text.Parted

/-!
The entries of a filter, as the check reads them and as the line is read. The check cuts what is written in the filter
at each comma in front of which no backslash stands; in the line a comma is a token, unless it is quoted or the second
character of an escape pair. Cut at different commas a text leaves different entries, blanks aside.

- `pieces_parted`, `pieces_spread`: the cuts of the check, and those of the tokens.
- `checked_eq_read_iff`: for which filters both see the same entries.
- `entries_apart`: filters for which they do not.
-/

namespace Typeahead

namespace Metrics

/-- The cuts of the check, told from the character in front. -/
def parted (previous : Char) : Text → Parted
  | [] => []
  | c :: rest => (c, c = ',' && previous != '\\') :: parted c rest

theorem pieces_parted (previous : Char) (t : Text) : (parted previous t).pieces = splitAtCommas previous t := by
  induction t generalizing previous with
  | nil => rfl
  | cons c t ih =>
    obtain ⟨piece, more, parts⟩ := List.exists_cons_of_ne_nil (ih c ▸ Parted.pieces_ne_nil (parted c t))
    rw [parted, splitAtCommas, parts]
    cases cut : c = ',' && previous != '\\' with
    | true =>
      rw [Parted.pieces_cut, ih, parts]
      rfl
    | false =>
      rw [Parted.pieces_kept, ih, parts]
      rfl

theorem map_fst_parted (previous : Char) (t : Text) : (parted previous t).map (·.1) = t := by
  induction t generalizing previous with
  | nil => rfl
  | cons c t ih => rw [parted, List.map_cons, ih]

theorem atCommas_parted (previous : Char) (t : Text) : (parted previous t).AtCommas := by
  induction t generalizing previous with
  | nil => simp [parted, Parted.AtCommas]
  | cons c t ih =>
    refine List.forall_mem_cons.2 ⟨fun cut => ?_, ih c⟩
    exact of_decide_eq_true (Bool.and_eq_true_iff.1 cut).1

/-- Where the check cuts. -/
theorem getElem?_parted_iff {previous : Char} {t : Text} {i : Nat} :
    (parted previous t)[i]? = some (',', true) ↔ t[i]? = some ',' ∧ (previous :: t)[i]? ≠ some '\\' := by
  induction t generalizing previous i with
  | nil => simp [parted]
  | cons c t ih =>
    cases i with
    | zero => simp [parted]
    | succ i =>
      rw [parted, List.getElem?_cons_succ, ih]
      simp

/-- Without commas nothing is cut, -/
theorem parted_of_commaless {t : Text} (commaless : ',' ∉ t) (previous : Char) :
    parted previous t = Parted.whole t := by
  induction t generalizing previous with
  | nil => rfl
  | cons c t ih =>
    have other : c ≠ ',' := fun same => commaless (same ▸ List.mem_cons_self)
    rw [parted, ih fun mem => commaless (List.mem_cons_of_mem _ mem)]
    simp [Parted.whole, other]

theorem parted_append (previous : Char) (t u : Text) :
    parted previous (t ++ u) = parted previous t ++ parted (t.getLast?.getD previous) u := by
  induction t generalizing previous with
  | nil => rfl
  | cons c t ih => rw [List.cons_append, parted, ih, parted, List.getLast?_cons, List.cons_append, Option.getD_some]

/-- and what stands in front makes no difference but for a backslash. -/
theorem parted_of_unescaped {c d : Char} (unescaped : c ≠ '\\') (unescaped' : d ≠ '\\') (t : Text) :
    parted c t = parted d t := by
  cases t with
  | nil => rfl
  | cons e t => rw [parted, parted, bne_iff_ne.2 unescaped, bne_iff_ne.2 unescaped']

theorem not_mem_of_blank {t : Text} {c : Char} (blank : ∀ c ∈ t, isBlank c = true) (inked : isBlank c = false) :
    c ∉ t := by
  intro mem
  rw [blank c mem] at inked
  cases inked

/-- So blanks around a text make no difference. -/
theorem parted_padded {left right : Text} (blank : ∀ c ∈ left, isBlank c = true)
    (blank' : ∀ c ∈ right, isBlank c = true) {previous : Char} (unescaped : previous ≠ '\\') (t : Text) :
    parted previous (left ++ (t ++ right)) =
      Parted.whole left ++ (parted ' ' t ++ Parted.whole right) := by
  have before : left.getLast?.getD previous ≠ '\\' := by
    cases last : left.getLast? with
    | none => exact unescaped
    | some c =>
      rintro rfl
      exact not_mem_of_blank blank (by decide) (List.mem_of_getLast? last)
  have comma : isBlank ',' = false := by decide
  rw [parted_append, parted_of_commaless (not_mem_of_blank blank comma),
    parted_of_unescaped (d := ' ') before (by decide), parted_append, parted_of_commaless (not_mem_of_blank blank' comma)]

/-- The cuts that the tokens make. -/
def spread (ts : List Token) : Parted := ts.flatMap fun t => t.written.map fun c => (c, decide (t.kind = .comma))

section

variable {t : Token} {ts : List Token}

theorem spread_comma (comma : t.kind = .comma) (written : t.written = [',']) :
    spread (t :: ts) = (',', true) :: spread ts := by
  simp [spread, comma, written]

theorem spread_other (other : t.kind ≠ .comma) : spread (t :: ts) = Parted.whole t.written ++ spread ts := by
  simp [spread, other, Parted.whole]

theorem map_fst_spread (ts : List Token) : (spread ts).map (·.1) = writing ts := by
  induction ts with
  | nil => rfl
  | cons t ts ih =>
    have own : (t.written.map fun c => (c, decide (t.kind = .comma))).map (·.1) = t.written := by
      simp [Function.comp_def]
    rw [spread, List.flatMap_cons, List.map_append, own, writing_cons, ← ih]
    rfl

/-- Of some tokens one is a comma, and it is written at a place. -/
def SeparatesAt (ts : List Token) (i : Nat) : Prop :=
  ∃ (front : List Token) (t : Token) (rest : List Token), ts = front ++ t :: rest ∧ t.kind = .comma ∧
    (writing front).length = i

/-- It is the first token, or one behind it. -/
theorem separatesAt_cons_iff {i : Nat} : SeparatesAt (t :: ts) i ↔
    (t.kind = .comma ∧ i = 0) ∨ ∃ j, i = t.written.length + j ∧ SeparatesAt ts j := by
  constructor
  · rintro ⟨front, u, rest, same, comma, rfl⟩
    cases front with
    | nil =>
      obtain ⟨rfl, -⟩ := List.cons.inj same
      exact .inl ⟨comma, rfl⟩
    | cons v front =>
      obtain ⟨rfl, behind⟩ := List.cons.inj same
      refine .inr ⟨(writing front).length, ?_, front, u, rest, behind, comma, rfl⟩
      rw [writing_cons, List.length_append]
  · rintro (⟨comma, rfl⟩ | ⟨j, rfl, front, u, rest, rfl, comma, rfl⟩)
    · exact ⟨[], t, ts, rfl, comma, rfl⟩
    · exact ⟨t :: front, u, rest, rfl, comma, by rw [writing_cons, List.length_append]⟩

variable (commas : ∀ t ∈ ts, t.kind = .comma → t.written = [','])

include commas

theorem pieces_spread : (spread ts).pieces = (ts.splitOnP (·.kind = .comma)).map writing := by
  induction ts with
  | nil => rfl
  | cons t ts ih =>
    obtain ⟨here, later⟩ := List.forall_mem_cons.1 commas
    rw [List.splitOnP_cons_eq_if_modifyHead]
    by_cases comma : t.kind = .comma
    · rw [spread_comma comma (here comma), Parted.pieces_cut, ih later, if_pos (decide_eq_true comma)]
      rfl
    · obtain ⟨first, rest, parts⟩ := List.exists_cons_of_ne_nil (List.splitOnP_ne_nil (·.kind = .comma) ts)
      rw [spread_other comma, Parted.pieces_whole_append, ih later, parts, if_neg (by simpa using comma)]
      rfl

theorem atCommas_spread : (spread ts).AtCommas := by
  intro x mem cut
  obtain ⟨t, there, mem⟩ := List.mem_flatMap.1 mem
  obtain ⟨c, own, rfl⟩ := List.mem_map.1 mem
  rw [commas t there (of_decide_eq_true cut)] at own
  exact List.mem_singleton.1 own

/-- Where the tokens cut. -/
theorem getElem?_spread_iff {i : Nat} : (spread ts)[i]? = some (',', true) ↔ SeparatesAt ts i := by
  induction ts generalizing i with
  | nil => simp [spread, SeparatesAt]
  | cons t ts ih =>
    obtain ⟨here, later⟩ := List.forall_mem_cons.1 commas
    rw [separatesAt_cons_iff]
    by_cases comma : t.kind = .comma
    · rw [spread_comma comma (here comma), here comma]
      cases i with
      | zero => simp [comma]
      | succ i =>
        rw [List.getElem?_cons_succ, ih later]
        refine ⟨fun there => .inr ⟨i, Nat.add_comm i 1, there⟩, ?_⟩
        rintro (⟨-, none_before⟩ | ⟨j, same, there⟩)
        · cases none_before
        · obtain rfl : i = j := Nat.succ.inj (same.trans (Nat.add_comm 1 j))
          exact there
    · have length : (Parted.whole t.written).length = t.written.length := List.length_map ..
      rw [spread_other comma, or_iff_right fun first => comma first.1]
      by_cases within : i < t.written.length
      · rw [List.getElem?_append_left (length ▸ within)]
        refine iff_of_false ?_ fun ⟨j, same, _⟩ => by omega
        simp [Parted.whole]
      · rw [List.getElem?_append_right (by omega), length, ih later]
        constructor
        · exact fun there => ⟨i - t.written.length, by omega, there⟩
        · rintro ⟨j, rfl, there⟩
          rwa [Nat.add_sub_cancel_left]

end

namespace Reading

/-- The entries of a stretch as the check cuts them out of its text. -/
def checkedEntries (r : Reading) (s : Span) : List Text :=
  filterEntries (Text.strip (r.text.slice (s.start + 1) s.stop))

/-- The entries of a stretch as they are read: what is written between the commas that are tokens, blanks aside. -/
def readEntries (r : Reading) (s : Span) : List Text :=
  (((r.within s).map (·.token)).splitOnP (·.kind = .comma)).map fun ts => Text.strip (writing ts)

theorem map_within (r : Reading) (s : Span) : (r.within s).map (·.token) =
    r.tokens.filter fun t => s.start < t.start && t.start < s.stop := by
  have tokens (before ts : List Token) : (focusesFrom before ts).map (·.token) = ts := by
    induction ts generalizing before with
    | nil => rfl
    | cons t ts ih => rw [focusesFrom, List.map_cons, ih]
  have whole : (focuses r.tokens).map (·.token) = r.tokens := tokens [] r.tokens
  conv_rhs => rw [← whole, List.filter_map]
  rfl

end Reading

namespace Stretch

variable {text : Text} {s : Span} {us inner rest : List Token} {brace t : Token}
  (h : Stretch text s us brace inner rest)

include h

/-- The tokens in a stretch are those that start between its ends. -/
theorem map_within : ((Reading.of text).within s).map (·.token) = inner := by
  have before : us.filter (fun t => s.start < t.start && t.start < s.stop) = [] :=
    List.filter_eq_nil_iff.2 fun t mem => by simp [Nat.not_lt_of_gt (h.start_of_before mem)]
  have inside : inner.filter (fun t => s.start < t.start && t.start < s.stop) = inner :=
    List.filter_eq_self.2 fun t mem => by simp [h.start_of_inner mem]
  have behind : rest.filter (fun t => s.start < t.start && t.start < s.stop) = [] :=
    List.filter_eq_nil_iff.2 fun t mem => by simp [h.start_of_rest mem]
  rw [Reading.map_within, h.tokens, List.filter_append, before, List.nil_append,
    List.filter_cons_of_neg (by simp [h.start_of_brace]), List.filter_append, inside, behind, List.append_nil]

theorem mem_inner_iff : t ∈ inner ↔ t ∈ (Reading.of text).tokens ∧ s.start < t.start ∧ t.start < s.stop := by
  rw [← h.map_within, Reading.map_within, List.mem_filter]
  simp

theorem commas : ∀ t ∈ inner, t.kind = .comma → t.written = [','] :=
  fun _ mem => written_of_mark Lexer.single_metricsMarks rfl (h.mem_inner_iff.1 mem).1

theorem slice_eq : text.slice (s.start + 1) s.stop = writing inner := by
  have parts : text = (writing us ++ ['{']) ++ writing inner ++ writing rest := by
    rw [h.line_eq]
    simp
  have start : s.start + 1 = (writing us ++ ['{']).length := by
    rw [h.start, List.length_append, List.length_singleton]
  rw [h.stop, start]
  nth_rewrite 1 [parts]
  rw [Text.slice_part _ _ _ (Nat.le_refl _), List.take_length]

/-- Blanks at the ends of a stretch aside, the check cuts what is written in it. -/
theorem checkedEntries_eq : (Reading.of text).checkedEntries s =
    ((parted '{' (writing inner)).pieces).map Text.strip := by
  obtain ⟨left, right, parts, blank, blank', -, -⟩ := Text.exists_padding isBlank (writing inner)
  change filterEntries (Text.strip (text.slice (s.start + 1) s.stop)) = _
  rw [h.slice_eq]
  conv_rhs => rw [parts]
  rw [List.append_assoc, parted_padded blank blank' (by decide), Parted.map_strip_pieces_padded blank blank',
    pieces_parted]
  rfl

theorem readEntries_eq : (Reading.of text).readEntries s = ((spread inner).pieces).map Text.strip := by
  rw [Reading.readEntries, h.map_within, pieces_spread h.commas, List.map_map]
  rfl

theorem getElem?_eq {k : Nat} (within : k ≤ (writing inner).length) :
    text[s.start + k]? = ('{' :: writing inner)[k]? := by
  have parts : text = writing us ++ (('{' :: writing inner) ++ writing rest) := h.line_eq
  nth_rewrite 1 [parts]
  rw [h.start, List.getElem?_append_right (Nat.le_add_right ..), Nat.add_sub_cancel_left,
    List.getElem?_append_left (by rw [List.length_cons]; omega)]

/-- A stretch is cut at a comma that is a token. -/
theorem getElem?_spread_inner_iff {i : Nat} (within : i < (writing inner).length) :
    (spread inner)[i]? = some (',', true) ↔
      ∃ t ∈ (Reading.of text).tokens, t.kind = .comma ∧ t.start = s.start + (i + 1) := by
  have starts {t : Token} {front back : List Token} (split : inner = front ++ t :: back) :
      t.start = s.start + ((writing front).length + 1) := by
    have same : (Reading.of text).tokens = (us ++ brace :: front) ++ t :: (back ++ rest) := by simp [h.tokens, split]
    have start := start_eq same
    rw [writing_append, writing_cons, h.written, List.length_append, List.length_append, ← h.start] at start
    rw [start, List.length_singleton]
    omega
  rw [getElem?_spread_iff h.commas]
  constructor
  · rintro ⟨front, t, back, split, comma, rfl⟩
    have mem : t ∈ inner := by simp [split]
    exact ⟨t, (h.mem_inner_iff.1 mem).1, comma, starts split⟩
  · rintro ⟨t, mem, comma, start⟩
    have stop := h.stop
    obtain ⟨front, back, split⟩ := List.append_of_mem (h.mem_inner_iff.2 ⟨mem, by omega, by omega⟩)
    have begins := starts split
    exact ⟨front, t, back, split, comma, by omega⟩

/-- The check sees the entries that are read if and only if of the commas in the stretch those that are tokens are
those in front of which no backslash stands. -/
theorem entries_eq_iff : (Reading.of text).checkedEntries s = (Reading.of text).readEntries s ↔
    ∀ p, s.start < p → p < s.stop → text[p]? = some ',' →
      ((∃ t ∈ (Reading.of text).tokens, t.kind = .comma ∧ t.start = p) ↔ text[p - 1]? ≠ some '\\') := by
  have same : (parted '{' (writing inner)).map (·.1) = (spread inner).map (·.1) := by
    rw [map_fst_parted, map_fst_spread]
  have stop := h.stop
  have atCommas := atCommas_spread h.commas
  rw [h.checkedEntries_eq, h.readEntries_eq, Parted.map_strip_pieces_iff same (atCommas_parted _ _) atCommas,
    Parted.eq_iff_of_commas same (atCommas_parted _ _) atCommas]
  simp only [getElem?_parted_iff]
  constructor
  · intro agree p after before comma
    obtain ⟨i, rfl⟩ : ∃ i, p = s.start + (i + 1) := ⟨p - s.start - 1, by omega⟩
    have within : i < (writing inner).length := by omega
    rw [h.getElem?_eq within, List.getElem?_cons_succ] at comma
    rw [← h.getElem?_spread_inner_iff within, ← agree i, and_iff_right comma, ← Nat.add_assoc, Nat.add_sub_cancel,
      h.getElem?_eq (Nat.le_of_lt within)]
  · intro agree i
    by_cases within : i < (writing inner).length
    · by_cases comma : (writing inner)[i]? = some ','
      · have there := agree (s.start + (i + 1)) (by omega) (by omega)
          (by rw [h.getElem?_eq within, List.getElem?_cons_succ, comma])
        rw [← Nat.add_assoc, Nat.add_sub_cancel, h.getElem?_eq (Nat.le_of_lt within), Nat.add_assoc] at there
        rw [and_iff_right comma, h.getElem?_spread_inner_iff within, there]
      · refine iff_of_false (fun cut => comma cut.1) fun cut => comma ?_
        rw [← map_fst_spread inner, List.getElem?_map, cut]
        rfl
    · have none_there : (writing inner)[i]? = none := List.getElem?_eq_none_iff.2 (Nat.le_of_not_lt within)
      refine iff_of_false (fun cut => ?_) fun cut => ?_
      · cases none_there.symm.trans cut.1
      · have chars := congrArg (Option.map (·.1)) cut
        rw [← List.getElem?_map, map_fst_spread, none_there] at chars
        cases chars

end Stretch

/-- The check reads the entries of a filter that is no boolean expression, and those of an empty one or of a star too,
where it looks at nothing. -/
theorem filterFaults_eq {text : Text} {s : Span}
    (plain : (Text.strip (text.slice (s.start + 1) s.stop)).hasWord sameExactly booleanWords = false) :
    filterFaults text s =
      entriesFaults (text.getLast? = some ':') (filterEntries (Text.strip (text.slice (s.start + 1) s.stop))) := by
  unfold filterFaults
  dsimp only
  split
  · next taken =>
    have none_read : Text.strip (text.slice (s.start + 1) s.stop) = [] ∨
        Text.strip (text.slice (s.start + 1) s.stop) = ['*'] := by simpa using taken
    rcases none_read with empty | star
    · rw [empty]
      rfl
    · rw [star]
      rfl
  · rw [if_neg (by simp [plain])]

/-- Of a filter that is no boolean expression the check reads its own entries. They are those that the line is read
with if and only if of the commas in the filter those that are tokens are those in front of which no backslash
stands. -/
theorem checked_eq_read_iff {query : Text} {s : Span} (found : (checkedReading query).filter? = some s)
    (plain : (Text.strip ((checkedReading query).text.slice (s.start + 1) s.stop)).hasWord sameExactly booleanWords =
      false) :
    filterFaults (checkedReading query).text s =
        entriesFaults ((checkedReading query).text.getLast? = some ':') ((checkedReading query).checkedEntries s) ∧
      ((checkedReading query).checkedEntries s = (checkedReading query).readEntries s ↔
        ∀ p, s.start < p → p < s.stop → (checkedReading query).text[p]? = some ',' →
          ((∃ t ∈ (checkedReading query).tokens, t.kind = .comma ∧ t.start = p) ↔
            (checkedReading query).text[p - 1]? ≠ some '\\')) := by
  have mem : s ∈ (checkedReading query).stretches := List.mem_append_left _ (by simp [found])
  obtain ⟨us, brace, inner, rest, h⟩ := Reading.exists_of_mem_stretches mem
  exact ⟨filterFaults_eq plain, h.entries_eq_iff⟩

/-- A comma behind a backslash separates nothing, for both of them. -/
theorem checked_eq_read_escaped :
    let r := checkedReading "avg:cpu\x7b host:a\\,b , !env:c/d,*\x7d by \x7bhost\x7d".toList
    r.filter? = some ⟨7, 31⟩ ∧ (Text.strip (r.text.slice 8 31)).hasWord sameExactly booleanWords = false ∧
      r.checkedEntries ⟨7, 31⟩ = r.readEntries ⟨7, 31⟩ ∧
      r.readEntries ⟨7, 31⟩ = ["host:a\\,b".toList, "!env:c/d".toList, "*".toList] := by
  intro r
  have found : r.filter? = some ⟨7, 31⟩ := by decide +kernel
  have plain : (Text.strip (r.text.slice 8 31)).hasWord sameExactly booleanWords = false := by decide +kernel
  have agree : ∀ p < 31, 7 < p → r.text[p]? = some ',' →
      ((∃ t ∈ r.tokens, t.kind = .comma ∧ t.start = p) ↔ r.text[p - 1]? ≠ some '\\') := by decide +kernel
  exact ⟨found, plain, (checked_eq_read_iff found plain).2.2 fun p after before => agree p before after,
    by decide +kernel⟩

/-- In quotes the check cuts at a comma that separates nothing, and behind an escaped backslash it does not cut at one
that does: of the first filter it refuses half of a value, and in the second one it does not see an entry without a
value. -/
theorem entries_apart :
    let quoted := "m\x7bk:\"a,b\"\x7d".toList
    let escaped := "m\x7bk:a\\\\,j\x7d".toList
    ((checkedReading quoted).filter? = some ⟨1, 9⟩ ∧
      (Text.strip ((checkedReading quoted).text.slice 2 9)).hasWord sameExactly booleanWords = false ∧
      (checkedReading quoted).checkedEntries ⟨1, 9⟩ = ["k:\"a".toList, "b\"".toList] ∧
      (checkedReading quoted).readEntries ⟨1, 9⟩ = ["k:\"a,b\"".toList] ∧
      (check quoted).errors = ["Incomplete tag: b\" (missing ':value')"]) ∧
    ((checkedReading escaped).filter? = some ⟨1, 9⟩ ∧
      (Text.strip ((checkedReading escaped).text.slice 2 9)).hasWord sameExactly booleanWords = false ∧
      (checkedReading escaped).checkedEntries ⟨1, 9⟩ = ["k:a\\\\,j".toList] ∧
      (checkedReading escaped).readEntries ⟨1, 9⟩ = ["k:a\\\\".toList, "j".toList] ∧
      (check escaped).errors = []) := by
  decide +kernel

end Metrics

end Typeahead
