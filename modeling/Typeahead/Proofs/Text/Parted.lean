import Typeahead.Proofs.Text.Lines

/-!
A text that is cut at some of its characters, and the pieces that are left.

- `Parted`, `Parted.pieces`: the cuts of a text, and what stands between them.
- `Parted.map_strip_pieces_iff`: where a text is cut at commas is seen in its pieces, blanks aside.
- `Parted.map_strip_pieces_padded`: blanks around a text do not matter for its pieces.
-/

namespace Typeahead

/-- The characters of a text, each with whether the text is cut there. -/
abbrev Parted := List (Char × Bool)

namespace Parted

/-- The text between the cuts. The characters at which it is cut are left out. -/
def pieces (m : Parted) : List Text := (m.splitOnP (·.2)).map (·.map (·.1))

/-- A text that is cut nowhere. -/
def whole (t : Text) : Parted := t.map (·, false)

variable {m m' : Parted} {c : Char} {t : Text}

theorem pieces_nil : pieces [] = [[]] := rfl

theorem pieces_cut (c : Char) (m : Parted) : pieces ((c, true) :: m) = [] :: pieces m := by
  simp [pieces, List.splitOnP_cons_eq_if_modifyHead]

theorem pieces_kept (c : Char) (m : Parted) : pieces ((c, false) :: m) = (pieces m).modifyHead (c :: ·) := by
  cases parts : m.splitOnP (·.2) <;> simp [pieces, List.splitOnP_cons_eq_if_modifyHead, parts]

theorem pieces_ne_nil (m : Parted) : pieces m ≠ [] := by
  simp [pieces, List.splitOnP_ne_nil]

theorem pieces_whole_append (t : Text) (m : Parted) : pieces (whole t ++ m) = (pieces m).modifyHead (t ++ ·) := by
  induction t with
  | nil => cases parts : pieces m <;> simp [whole, parts]
  | cons c t ih =>
    have step : pieces (whole (c :: t) ++ m) = (pieces (whole t ++ m)).modifyHead (c :: ·) := pieces_kept c _
    rw [step, ih, List.modifyHead_modifyHead]
    rfl

/-- What stands behind a text and is not cut belongs to the last piece. -/
theorem pieces_append_whole (m : Parted) (t : Text) : ∃ front last, pieces m = front ++ [last] ∧
    pieces (m ++ whole t) = front ++ [last ++ t] := by
  induction m with
  | nil =>
    have alone := pieces_whole_append t []
    rw [List.append_nil] at alone
    exact ⟨[], [], rfl, by rw [List.nil_append, alone, pieces_nil]; simp⟩
  | cons x m ih =>
    obtain ⟨front, last, before, behind⟩ := ih
    obtain ⟨c, cut⟩ := x
    rw [List.cons_append]
    cases cut with
    | true => exact ⟨[] :: front, last, by rw [pieces_cut, before]; rfl, by rw [pieces_cut, behind]; rfl⟩
    | false =>
      rw [pieces_kept, pieces_kept, before, behind]
      cases front with
      | nil => exact ⟨[], c :: last, rfl, rfl⟩
      | cons first front => exact ⟨(c :: first) :: front, last, rfl, rfl⟩

/-- The number of the characters that are not blank. -/
def inks (t : Text) : Nat := t.countP fun c => !isBlank c

theorem inks_strip (t : Text) : inks (Text.strip t) = inks t := by
  have none_inked {s : Text} (blank : ∀ c ∈ s, isBlank c = true) : inks s = 0 :=
    List.countP_eq_zero.2 fun c mem => by simp [blank c mem]
  obtain ⟨left, right, parts, blank, blank', -, -⟩ := Text.exists_padding isBlank t
  calc inks (Text.strip t)
    _ = inks left + inks (Text.strip t) + inks right := by
      rw [none_inked blank, none_inked blank', Nat.zero_add, Nat.add_zero]
    _ = inks (left ++ Text.strip t ++ right) := by simp only [inks, List.countP_append]
    _ = inks t := congrArg inks parts.symm

theorem map_inks_kept (c : Char) (m : Parted) : ∃ first rest, (pieces m).map inks = first :: rest ∧
    (pieces ((c, false) :: m)).map inks = (first + if isBlank c then 0 else 1) :: rest := by
  obtain ⟨first, rest, parts⟩ := List.exists_cons_of_ne_nil (pieces_ne_nil m)
  refine ⟨inks first, rest.map inks, by rw [parts]; rfl, ?_⟩
  rw [pieces_kept, parts, List.modifyHead_cons, List.map_cons, inks, List.countP_cons]
  by_cases blank : isBlank c = true <;> simp [blank, inks]

/-- A text is cut at nothing but commas. -/
def AtCommas (m : Parted) : Prop := ∀ x ∈ m, x.2 = true → x.1 = ','

/-- Where a text is cut at commas, the numbers of inked characters between the cuts tell the cuts. -/
theorem eq_of_inks (same : m.map (·.1) = m'.map (·.1)) (commas : AtCommas m) (commas' : AtCommas m')
    (counts : (pieces m).map inks = (pieces m').map inks) : m = m' := by
  have inked {c : Char} (comma : c = ',') : isBlank c = false := by
    subst comma
    decide
  induction m generalizing m' with
  | nil => exact (List.map_eq_nil_iff.1 same.symm).symm
  | cons x m ih =>
    cases m' with
    | nil => cases same
    | cons y m' =>
      obtain ⟨c, cut⟩ := x
      obtain ⟨d, cut'⟩ := y
      obtain ⟨rfl, chars⟩ := List.cons.inj same
      obtain ⟨here, later⟩ := List.forall_mem_cons.1 commas
      obtain ⟨here', later'⟩ := List.forall_mem_cons.1 commas'
      obtain ⟨first, rest, parts, kept⟩ := map_inks_kept c m
      obtain ⟨first', rest', parts', kept'⟩ := map_inks_kept c m'
      cases cut with
      | true =>
        cases cut' with
        | true =>
          rw [pieces_cut, pieces_cut] at counts
          rw [ih chars later later' (List.tail_eq_of_cons_eq counts)]
        | false =>
          -- a cut leaves nothing in front of it, and without it the comma stands there
          rw [pieces_cut, kept', inked (here rfl)] at counts
          cases List.head_eq_of_cons_eq counts
      | false =>
        cases cut' with
        | true =>
          rw [pieces_cut, kept, inked (here' rfl)] at counts
          cases List.head_eq_of_cons_eq counts
        | false =>
          rw [kept, kept'] at counts
          have heads := Nat.add_right_cancel (List.head_eq_of_cons_eq counts)
          rw [ih chars later later' (by rw [parts, parts', heads, List.tail_eq_of_cons_eq counts])]

/-- Where a text is cut at commas is seen in its pieces, blanks aside. -/
theorem map_strip_pieces_iff (same : m.map (·.1) = m'.map (·.1)) (commas : AtCommas m) (commas' : AtCommas m') :
    (pieces m).map Text.strip = (pieces m').map Text.strip ↔ m = m' := by
  refine ⟨fun stripped => eq_of_inks same commas commas' ?_, fun h => h ▸ rfl⟩
  have counts := congrArg (List.map inks) stripped
  simpa only [List.map_map, Function.comp_def, inks_strip] using counts

/-- A text is cut in the same places if the same commas are cuts. -/
theorem eq_iff_of_commas (same : m.map (·.1) = m'.map (·.1)) (commas : AtCommas m) (commas' : AtCommas m') :
    m = m' ↔ ∀ i : Nat, m[i]? = some (',', true) ↔ m'[i]? = some (',', true) := by
  refine ⟨fun h i => by rw [h], fun h => List.ext_getElem? fun i => ?_⟩
  have chars : (m[i]?).map (·.1) = (m'[i]?).map (·.1) := by
    rw [← List.getElem?_map, ← List.getElem?_map, same]
  cases here : m[i]? with
  | none =>
    rw [here] at chars
    exact (Option.map_eq_none_iff.1 chars.symm).symm
  | some x =>
    rw [here] at chars
    obtain ⟨y, there, char⟩ := Option.map_eq_some_iff.1 chars.symm
    obtain ⟨c, cut⟩ := x
    obtain ⟨d, cut'⟩ := y
    obtain rfl : d = c := char
    have held := h i
    rw [here, there] at held
    cases cut with
    | true =>
      obtain rfl : d = ',' := commas _ (List.mem_of_getElem? here) rfl
      exact (there.trans (held.1 rfl)).symm ▸ rfl
    | false =>
      cases cut' with
      | true =>
        obtain rfl : d = ',' := commas' _ (List.mem_of_getElem? there) rfl
        cases held.2 rfl
      | false => exact there.symm

/-- Blanks around a text do not matter for its pieces. -/
theorem map_strip_pieces_padded {left right : Text} (blank : ∀ c ∈ left, isBlank c = true)
    (blank' : ∀ c ∈ right, isBlank c = true) (m : Parted) :
    (pieces (whole left ++ (m ++ whole right))).map Text.strip = (pieces m).map Text.strip := by
  have lefts (t : Text) : Text.strip (left ++ t) = Text.strip t := Text.trim_append_left blank t
  have rights (t : Text) : Text.strip (t ++ right) = Text.strip t := Text.trim_append_right blank' t
  obtain ⟨front, last, alone, behind⟩ := pieces_append_whole m right
  rw [pieces_whole_append, behind, alone]
  cases front with
  | nil => simp [lefts, rights]
  | cons first front => simp [lefts, rights]

end Parted

end Typeahead
