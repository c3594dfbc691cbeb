import Typeahead.Proofs.Edit.OwnLine
import Typeahead.Proofs.Suggestion.Offered
import Typeahead.Proofs.Text.Lower

/-!
Accepting the name of a facet. What is typed of it is found by one class of characters in a search and by another
one where a facet is named, and what is replaced by a third one.

- `token_eq_trailing`: what is typed in front of a cursor that is not in a value.
- `ascii_or_kelvin_of_offered`, `exists_front`: what is typed of an offered name, and what stands before it.
- `accept_facet`: the name takes the place of the run that is typed.
-/

namespace Typeahead

namespace Text

variable {p : Char → Bool} {stays run : Text}

/-- What ends a text is its last run of a class if it is of this class, and what stands before it does not end so. -/
theorem trailing_append_eq_iff :
    trailing p (stays ++ run) = run ↔ (∀ c ∈ run, p c = true) ∧ ∀ c ∈ stays.getLast?, p c = false := by
  constructor
  · intro same
    have all : ∀ c ∈ run, p c = true := fun c mem => forall_mem_trailing (same.symm ▸ mem)
    refine ⟨all, fun c last => ?_⟩
    rw [trailing_append_run all] at same
    have none : trailing p stays = [] := List.append_left_eq_self.1 same
    by_contra fits
    have ends := getLast?_trailing last (by simpa using fits)
    rw [none] at ends
    cases ends
  · rintro ⟨all, ends⟩
    exact trailing_append all ends

/-- The beginning of a text is what stands before its last run of a class, and this run. -/
theorem take_of_trailing (t : Text) {k : Nat} (within : k ≤ t.length) :
    t.take k = t.take (k - (trailing p (t.take k)).length) ++ trailing p (t.take k) ∧
      ∀ c ∈ (t.take (k - (trailing p (t.take k)).length)).getLast?, p c = false := by
  rw [take_sub_trailing within]
  exact ⟨(trimRight_append_trailing p (t.take k)).symm, fun c last => last_trimRight last⟩

end Text

namespace Logs

/-- A character of the names of fields. -/
def isFieldChar (c : Char) : Bool := c.isAlphanum || c = '_' || c = '.' || c = '-' || c = '@'

/-- The characters that are replaced are those of a search and one more, without another one. -/
theorem isFacetPart_iff_isSearchChar {c : Char} :
    Edit.isFacetPart c = true ↔ isSearchChar c = true ∧ c ≠ '-' ∨ c = '@' := by
  simp only [isSearchChar, Edit.isFacetPart, Bool.or_eq_true, decide_eq_true_eq]
  constructor
  · intro part
    by_cases at_ : c = '@'
    · exact .inr at_
    · refine .inl ⟨by grind, ?_⟩
      rintro rfl
      revert part
      decide
  · grind

/-- In ASCII they are those of the name of a facet. -/
theorem isFacetPart_iff_isFacetChar {c : Char} (ascii : c.toNat < 0x80) :
    Edit.isFacetPart c = isFacetChar c := by
  have beyond : ¬ 0x80 ≤ c.toNat := Nat.not_le.2 ascii
  simp only [Edit.isFacetPart, isFacetChar, isWordChar, beyond, decide_false, Bool.false_and, Bool.or_false]
  grind

theorem toNat_lt_of_isFacetPart {c : Char} (part : Edit.isFacetPart c = true) : c.toNat < 0x80 := by
  simp only [Edit.isFacetPart, Bool.or_eq_true, decide_eq_true_eq] at part
  rcases part with ((alphanumeric | rfl) | rfl) | rfl
  · exact toNat_lt_of_isAlphanum alphanumeric
  all_goals decide

theorem inked_of_isSearchChar {c : Char} (search : isSearchChar c = true) : isBlank c = false := by
  simp only [isSearchChar, Bool.or_eq_true, decide_eq_true_eq] at search
  rcases search with ((alphanumeric | rfl) | rfl) | rfl
  · exact Typeahead.inked_of_isAlphanum alphanumeric
  all_goals decide

variable {text : Text} {cursor : Int}

/-- Only in front of a line no token stands. -/
theorem take_eq_nil_of_focusBefore? {line : Text} {position : Nat}
    (missed : focusBefore? (Reading.of line).tokens position = none) : line.take position = [] := by
  by_contra filled
  obtain ⟨nonempty, positive⟩ : line ≠ [] ∧ 0 < position := by
    constructor
    · rintro rfl
      exact filled List.take_nil
    · apply Nat.pos_of_ne_zero
      rintro rfl
      exact filled List.take_zero
  obtain ⟨c, rest, same⟩ := List.exists_cons_of_ne_nil (Text.mask_ne_nil nonempty)
  have none := List.find?_eq_none.1 missed
  simp only [Reading.of, tokens, same, Lexer.scan, Lexer.place, focuses, focusesFrom, List.mem_reverse] at none
  exact none _ List.mem_cons_self (decide_eq_true positive)

namespace Reading

/-- At a search term what is typed is a run of one class, and where a facet is named one of another class. -/
theorem termContext_token (r : Reading) {base : Context} (search : base.place = .logsSearch) (f : Focus)
    (position : Nat) : let c := r.termContext base f position
    (c.place = .facetName → c.token = Text.trailing isFacetChar (r.text.take position)) ∧
      (c.place = .logsSearch → c.token = Text.trailing isSearchChar (r.text.take position)) := by
  unfold termContext
  dsimp only
  generalize (if f.token.kind = .word then bareFacet (f.token.written.take (position - f.token.start)) else []) =
    typed
  split
  · constructor
    · intro _
      rfl
    · intro search
      cases search
  · constructor
    · intro place
      rw [search] at place
      cases place
    · exact fun _ => rfl

/-- What is typed at a position of a line, unless it is in a value or in quotes. -/
theorem contextAt_token (line : Text) (position : Nat) : let c := (of line).contextAt position
    (c.place = .facetName → c.token = Text.trailing isFacetChar (line.take position)) ∧
      (c.place = .logsSearch → c.inQuotes = false →
        c.token = Text.trailing isSearchChar (line.take position)) := by
  unfold contextAt
  dsimp only
  split
  · next missed =>
    rw [take_eq_nil_of_focusBefore? missed]
    constructor
    · intro place
      cases place
    · intro _ _
      rfl
  · next f found =>
    split
    · constructor <;>
        · intro place
          cases place
    · split
      · next quoted =>
        constructor
        · intro place
          cases place
        intro _ outside
        -- behind the quote that closes a string no term is typed
        obtain ⟨-, closed⟩ : f.token.stop ≤ position ∧
            isClosedString (f.token.written.take (position - f.token.start)) = true := by simpa using outside
        have ends : (line.take position).getLast? = some '"' := by
          obtain ⟨front, same⟩ := typed_suffix found
          cases typed : f.token.written.take (position - f.token.start) with
          | nil => simp [typed, isClosedString] at closed
          | cons quote body =>
            have last : body.getLast? = some '"' := by
              simp only [typed, isClosedString, Bool.and_eq_true, decide_eq_true_eq] at closed
              exact closed.1
            rw [← same, typed, List.getLast?_append, List.getLast?_cons, last]
            rfl
        exact (Text.trailing_eq_nil (by simp [ends]; decide)).symm
      · split
        · constructor <;>
            · intro place
              cases place
        · constructor
          · exact ((of line).termContext_token rfl f position).1
          · intro place _
            exact ((of line).termContext_token rfl f position).2 place

end Reading

/-- What is typed in front of a cursor that is not in a value or in quotes. -/
theorem token_eq_trailing (text : Text) (cursor : Int) : let c := contextOf text cursor
    let head := text.take (text.clamp cursor)
    (c.place = .facetName → c.token = Text.trailing isFacetChar head) ∧
      (c.place = .logsSearch → c.inQuotes = false → c.token = Text.trailing isSearchChar head) := by
  obtain ⟨before, line, after, lined, here, own⟩ := text.exists_lined (text.clamp_le cursor)
  have head := lined.take_eq here
  have class_line {p : Char → Bool} (breaks : p '\n' = false) : Text.trailing p (text.take (text.clamp cursor)) =
      Text.trailing p (line.take (text.clamp cursor - before.length)) := by
    rw [head]
    exact Text.trailing_line breaks lined.begins _
  simp only [contextOf, own, Context.located]
  rw [class_line (by decide +kernel), class_line (by decide)]
  split
  · exact Reading.contextAt_token line _
  · next blank =>
    constructor
    · intro place
      cases place
    intro _ _
    have inked : ∀ c ∈ line, isBlank c = true := by simpa [Text.hasInk] using blank
    refine (Text.trailing_eq_nil fun c last => ?_).symm
    have blank := inked c (List.mem_of_mem_take (List.mem_of_getLast? last))
    by_contra search
    rw [inked_of_isSearchChar (by simpa using search)] at blank
    cases blank

/-- The characters of a name that are typed are in ASCII, but for the sign of the Kelvin. -/
theorem ascii_or_kelvin_of_offered {c : Context} {names : Candidates} {limit : Int} {item : Typeahead.Item}
    (simple : ∀ name ∈ names .fields, ∀ d ∈ name, isFieldChar d = true) (offered : item ∈ suggest c names limit)
    (kind : item.kind = .facet) : ∀ d ∈ c.token, d.toNat < 0x80 ∨ d = Text.kelvin := by
  obtain ⟨-, name, among, -, holds⟩ := Suggestion.facet_of_offered offered kind
  have ascii : ∀ d ∈ name ++ [':'], d.toNat < 0x80 := by
    intro d mem
    rcases List.mem_append.1 mem with own | colon
    · have field := simple name among d own
      simp only [isFieldChar, Bool.or_eq_true, decide_eq_true_eq] at field
      rcases field with (((alphanumeric | rfl) | rfl) | rfl) | rfl
      · exact toNat_lt_of_isAlphanum alphanumeric
      all_goals decide
    · rw [List.mem_singleton.1 colon]
      decide
  apply Text.ascii_or_kelvin
  intro d mem
  have inside := (Text.occurs_iff.1 holds).subset mem
  rw [Text.lower_of_ascii ascii, List.mem_map] at inside
  obtain ⟨e, own, rfl⟩ := inside
  exact Typeahead.holds_of_ascii (P := fun e => e.toLower.toNat < 0x80) (by decide +kernel) (ascii e own)

/-- What is typed of a name is of the characters that are replaced, but for a dash and the sign of the Kelvin; and of
them only an `@` may stand before it. -/
theorem exists_front {names : Candidates} {limit : Int} {item : Typeahead.Item}
    (simple : ∀ name ∈ names .fields, ∀ d ∈ name, isFieldChar d = true)
    (offered : item ∈ suggest (contextOf text cursor) names limit) (kind : item.kind = .facet)
    (dash : '-' ∉ (contextOf text cursor).token) (sign : Text.kelvin ∉ (contextOf text cursor).token) :
    let c := contextOf text cursor
    let front := text.take (text.clamp cursor - c.token.length)
    text.take (text.clamp cursor) = front ++ c.token ∧ (∀ d ∈ c.token, Edit.isFacetPart d = true) ∧
      ∀ d ∈ front.getLast?, Edit.isFacetPart d = true ↔ d = '@' := by
  intro c front
  obtain ⟨place, -⟩ := Suggestion.search_of_offered offered (by simp [Suggestion.kindsAt, kind])
  have outside := (Suggestion.facet_of_offered offered kind).1
  have codes := ascii_or_kelvin_of_offered simple offered kind
  obtain ⟨named, term⟩ := token_eq_trailing text cursor
  -- what is typed is the run of a class that ends in front of the cursor
  have cut {p : Char → Bool} (run : c.token = Text.trailing p (text.take (text.clamp cursor))) :
      text.take (text.clamp cursor) = front ++ c.token ∧ (∀ d ∈ c.token, p d = true) ∧
        ∀ d ∈ front.getLast?, p d = false := by
    obtain ⟨parts, last⟩ := text.take_of_trailing (p := p) (text.clamp_le cursor)
    rw [← run] at parts last
    exact ⟨parts, fun d mem => Text.forall_mem_trailing (run ▸ mem), last⟩
  rcases place with search | facet
  · obtain ⟨head, own, last⟩ := cut (term search outside)
    refine ⟨head, fun d mem => ?_, fun d mem => ⟨fun part => ?_, ?_⟩⟩
    · exact isFacetPart_iff_isSearchChar.2 (.inl ⟨own d mem, fun same => dash (same ▸ mem)⟩)
    · rcases isFacetPart_iff_isSearchChar.1 part with ⟨search, -⟩ | at_
      · rw [last d mem] at search
        cases search
      · exact at_
    · rintro rfl
      decide
  · obtain ⟨head, own, last⟩ := cut (named facet)
    refine ⟨head, fun d mem => ?_, fun d mem => ⟨fun part => ?_, ?_⟩⟩
    · have ascii := (codes d mem).resolve_right fun same => sign (same ▸ mem)
      exact (isFacetPart_iff_isFacetChar ascii).trans (own d mem)
    · rw [isFacetPart_iff_isFacetChar (toNat_lt_of_isFacetPart part), last d mem] at part
      cases part
    · rintro rfl
      exact absurd (last '@' mem) (by decide)

/-- The name of a facet that is accepted takes the place of the run of characters of a name in front of the cursor. It
ends with what is typed, and is just this unless an `@` stands before it. -/
theorem accept_facet {names : Candidates} {limit : Int} {item : Typeahead.Item}
    (simple : ∀ name ∈ names .fields, ∀ d ∈ name, isFieldChar d = true)
    (offered : item ∈ suggest (contextOf text cursor) names limit) (kind : item.kind = .facet)
    (dash : '-' ∉ (contextOf text cursor).token) (sign : Text.kelvin ∉ (contextOf text cursor).token) :
    let c := contextOf text cursor
    let run := Text.trailing Edit.isFacetPart (text.take (text.clamp cursor))
    let stays := text.take (text.clamp cursor - run.length)
    let e := Edit.accept text cursor item c
    (c.token <:+ run ∧ (run = c.token ↔ (text.take (text.clamp cursor - c.token.length)).getLast? ≠ some '@')) ∧
      stays ++ item.insert <+: e.text ∧ e.cursor = (stays ++ item.insert).length := by
  intro c run stays e
  obtain ⟨head, own, last⟩ := exists_front simple offered kind dash sign
  have accepted : e = Edit.replaceRun Edit.isFacetPart text (text.clamp cursor) item.insert := by
    change Edit.acceptAt text (text.clamp cursor) item c = _
    rw [Edit.acceptAt, kind]
  constructor
  · simp only [run, head]
    constructor
    · rw [Text.trailing_append_run own]
      exact List.suffix_append ..
    · rw [Text.trailing_append_eq_iff]
      constructor
      · rintro ⟨-, ends⟩ at_
        exact absurd (ends '@' at_) (by decide)
      · intro other
        refine ⟨own, fun d mem => ?_⟩
        by_contra part
        exact other ((last d mem).1 (by simpa using part) ▸ mem)
  · rw [accepted]
    constructor
    · exact List.prefix_append ..
    · change Edit.runStart Edit.isFacetPart text (text.clamp cursor) + item.insert.length =
        (stays ++ item.insert).length
      have within := text.clamp_le cursor
      rw [List.length_append, List.length_take, Edit.runStart, Nat.min_eq_left (by omega)]

theorem simple_of_all {names : List Text} (all : names.all (·.all isFieldChar) = true) :
    ∀ name ∈ names, ∀ d ∈ name, isFieldChar d = true :=
  fun name mem => List.all_eq_true.1 (List.all_eq_true.1 all name mem)

/-- The item of a field whose name fits what is typed. -/
def fieldItem (name : Text) (fit : Fit) : Typeahead.Item := (Suggestion.facetProposal name).item fit

theorem accept_facet_host :
    let names : Candidates := fun _ => ["host".toList]
    let text : Text := "err ho".toList
    let e := Edit.accept text 6 (fieldItem "host".toList .beginning) (contextOf text 6)
    (∀ name ∈ names .fields, ∀ d ∈ name, isFieldChar d = true) ∧
    fieldItem "host".toList .beginning ∈ suggest (contextOf text 6) names 10 ∧
    (contextOf text 6).token = "ho".toList ∧ "err host:".toList <+: e.text ∧ e.cursor = 9 := by
  intro names text e
  have simple : ∀ name ∈ names .fields, ∀ d ∈ name, isFieldChar d = true := simple_of_all (by decide)
  have offered : fieldItem "host".toList .beginning ∈ suggest (contextOf text 6) names 10 := by decide +kernel
  have token : (contextOf text 6).token = "ho".toList := by decide +kernel
  have replaced := accept_facet simple offered rfl (by rw [token]; decide) (by rw [token]; decide)
  exact ⟨simple, offered, token, replaced.2⟩

/-- An item takes the place of what is typed at a cursor, and the new cursor stands behind it. -/
def Replaces (text : Text) (cursor : Int) (item : Typeahead.Item) : Prop :=
  let c := contextOf text cursor
  let new := text.take (text.clamp cursor - c.token.length) ++ item.insert
  let e := Edit.accept text cursor item c
  new <+: e.text ∧ e.cursor = new.length

instance (text : Text) (cursor : Int) (item : Typeahead.Item) : Decidable (Replaces text cursor item) :=
  inferInstanceAs (Decidable (_ ∧ _))

/-- An `@` that is not taken for typed is replaced all the same; and a dash or the sign of the Kelvin is taken for
typed, but not replaced. -/
theorem not_replaces_at :
    let names : Candidates := fun _ => ["@custom".toList, "a-b".toList, "k".toList]
    (∀ name ∈ names .fields, ∀ d ∈ name, isFieldChar d = true) ∧
    (fieldItem "@custom".toList .inside ∈ suggest (contextOf "@cust".toList 5) names 10 ∧
      (Edit.accept "@cust".toList 5 (fieldItem "@custom".toList .inside) (contextOf "@cust".toList 5)).text =
        "@custom:".toList ∧
      ¬ Replaces "@cust".toList 5 (fieldItem "@custom".toList .inside)) ∧
    (fieldItem "a-b".toList .beginning ∈ suggest (contextOf "a-b".toList 3) names 10 ∧
      ¬ Replaces "a-b".toList 3 (fieldItem "a-b".toList .beginning)) ∧
    fieldItem "k".toList .beginning ∈ suggest (contextOf [Text.kelvin, ':'] 1) names 10 ∧
      ¬ Replaces [Text.kelvin, ':'] 1 (fieldItem "k".toList .beginning) :=
  ⟨simple_of_all (by decide), by decide +kernel⟩

end Logs

end Typeahead
