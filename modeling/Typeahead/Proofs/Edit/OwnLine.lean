import Typeahead.Proofs.Edit.Cursor
import Typeahead.Proofs.Edit.Splice
import Typeahead.Proofs.Reading.Typed

/-!
An accepted item changes no line but that of the cursor. What is replaced is found by runs of characters that
no line break belongs to, by what is typed of the line, or is the line itself; so none of it reaches over
the line breaks around.

- `Lined`, `exists_lined`, `Lined.lineAt_eq`: a text cut at one of its lines, and the line of a position.
- `Lined.runStart`, `Lined.runStop`, `Lined.valueStart`: what is found from within a line lies within it.
- `accept_ownLine`: the rule for all items.
-/

namespace Typeahead

namespace Text

/-- A text is cut at one of its lines: what stands before the line ends with a line break, if there is
anything, and what stands behind it begins with one. -/
structure Lined (t before line after : Text) : Prop where
  parts : t = before ++ line ++ after
  inside : ∀ c ∈ line, insideLine c = true
  begins : ∀ c ∈ before.getLast?, c = '\n'
  ends : ∀ c ∈ after.head?, c = '\n'

/-- A position in a line, the places at both its ends included. -/
def Within (before line : Text) (position : Nat) : Prop :=
  before.length ≤ position ∧ position ≤ before.length + line.length

theorem eq_break_of_outside {c : Char} (outside : insideLine c = false) : c = '\n' := by
  simpa [insideLine] using outside

/-- Every position of a text is in one of its lines. -/
theorem exists_lined (t : Text) {position : Nat} (within : position ≤ t.length) : ∃ before line after,
    t.Lined before line after ∧ Within before line position ∧ t.lineAt position = ⟨line, before.length⟩ := by
  have head := trimRight_append_trailing insideLine (t.take position)
  have rest := List.takeWhile_append_dropWhile (p := insideLine) (l := t.drop position)
  have length := congrArg List.length head
  rw [List.length_append, List.length_take, Nat.min_eq_left within] at length
  refine ⟨trimRight insideLine (t.take position), _, (t.drop position).dropWhile insideLine, ⟨?_, ?_, ?_, ?_⟩,
    ?_, congrArg (Line.mk _) ?_⟩
  · rw [← List.append_assoc, head, List.append_assoc, rest, List.take_append_drop]
  · simp only [List.forall_mem_append]
    exact ⟨fun c mem => List.mem_takeWhile_imp (List.mem_reverse.1 mem), fun c => List.mem_takeWhile_imp⟩
  · intro c last
    rw [trimRight, List.getLast?_reverse] at last
    have stopped := List.head?_dropWhile_not insideLine (t.take position).reverse
    rw [last] at stopped
    exact eq_break_of_outside (by simpa using stopped)
  · intro c first
    have stopped := List.head?_dropWhile_not insideLine (t.drop position)
    rw [first] at stopped
    exact eq_break_of_outside (by simpa using stopped)
  · rw [Within, List.length_append]
    omega
  · rw [List.length_take, Nat.min_eq_left within]
    omega

/-- A run of characters of a class ends before a character that is not of it. -/
theorem length_takeWhile_append_le {p : Char → Bool} {rest : Text} (ends : ∀ c ∈ rest.head?, p c = false) (t : Text) :
    ((t ++ rest).takeWhile p).length ≤ t.length := by
  rw [List.takeWhile_append]
  split
  · have stopped : rest.takeWhile p = [] := by
      cases rest with
      | nil => rfl
      | cons c rest => simp [ends c rfl]
    rw [stopped, List.append_nil]
  · exact (List.takeWhile_prefix p).length_le

theorem length_trailing_append_le {p : Char → Bool} {front : Text} (begins : ∀ c ∈ front.getLast?, p c = false)
    (t : Text) : (trailing p (front ++ t)).length ≤ t.length := by
  rw [← List.head?_reverse] at begins
  have run := length_takeWhile_append_le begins t.reverse
  rwa [← List.reverse_append, List.length_reverse, ← List.length_reverse] at run

/-- A run of a class with no line break does not reach over the beginning of its line. -/
theorem trailing_line {p : Char → Bool} {before : Text} (breaks : p '\n' = false)
    (begins : ∀ c ∈ before.getLast?, c = '\n') (t : Text) : trailing p (before ++ t) = trailing p t := by
  have parts := trimRight_append_trailing p t
  nth_rewrite 1 [← parts]
  rw [← List.append_assoc]
  apply trailing_append (fun c mem => forall_mem_trailing mem)
  intro c last
  rw [List.getLast?_append] at last
  cases ends : (trimRight p t).getLast? with
  | some d =>
    obtain rfl : d = c := by simpa [ends] using last
    exact last_trimRight ends
  | none =>
    have front : before.getLast? = some c := by simpa [ends] using last
    rw [begins c front]
    exact breaks

end Text

namespace Edit

theorem overColon_le {t : Text} {k : Nat} (within : k ≤ t.length) (insert : Text) :
    overColon t k insert ≤ t.length := by
  unfold overColon
  split
  · next colon =>
    have next : t[k]? = some ':' := by simpa using (Bool.and_eq_true_iff.1 colon).2
    exact (List.getElem?_eq_some_iff.1 next).1
  · exact within

/-- What stands before a part of a text and behind it is left alone, and the cursor is put in between. -/
def Between (e : Edit) (before after : Text) : Prop :=
  ∃ middle, e.text = before ++ middle ++ after ∧ before.length ≤ e.cursor ∧ e.cursor ≤ (before ++ middle).length

end Edit

namespace Text.Lined

variable {t before line after : Text} (h : t.Lined before line after) {p : Char → Bool} {k start stop : Nat}

include h

theorem take_eq (here : Within before line k) : t.take k = before ++ line.take (k - before.length) := by
  obtain ⟨i, rfl⟩ := Nat.exists_eq_add_of_le here.1
  rw [h.parts, List.append_assoc, List.take_length_add_append, Nat.add_sub_cancel_left,
    List.take_append_of_le_length (Nat.le_of_add_le_add_left here.2)]

theorem drop_eq (here : Within before line k) : t.drop k = line.drop (k - before.length) ++ after := by
  obtain ⟨i, rfl⟩ := Nat.exists_eq_add_of_le here.1
  rw [h.parts, List.append_assoc, List.drop_length_add_append, Nat.add_sub_cancel_left,
    List.drop_append_of_le_length (Nat.le_of_add_le_add_left here.2)]

/-- The line of a position. -/
theorem lineAt_eq (here : Within before line k) : t.lineAt k = ⟨line, before.length⟩ := by
  have left : trailing insideLine (before ++ line.take (k - before.length)) = line.take (k - before.length) :=
    trailing_append (fun c mem => h.inside c (List.mem_of_mem_take mem)) fun c last => h.begins c last ▸ by decide
  have right : (line.drop (k - before.length) ++ after).takeWhile insideLine = line.drop (k - before.length) := by
    rw [List.takeWhile_append_of_pos fun c mem => h.inside c (List.mem_of_mem_drop mem)]
    cases behind : after with
    | nil => simp
    | cons c rest => simp [h.ends c (by simp [behind]), insideLine]
  rw [lineAt, h.take_eq here, h.drop_eq here, left, right, List.take_append_drop, List.length_append,
    Nat.add_sub_cancel_right]

/-- Another line in the place of the line. -/
theorem replaced {line' : Text} (inLine : ∀ c ∈ line', insideLine c = true) :
    (before ++ line' ++ after).Lined before line' after := ⟨rfl, inLine, h.begins, h.ends⟩

theorem splice (first : Within before line start) (last : Within before line stop) (insert : Text) :
    (Edit.splice t start stop insert).Between before after := by
  refine ⟨line.take (start - before.length) ++ insert ++ line.drop (stop - before.length), ?_, ?_, ?_⟩
  · simp only [Edit.splice, h.take_eq first, h.drop_eq last, List.append_assoc]
  · exact Nat.le_add_right_of_le first.1
  · obtain ⟨-, upTo⟩ := first
    simp only [Edit.splice, List.length_append, List.length_take]
    omega

/-- A run of characters that holds no line break stays in its line on the left, -/
theorem runStart (breaks : p '\n' = false) (here : Within before line k) :
    Within before line (Edit.runStart p t k) := by
  have begins : ∀ c ∈ before.getLast?, p c = false := fun c last => h.begins c last ▸ breaks
  have run := Text.length_trailing_append_le begins (line.take (k - before.length))
  rw [List.length_take] at run
  obtain ⟨lower, upper⟩ := here
  rw [Edit.runStart, h.take_eq ⟨lower, upper⟩, Within]
  omega

/-- and on the right. -/
theorem runStop (breaks : p '\n' = false) (here : Within before line k) :
    Within before line (Edit.runStop p t k) := by
  have ends : ∀ c ∈ after.head?, p c = false := fun c first => h.ends c first ▸ breaks
  have run := Text.length_takeWhile_append_le ends (line.drop (k - before.length))
  rw [List.length_drop] at run
  obtain ⟨lower, upper⟩ := here
  rw [Edit.runStop, h.drop_eq ⟨lower, upper⟩, Within]
  omega

/-- A character at the end of a line that is no line break is not the next one of the text. -/
theorem lt_of_getElem? {c : Char} (here : Within before line k) (there : t[k]? = some c) (other : c ≠ '\n') :
    k < before.length + line.length := by
  refine Nat.lt_of_le_of_ne here.2 fun same => other (h.ends c ?_)
  rw [h.parts, same, ← List.length_append, List.getElem?_append_right (Nat.le_refl _), Nat.sub_self] at there
  rw [List.head?_eq_getElem?]
  exact there

theorem le_of_getElem? {c : Char} (lower : before.length ≤ k) (filled : 0 < k) (there : t[k - 1]? = some c)
    (other : c ≠ '\n') : before.length ≤ k - 1 := by
  refine Nat.le_of_not_lt fun less => other (h.begins c ?_)
  obtain rfl : k = before.length := by omega
  rw [h.parts, List.append_assoc, List.getElem?_append_left less] at there
  rw [List.getLast?_eq_getElem?]
  exact there

theorem overColon (here : Within before line k) (insert : Text) : Within before line (Edit.overColon t k insert) := by
  unfold Edit.overColon
  split
  · next colon =>
    have next : t[k]? = some ':' := by simpa using (Bool.and_eq_true_iff.1 colon).2
    exact ⟨Nat.le_succ_of_le here.1, h.lt_of_getElem? here next (by decide)⟩
  · exact here

theorem valueStart {context : Context} (here : Within before line k)
    (typed : context.place ≠ .groupingTag → context.token <:+ line.take (k - before.length)) :
    Within before line (Edit.valueStart t k context) := by
  obtain ⟨lower, upper⟩ := here
  simp only [Edit.valueStart]
  split
  · next value =>
    have place : context.place = .filterValue ∨ context.place = .facetValue := by
      simpa using (Bool.and_eq_true_iff.1 value).1
    have length := (typed (by rcases place with same | same <;> simp [same])).length_le
    rw [List.length_take] at length
    split
    · next quoted =>
      obtain ⟨filled, quote⟩ : 0 < k - context.token.length ∧ t[k - context.token.length - 1]? = some '"' := by
        simpa using quoted
      have reached := h.le_of_getElem? (by omega) filled quote (by decide)
      exact ⟨reached, by omega⟩
    · exact ⟨by omega, by omega⟩
  · refine h.runStart ?_ ⟨lower, upper⟩
    cases context.language <;> decide

theorem replaceRun (breaks : p '\n' = false) (here : Within before line k) (insert : Text) :
    (Edit.replaceRun p t k insert).Between before after :=
  h.splice (h.runStart breaks here) (h.overColon (h.runStop breaks here) insert) insert

theorem value {context : Context} (here : Within before line k)
    (typed : context.place ≠ .groupingTag → context.token <:+ line.take (k - before.length)) (insert : Text) :
    (Edit.value t k insert context).Between before after := by
  have breaks : (!Edit.endsValue context.language '\n') = false := by cases context.language <;> decide
  exact h.splice (h.valueStart here typed) (h.runStop breaks here) insert

theorem operator (here : Within before line k) (insert : Text) :
    (Edit.operator t k insert).Between before after := by
  have breaks : Char.isAlpha '\n' = false := by decide
  have start := h.runStart breaks here
  have stop := h.runStop breaks here
  simp only [Edit.operator]
  apply h.splice
  · split
    · exact start
    · exact here
  · split
    · exact stop
    · exact here

theorem metricLine (own : t.lineAt k = ⟨line, before.length⟩) (insert : Text) :
    (Edit.metricLine t k insert).Between before after := by
  simp only [Edit.metricLine, own]
  exact h.splice ⟨Nat.le_refl _, Nat.le_add_right ..⟩ ⟨Nat.le_add_right .., Nat.le_refl _⟩ _

theorem listEntry (own : t.lineAt k = ⟨line, before.length⟩) (here : Within before line k) (label insert : Text) :
    (Edit.listEntry t k label insert).Between before after := by
  obtain ⟨lower, upper⟩ := here
  have stop : Edit.runStop Edit.isKeyPart line (k - before.length) ≤ line.length :=
    Edit.runStop_le _ (by omega)
  simp only [Edit.listEntry, own]
  split
  · have partly := (List.dropWhile_suffix (fun c => c = '!' || c = '-')
      (l := trailing Edit.isKeyPart (line.take (k - before.length)))).length_le
    have typed := (trailing_suffix Edit.isKeyPart (line.take (k - before.length))).length_le
    have beyond := Edit.overColon_le stop insert
    rw [List.length_take] at typed
    refine h.splice ⟨?_, ?_⟩ ⟨Nat.le_add_right .., Nat.add_le_add_left beyond _⟩ _
    · rw [trimLeft]
      omega
    · omega
  · have there : Within before line (before.length + _) := ⟨Nat.le_add_right .., Nat.add_le_add_left stop _⟩
    exact h.splice there there _

/-- Whatever is accepted with the cursor in a line, nothing but this line changes. -/
theorem acceptAt (own : t.lineAt k = ⟨line, before.length⟩) (here : Within before line k) (item : Item)
    {context : Context}
    (typed : context.place ≠ .groupingTag → context.token <:+ line.take (k - before.length)) :
    (Edit.acceptAt t k item context).Between before after := by
  simp only [Edit.acceptAt]
  cases item.kind with
  | metric => exact h.metricLine own _
  | groupingTag | filterKey => exact h.listEntry own here ..
  | filterValue | service | source | level | facetValue => exact h.value here typed _
  | operator => exact h.operator here _
  | pattern => exact h.splice here here _
  | facet | aggregator => exact h.replaceRun (by decide) here _

end Text.Lined

/-- Every text is cut at the line of its cursor, and whatever item is accepted there, of whatever kind and
whatever it inserts: what stands before this line and behind it stays, and the cursor is put in between. -/
theorem Edit.accept_ownLine (language : Language) (text : Text) (cursor : Int) (item : Item) :
    ∃ before line after, text.Lined before line after ∧ Text.Within before line (text.clamp cursor) ∧
      (Edit.accept text cursor item (contextOf language text cursor)).Between before after := by
  obtain ⟨before, line, after, lined, here, own⟩ := text.exists_lined (text.clamp_le cursor)
  refine ⟨before, line, after, lined, here, lined.acceptAt own here item fun ungrouped => ?_⟩
  have typed := token_suffix language text cursor ungrouped
  rwa [Text.locate, own] at typed

end Typeahead
