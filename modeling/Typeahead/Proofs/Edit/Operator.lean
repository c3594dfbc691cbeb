import Typeahead.Proofs.Edit.OwnLine
import Typeahead.Proofs.Logs.Spaced
import Typeahead.Proofs.Suggestion.Ranked

/-!
Accepting an operator. It takes the place of the letters that it completes, with a blank on each side where there is
none; so it is a word of its own, and what is typed behind it follows an operator.

- `operatorHead`, `Lined.operator_eq`: what stands in front of an operator that is accepted, and the text with it.
- `accept_operator`: the rule for an operator that is offered, where no token is left open in front of it.
-/

namespace Typeahead

namespace Logs

/-- What stays of a line up to the cursor when an operator is accepted: all but the letters that it completes. -/
def operatorHead (front word : Text) : Text :=
  let typed := Text.trailing Char.isAlpha front
  if !typed.isEmpty && typed.lower.isPrefixOf word.lower then Text.trimRight Char.isAlpha front else front

theorem operatorHead_begins (front word : Text) : operatorHead front word <+: front := by
  unfold operatorHead
  dsimp only
  split
  · exact ⟨_, Text.trimRight_append_trailing ..⟩
  · exact List.prefix_rfl

theorem strip_word (o : Operator) : Text.strip o.word = o.word :=
  Text.strip_of_inked fun c mem => (plain_word o c mem).2.1

theorem not_isGap_eq (c : Char) : (!isBlank c && c != '(') = !isGap c := by
  rw [isGap, Bool.not_or]
  rfl

/-- The gap in front of an operator in a text, whose lines begin behind a line break. -/
theorem exists_gap {before : Text} (begins : ∀ c ∈ before.getLast?, c = '\n') (head : Text) : ∃ gaps,
    Gap head (if (before ++ head).getLast?.any fun c => !isBlank c && c != '(' then [' '] else []) gaps := by
  simp only [not_isGap_eq]
  cases last : head.getLast? with
  | none =>
    obtain rfl := List.getLast?_eq_none_iff.1 last
    rw [List.append_nil]
    refine ⟨[], ?_⟩
    cases ends : before.getLast? with
    | none => exact .none (by simp)
    | some c =>
      rw [begins c ends]
      exact .none (by simp)
  | some c =>
    have whole : (before ++ head).getLast? = some c := by rw [List.getLast?_append, last, Option.some_or]
    rw [whole, Option.any_some]
    cases gap : isGap c with
    | true =>
      refine ⟨[], .none ?_⟩
      intro d same
      rwa [← Option.some.inj (last.symm.trans same)]
    | false => exact ⟨_, .blank last gap⟩

end Logs

open Logs

/-- The character in front of a position is the last one up to it. -/
theorem any_before {t : Text} {n : Nat} (within : n ≤ t.length) (q : Char → Bool) :
    (decide (0 < n) && t[n - 1]?.any q) = (t.take n).getLast?.any q := by
  cases n with
  | zero => rfl
  | succ n => simp [List.getLast?_take, List.getElem?_eq_getElem within]

namespace Text.Lined

variable {t before line after : Text} (h : t.Lined before line after) {k start stop : Nat}

include h

/-- Whether an operator comes before a position is told by the line that it is in. -/
theorem afterOperator_eq (inked : line.hasInk = true) (here : Within before line k) :
    (Logs.contextOf t k).afterOperator = ((Reading.of line).contextAt (k - before.length)).afterOperator := by
  have within : k ≤ t.length := by
    have length := congrArg List.length h.parts
    rw [List.length_append, List.length_append] at length
    rw [Within] at here
    omega
  simp only [Logs.contextOf, Text.clamp_of_le t within, h.lineAt_eq here, inked, if_true]
  rfl

/-- An operator in the place of a part of a line, with blanks where there are none. -/
theorem splice_operator (first : Within before line start) (last : Within before line stop) (o : Operator) :
    let glued := 0 < start && t[start - 1]?.any fun c => !isBlank c && c != '('
    let spaced := t[stop]?.any isBlank
    let head := line.take (start - before.length)
    let rest := line.drop (stop - before.length)
    ∃ gap gaps behind, Gap head gap gaps ∧ (behind = [] ∨ behind = [' ']) ∧
      (∀ c ∈ (behind ++ rest).head?, isBlank c = true) ∧
      Edit.splice t start stop ((if glued then ' ' :: o.word else o.word) ++ if spaced then [] else [' ']) =
        ⟨before ++ (head ++ (gap ++ (o.word ++ (behind ++ rest)))) ++ after,
          before.length + (head ++ gap ++ o.word ++ behind).length⟩ := by
  intro glued spaced head rest
  have length := congrArg List.length h.parts
  rw [List.length_append, List.length_append] at length
  have front : t.take start = before ++ head := h.take_eq first
  have back : t.drop stop = rest ++ after := h.drop_eq last
  have shown : glued = (before ++ head).getLast?.any fun c => !isBlank c && c != '(' := by
    rw [← front, ← any_before (by rw [Within] at first; omega)]
  obtain ⟨gaps, gap⟩ := exists_gap h.begins head
  rw [← shown] at gap
  refine ⟨_, gaps, if spaced then [] else [' '], gap, ?_, ?_, ?_⟩
  · cases spaced
    · exact .inr rfl
    · exact .inl rfl
  · have next : spaced = (rest ++ after).head?.any isBlank := by rw [← back, List.head?_drop]
    cases blank : spaced with
    | false => simp; decide
    | true =>
      intro c among
      have begins : rest.head? = some c := among
      rw [blank, List.head?_append, begins] at next
      exact next.symm
  · have word : (if glued then ' ' :: o.word else o.word) = (if glued then [' '] else []) ++ o.word := by
      cases glued <;> rfl
    have position : start = before.length + head.length := by
      rw [← List.length_append, ← front, List.length_take]
      rw [Within] at first
      omega
    rw [Edit.splice, front, back, word, position]
    simp [Nat.add_assoc]

/-- The text with an operator that is accepted in one of its lines. -/
theorem operator_eq (here : Within before line k) (o : Operator) :
    let head := operatorHead (line.take (k - before.length)) o.word
    ∃ gap gaps behind rest, Gap head gap gaps ∧ (behind = [] ∨ behind = [' ']) ∧
      (∀ c ∈ (behind ++ rest).head?, isBlank c = true) ∧ rest <:+ line ∧
      Edit.operator t k o.word = ⟨before ++ (head ++ (gap ++ (o.word ++ (behind ++ rest)))) ++ after,
        before.length + (head ++ gap ++ o.word ++ behind).length⟩ := by
  have breaks : Char.isAlpha '\n' = false := by decide
  have typed : Text.trailing Char.isAlpha (t.take k) = Text.trailing Char.isAlpha (line.take (k - before.length)) := by
    rw [h.take_eq here, trailing_line breaks h.begins]
  have start := h.runStart breaks here
  have stop := h.runStop breaks here
  simp only [Edit.operator, strip_word, operatorHead, typed]
  rw [Edit.runStart, typed] at start
  split
  · have front : line.take (k - (Text.trailing Char.isAlpha (line.take (k - before.length))).length - before.length) =
        trimRight Char.isAlpha (line.take (k - before.length)) := by
      rw [Nat.sub_right_comm, take_sub_trailing (Nat.sub_le_of_le_add (Nat.add_comm _ _ ▸ here.2))]
    obtain ⟨gap, gaps, behind, space, spaced, blank, same⟩ := h.splice_operator start stop o
    rw [front] at space same
    exact ⟨gap, gaps, behind, _, space, spaced, blank, List.drop_suffix .., same⟩
  · obtain ⟨gap, gaps, behind, space, spaced, blank, same⟩ := h.splice_operator here here o
    exact ⟨gap, gaps, behind, _, space, spaced, blank, List.drop_suffix .., same⟩

end Text.Lined

namespace Logs

variable {text : Text} {cursor : Int}

/-- An operator that is offered is read as a word of its own when it is accepted, if no token is left open in front of
it; and what is typed behind it then follows an operator, but in the parentheses of a facet, where a value is typed. -/
theorem accept_operator {names : Candidates} {limit : Int} {item : Typeahead.Item}
    (offered : item ∈ suggest (contextOf text cursor) names limit) (kind : item.kind = .operator)
    (closed : let line := text.locate cursor
      leavesOpen (operatorHead (line.text.take (text.clamp cursor - line.offset)) item.insert) = false) :
    let e := Edit.accept text cursor item (contextOf text cursor)
    let line := e.text.lineAt e.cursor
    let position := e.cursor - line.offset
    (∃ t ∈ (Reading.of line.text).tokens, isOperator t = true ∧ t.written = item.insert ∧
      t.stop = (Text.trimRight isBlank (line.text.take position)).length) ∧
    ((contextOf e.text e.cursor).afterOperator = true ↔
      ((Reading.of line.text).openGroup? position).bind facetWord? = none) := by
  obtain ⟨before, line, after, lined, here, own⟩ := text.exists_lined (text.clamp_le cursor)
  change text.locate cursor = _ at own
  obtain ⟨o, insert⟩ := Suggestion.operator_of_offered offered kind
  simp only [own, insert] at closed
  intro e newLine position
  have start := (operatorHead_begins (line.take (text.clamp cursor - before.length)) o.word).trans (List.take_prefix ..)
  obtain ⟨gap, gaps, behind, rest, space, spaced, blank, suffix, same⟩ := lined.operator_eq here o
  generalize operatorHead (line.take (text.clamp cursor - before.length)) o.word = head at *
  have front : ∀ c ∈ head, Text.insideLine c = true := fun c mem => lined.inside c (start.subset mem)
  have inLine : ∀ c ∈ head ++ (gap ++ (o.word ++ (behind ++ rest))), Text.insideLine c = true := by
    have back : ∀ c ∈ rest, Text.insideLine c = true := fun c mem => lined.inside c (suffix.subset mem)
    have word : ∀ c ∈ o.word, Text.insideLine c = true := List.all_eq_true.1 (by cases o <;> decide)
    have between : ∀ c ∈ gap, Text.insideLine c = true := List.all_eq_true.1 (by cases space <;> rfl)
    have gone : ∀ c ∈ behind, Text.insideLine c = true := List.all_eq_true.1 (by rcases spaced with rfl | rfl <;> rfl)
    simp only [List.forall_mem_append]
    exact ⟨front, between, word, gone, back⟩
  have accepted : e = ⟨before ++ (head ++ (gap ++ (o.word ++ (behind ++ rest)))) ++ after,
      before.length + (head ++ gap ++ o.word ++ behind).length⟩ := by
    change Edit.acceptAt text (text.clamp cursor) item _ = _
    rw [Edit.acceptAt, kind]
    exact insert ▸ same
  have lined' := lined.replaced inLine
  have there : Text.Within before (head ++ (gap ++ (o.word ++ (behind ++ rest))))
      (before.length + (head ++ gap ++ o.word ++ behind).length) := by
    simp [Text.Within]
  have found : newLine = ⟨head ++ (gap ++ (o.word ++ (behind ++ rest))), before.length⟩ := by
    simp only [newLine, accepted]
    exact lined'.lineAt_eq there
  have at_ : position = (head ++ gap ++ o.word ++ behind).length := by
    simp only [position, found, accepted, Nat.add_sub_cancel_left]
  obtain ⟨token, context⟩ := read_operator o space front closed spaced blank
  have inked : Text.hasInk (head ++ (gap ++ (o.word ++ (behind ++ rest)))) = true := by
    obtain ⟨c, mem⟩ := List.exists_mem_of_ne_nil _ (word_ne_nil o)
    refine List.any_eq_true.2 ⟨c, by simp [mem], ?_⟩
    rw [(plain_word o c mem).2.1]
    rfl
  have context' := lined'.afterOperator_eq inked there
  rw [Nat.add_sub_cancel_left] at context'
  rw [found, at_, insert, accepted, context']
  exact ⟨token, context⟩

/-- The item of an operator, if it begins with what is typed. -/
def operatorItem (o : Operator) : Typeahead.Item := (Suggestion.operatorProposal o).item .beginning

theorem accept_operator_completed :
    let text : Text := "error AN".toList
    let c := contextOf text 8
    let e := Edit.accept text 8 (operatorItem .and) c
    operatorItem .and ∈ suggest c (fun _ => []) 10 ∧ e = ⟨"error AND ".toList, 10⟩ ∧
    (∃ t ∈ (Reading.of e.text).tokens, isOperator t = true ∧ t.written = "AND".toList ∧ t.stop = 9) ∧
    (contextOf e.text e.cursor).afterOperator = true := by
  intro text c e
  have offered : operatorItem .and ∈ suggest c (fun _ => []) 10 := by decide +kernel
  have accepted : e = ⟨"error AND ".toList, 10⟩ := by decide +kernel
  have line : e.text.lineAt e.cursor = ⟨e.text, 0⟩ := by decide +kernel
  have typed : (Text.trimRight isBlank (e.text.take e.cursor)).length = 9 := by decide +kernel
  have ungrouped : ((Reading.of e.text).openGroup? e.cursor).bind facetWord? = none := by decide +kernel
  obtain ⟨⟨t, among, operator, written, stop⟩, context⟩ := accept_operator offered rfl (by decide +kernel)
  change t ∈ (Reading.of (e.text.lineAt e.cursor).text).tokens at among
  change t.stop = (Text.trimRight isBlank ((e.text.lineAt e.cursor).text.take
    (e.cursor - (e.text.lineAt e.cursor).offset))).length at stop
  change (contextOf e.text e.cursor).afterOperator = true ↔ ((Reading.of (e.text.lineAt e.cursor).text).openGroup?
    (e.cursor - (e.text.lineAt e.cursor).offset)).bind facetWord? = none at context
  simp only [line, Nat.sub_zero] at among stop context
  exact ⟨offered, accepted, ⟨t, among, operator, written, stop.trans typed⟩, context.2 ungrouped⟩

/-- In the parentheses of a facet an operator is offered behind a string in quotes, but a value is typed behind it; and
behind a blank that is escaped an operator goes on the word that the blank belongs to. -/
theorem accept_operator_grouped :
    let text : Text := "status:(\"ERROR\"".toList
    let c := contextOf text 15
    let e := Edit.accept text 15 (operatorItem .or) c
    let text' : Text := "a\\ AN".toList
    let c' := contextOf text' 5
    let e' := Edit.accept text' 5 (operatorItem .and) c'
    operatorItem .or ∈ suggest c (fun _ => []) 10 ∧ e = ⟨"status:(\"ERROR\" OR ".toList, 19⟩ ∧
    (contextOf e.text e.cursor).afterOperator = false ∧
    operatorItem .and ∈ suggest c' (fun _ => []) 10 ∧ e' = ⟨"a\\ AND ".toList, 7⟩ ∧
    (Reading.of e'.text).tokens.all (fun t => !isOperator t) = true ∧
    (contextOf e'.text e'.cursor).afterOperator = false := by
  intro text c e text' c' e'
  have offered : operatorItem .or ∈ suggest c (fun _ => []) 10 := by
    have fits : operatorItem .or ∈ Suggestion.fitting c fun _ => [] := by decide +kernel
    have room : ((Suggestion.fitting c fun _ => []).map (·.label)).length ≤ 10 := by decide +kernel
    obtain ⟨kept, among, label⟩ : ∃ kept ∈ suggest c (fun _ => []) 10, kept.label = (operatorItem .or).label :=
      Suggestion.offered_of_fitting fits (List.mem_map_of_mem fits) (fun a mem _ => List.mem_map_of_mem mem)
        (by exact_mod_cast room)
    have only : ∀ a ∈ Suggestion.fitting c fun _ => [], a.label = (operatorItem .or).label → a = operatorItem .or := by
      decide +kernel
    rw [← only kept (Suggestion.mem_fitting_of_offered among) label]
    exact among
  exact ⟨offered, by decide +kernel⟩

end Logs

end Typeahead
