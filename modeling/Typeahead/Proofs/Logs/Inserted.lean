import Typeahead.Proofs.Edit.FacetValue
import Typeahead.Proofs.Logs.Grammar
import Typeahead.Proofs.Text.Lower

/-!
What the check says of a value of a facet once it is inserted behind the colon of the facet.

- `FacetName.checkedTokens_insertedValue`: the check reads the three tokens that the lexer reads.
- `FacetName.errors_insertedValue`: the one error that an inserted value may have.
- `accept_offered_errors_iff`: which of the offered values the check accepts.
- `offered_words_are_rejected`: it does not accept the words of the operators, and no two wildcards in a row.
-/

namespace Typeahead.Logs

open Lexer

/-- What the check finds wrong with a value that is inserted: the name of an operator, and two wildcards in a row,
unless the value is put in quotes. -/
def valueFault? (value : Text) : Option Fault :=
  if value.any isFacetMark then none
  else match Operator.named? value with
    | some o => some (.operatorAlone o)
    | none =>
      if Text.occurs ['*', '*'] (Text.mask value) then some (.doubleWildcard (Text.mask value)) else none

theorem Operator.named?_eq_some_iff (w : Text) (o : Operator) : named? w = some o ↔ o.word = w := by
  constructor
  · intro found
    simpa using List.find?_some found
  · rintro rfl
    cases o <;> rfl

/-- What is masked is no operator. -/
theorem Operator.named?_mask (w : Text) : named? (Text.mask w) = named? w := by
  have plain (o : Operator) : Text.mask o.word = o.word ∧ 'x' ∉ o.word := by
    cases o <;> decide
  apply Option.ext
  intro o
  rw [named?_eq_some_iff, named?_eq_some_iff]
  constructor
  · intro same
    exact (Text.eq_of_mask same.symm (plain o).2).symm
  · rintro rfl
    exact (plain o).1.symm

/-- Masking brings no marks. -/
theorem unmarked_mask {value : Text} (unmarked : value.any isFacetMark = false) :
    (Text.mask value).any isFacetMark = false := by
  rw [List.any_eq_false] at unmarked ⊢
  intro c mem
  rcases Text.mem_mask mem with rfl | among
  · decide
  · exact unmarked c among

/-- A masked value reads as one token. -/
theorem scan_maskedValue {value : Text} (filled : value ≠ []) (inLine : ∀ c ∈ value, Text.insideLine c = true) :
    let masked := Text.mask (quoteFacetValue value)
    scan logsMarks (Text.mask masked) = [((valueToken 0 value).kind, Text.mask masked)] := by
  intro masked
  cases marked : value.any isFacetMark with
  | true =>
    have units := ((units_escapeQuoted inLine).mask (by decide)).mask (by decide)
    have cut := scan_closedString units []
    simp only [masked, quoteFacetValue_of_marked marked, mask_quoted, valueToken, marked, if_true]
    rwa [List.append_nil, scan] at cut
  | false =>
    have bare := unmarked_mask marked
    have inLine' : ∀ c ∈ Text.mask value, Text.insideLine c = true := by
      simpa [Text.insideLine] using Text.mask_inLine inLine
    have cut := scan_quoteFacetValue (Text.mask_ne_nil filled) inLine' (show Stops logsMarks [] from .nil)
    rw [quoteFacetValue_of_unmarked bare, List.append_nil, scan] at cut
    simpa only [masked, quoteFacetValue_of_unmarked marked, valueToken, marked, bare] using cut

theorem inked_last_maskedValue (value : Text) :
    ∀ c ∈ (Text.mask (quoteFacetValue value)).getLast?, isBlank c = false := by
  cases marked : value.any isFacetMark with
  | true =>
    intro c last
    rw [quoteFacetValue_of_marked marked, mask_quoted, ← List.cons_append, List.getLast?_concat] at last
    obtain rfl := Option.some.inj last
    decide
  | false =>
    intro c last
    rw [quoteFacetValue_of_unmarked marked] at last
    have plain := List.any_eq_false.1 (unmarked_mask marked) c (List.mem_of_getLast? last)
    simp only [isFacetMark, Bool.or_eq_true, not_or] at plain
    simpa using plain.1.1.1.1.1

namespace FacetName

variable (f : FacetName)

/-- A line with a value has no blanks at its ends. -/
theorem strip_lineWith {x : Text} (last : ∀ c ∈ x.getLast?, isBlank c = false) :
    Text.strip (f.lineWith x) = f.lineWith x := by
  have first : ∀ c ∈ (f.lineWith x).head?, isBlank c = false := by
    intro c mem
    rw [lineWith, List.head?_append_of_ne_nil _ f.nonempty] at mem
    have plain := (f.plain c (List.mem_of_head? mem)).1
    simp only [isPlain, Bool.and_eq_true, Bool.not_eq_true'] at plain
    exact plain.1.1.1
  have last' : ∀ c ∈ (f.lineWith x).getLast?, isBlank c = false := by
    intro c mem
    rw [lineWith, List.getLast?_append, List.getLast?_cons, Option.some_or] at mem
    obtain rfl := Option.some.inj mem
    cases ends : x.getLast? with
    | none => decide
    | some d => exact last d ends
  exact Text.trim_of_ends first last'

/-- The check reads the three tokens that the lexer reads. -/
theorem checkedTokens_insertedValue {value : Text} (filled : value ≠ [])
    (inLine : ∀ c ∈ value, Text.insideLine c = true) :
    let masked := Text.mask (quoteFacetValue value)
    checkedTokens (f.lineWith (quoteFacetValue value)) =
      [f.nameToken, f.colonToken, ⟨(valueToken 0 value).kind, f.text.length + 1, masked, Text.mask masked⟩] := by
  intro masked
  rw [checkedTokens, f.mask_lineWith, f.strip_lineWith (inked_last_maskedValue value)]
  exact f.tokens_lineWith (scan_maskedValue filled inLine)

variable (lower : ∀ c ∈ f.text, c.isLower = true)

include lower

/-- A name in lower case is no operator. -/
theorem operator?_nameToken : operator? f.nameToken = none := by
  have capital (o : Operator) : ∃ c ∈ o.word, c.isLower = false := by
    cases o with
    | and => exact ⟨'A', by decide, by decide⟩
    | or => exact ⟨'O', by decide, by decide⟩
    | not => exact ⟨'N', by decide, by decide⟩
  have other : ∀ o ∈ Operator.all, ¬ decide (o.word = f.text) = true := by
    intro o _ same
    obtain ⟨c, mem, upper⟩ := capital o
    rw [of_decide_eq_true same] at mem
    exact Bool.false_ne_true (upper.symm.trans (lower c mem))
  exact List.find?_eq_none.2 other

theorem starless : '*' ∉ f.text := fun mem => absurd (lower '*' mem) (by decide)

/-- No two wildcards meet in a name in lower case, nor at its end. -/
theorem wildcardless : Text.occurs ['*', '*'] f.text = false ∧ f.text.getLast? ≠ some '*' := by
  have free := f.starless lower
  refine ⟨?_, fun last => free (List.mem_of_getLast? last)⟩
  rw [← Bool.not_eq_true, Text.occurs_iff]
  exact fun inside => free (inside.subset List.mem_cons_self)

/-- What may be wrong with a line that holds one value of a facet. -/
theorem fault?_value {t : Token} (valued : t.kind = .word ∨ t.kind = .quoted) :
    fault? [f.nameToken, f.colonToken, t] =
      if t.kind = .quoted then if isClosedString t.written then none else some (.openQuote (t.start + 1))
      else match operator? t with
        | some o => some (.operatorAlone o)
        | none => if Text.occurs ['*', '*'] t.written then some (.doubleWildcard t.written) else none := by
  have unnamed := f.operator?_nameToken lower
  have uncolon : operator? f.colonToken = none := rfl
  obtain ⟨single, ends⟩ := f.wildcardless lower
  have named : f.nameToken.kind = .word ∧ f.nameToken.written = f.text := ⟨rfl, rfl⟩
  have colon : f.colonToken.kind = .colon := rfl
  have parens : parenFault? 0 [f.nameToken, f.colonToken, t] = none := by
    rcases valued with kind | kind <;> simp [parenFault?, named.1, colon, kind]
  have quotes : quoteFault? [f.nameToken, f.colonToken, t] =
      if t.kind = .quoted ∧ isClosedString t.written = false then some (.openQuote (t.start + 1)) else none := by
    by_cases opened : t.kind = .quoted ∧ isClosedString t.written = false <;>
      simp [quoteFault?, named.1, colon, opened]
  have facets : facetFault? [f.nameToken, f.colonToken, t] = none := by
    rcases valued with kind | kind <;> simp [facetFault?, focuses, focusesFrom, named.1, colon, kind, Focus.next?]
  have operators : operatorFault? [f.nameToken, f.colonToken, t] = (operator? t).map .operatorAlone := by
    simp only [operatorFault?, focuses, focusesFrom, List.findSome?_cons, unnamed, uncolon]
    cases operator? t with
    | none => rfl
    | some o => simp [operatorFault, Focus.following?, Focus.seekRight]
  have wildcards : wildcardFault? [f.nameToken, f.colonToken, t] =
      if t.kind = .word ∧ Text.occurs ['*', '*'] t.written = true then some (.doubleWildcard t.written) else none := by
    rcases valued with kind | kind
    · cases doubled : Text.occurs ['*', '*'] t.written <;>
        simp [wildcardFault?, focuses, focusesFrom, named, colon, single, ends, kind, doubled]
    · simp [wildcardFault?, focuses, focusesFrom, named, colon, single, ends, kind]
  rw [fault?, parens, quotes, facets, operators, wildcards]
  rcases valued with kind | kind
  · cases operator? t <;> simp [kind]
  · have unoperated : operator? t = none := by simp [operator?, kind]
    cases isClosedString t.written <;> simp [kind, unoperated]

/-- The one error that an inserted value may have. -/
theorem errors_insertedValue {value : Text} (filled : value ≠ []) (inLine : ∀ c ∈ value, Text.insideLine c = true) :
    (check (f.lineWith (quoteFacetValue value))).errors = ((valueFault? value).map Fault.message).toList := by
  have found : fault? (checkedTokens (f.lineWith (quoteFacetValue value))) = valueFault? value := by
    rw [f.checkedTokens_insertedValue filled inLine, f.fault?_value lower (by
      cases marked : value.any isFacetMark <;> simp [valueToken, marked])]
    cases marked : value.any isFacetMark with
    | true =>
      have units := (units_escapeQuoted inLine).mask (by decide)
      simp [valueFault?, valueToken, marked, quoteFacetValue_of_marked marked, mask_quoted,
        isClosedString_of_units units]
    | false =>
      simp [valueFault?, valueToken, marked, quoteFacetValue_of_unmarked marked, operator?, Operator.named?_mask]
  rw [errors_eq, found]

omit lower

/-- A value that is accepted behind the colon of a facet is put there. -/
theorem accept_text {item : Typeahead.Item} {facet? : Option Facet}
    (kind : item.kind = (Suggestion.valueSource facet?).1) :
    let line := f.lineWith []
    (Edit.accept line line.length item (contextOf line line.length)).text = f.lineWith item.insert := by
  intro line
  have place := f.contextOf_colon.place
  have token := f.contextOf_colon.token
  have colon : line.getLast? ≠ some '"' := by simp [line, lineWith]
  have started := Edit.valueStart_eq (n := 0) line [] [] (.inr place) (Nat.le_refl _) token
  rw [if_neg colon] at started
  have put := Edit.value_parts line [] [] (Nat.le_refl _) started (by simp) item.insert
  rw [List.append_nil, List.append_nil, List.length_nil, Nat.add_zero] at put
  rw [Edit.accept, Text.clamp_of_le _ (Nat.le_refl _), acceptAt_of_valueSource kind, put]
  simp [line, lineWith, Edit.leftover]

end FacetName

/-- Groups of levels are offered at facets of levels only. -/
theorem level_of_combination {c : Context} {names : Candidates} {limit : Int} {item : Typeahead.Item}
    (offered : item ∈ suggest c names limit) (place : c.place = .facetValue)
    (other : item.insert ≠ quoteFacetValue item.label) :
    c.facet? = some .level ∧ item.insert = item.label ∧ item.label ∈ Suggestion.levelCombinations.map (·.1) := by
  have fits := Suggestion.mem_fitting_of_offered offered
  simp only [Suggestion.fitting, place] at fits
  refine ⟨?_, (Suggestion.facetValue_of_offered offered place).2.resolve_left other⟩
  by_contra level
  simp only [Suggestion.facetValueItems, level, decide_false, Bool.false_and, Bool.false_eq_true, if_false] at fits
  obtain ⟨value, -, found⟩ := List.mem_filterMap.1 fits
  obtain ⟨-, label, insert, -⟩ := Proposal.of_fitting? found
  exact other (label ▸ insert)

/-- The facets of levels in small letters. -/
theorem text_of_level {f : Text} (lower : ∀ c ∈ f, c.isLower = true) (level : Facet.named? f = some .level) :
    f = "level".toList ∨ f = "status".toList := by
  unfold Facet.named? at level
  rw [Text.lower_of_isLower lower] at level
  dsimp only at level
  repeat' split at level
  all_goals cases level
  next named => exact (Bool.or_eq_true_iff.1 named).imp of_decide_eq_true of_decide_eq_true

/-- The check accepts the groups of levels. -/
theorem errors_levelCombinations : ∀ f ∈ ["level".toList, "status".toList], ∀ p ∈ Suggestion.levelCombinations,
    (check (f ++ ':' :: p.1)).errors = [] := by
  decide +kernel

/-- Whether the check accepts a value that was offered and accepted behind the colon of a facet in small letters. It
does if the value is put in quotes, and else if the value is no operator and no two wildcards in a row stand in it
outside of placeholders. -/
theorem accept_offered_errors_iff {f : Text} (lower : ∀ c ∈ f, c.isLower = true) (named : f ≠ [])
    {names : Candidates} {limit : Int} {item : Typeahead.Item}
    (offered : item ∈ suggest (contextOf (f ++ [':']) (f ++ [':']).length) names limit)
    (filled : item.label ≠ []) (inLine : ∀ c ∈ item.label, Text.insideLine c = true) :
    let line := f ++ [':']
    let edit := Edit.accept line line.length item (contextOf line line.length)
    (check edit.text).errors = [] ↔ item.label.any isFacetMark = true ∨
      (Operator.named? item.label = none ∧ Text.occurs ['*', '*'] (Text.mask item.label) = false) := by
  intro line edit
  have chars : f.all isTermChar = true := by
    refine List.all_eq_true.2 fun c mem => ?_
    simp [isTermChar, isAlphanum_of_isLower (lower c mem)]
  let name : FacetName := ⟨f, chars, named⟩
  have asks := name.contextOf_colon
  have kind := (Suggestion.facetValue_of_offered offered asks.place).1
  have put : edit.text = name.lineWith item.insert := name.accept_text kind
  by_cases valued : item.insert = quoteFacetValue item.label
  · rw [put, valued, name.errors_insertedValue lower filled inLine, valueFault?]
    cases item.label.any isFacetMark <;> cases Operator.named? item.label <;>
      cases Text.occurs ['*', '*'] (Text.mask item.label) <;> simp
  · -- a group of levels
    obtain ⟨level, same, among⟩ := level_of_combination offered asks.place valued
    obtain ⟨p, there, label⟩ := List.mem_map.1 among
    have facet : f ∈ ["level".toList, "status".toList] := by
      have named : Facet.named? f = some .level := asks.facet.symm.trans level
      simpa using text_of_level lower named
    have marked : item.label.any isFacetMark = true :=
      label ▸ (show ∀ p ∈ Suggestion.levelCombinations, p.1.any isFacetMark = true by decide) p there
    have accepted := errors_levelCombinations f facet p there
    rw [label, ← same] at accepted
    rw [put]
    exact iff_of_true accepted (.inl marked)

theorem accept_offered_errors_iff_service :
    let line := "service:".toList
    let c := contextOf line line.length
    let item := serviceItem "web".toList
    item ∈ suggest c (serviceNames ["web".toList]) 10 ∧
    (check (Edit.accept line line.length item c).text).errors = [] := by
  intro line c item
  have offered : item ∈ suggest c (serviceNames ["web".toList]) 10 := by decide +kernel
  have lower : ∀ c ∈ "service".toList, c.isLower = true := List.all_eq_true.1 (by decide)
  have inLine : ∀ c ∈ item.label, Text.insideLine c = true := List.all_eq_true.1 (by decide)
  have plain : Operator.named? item.label = none ∧ Text.occurs ['*', '*'] (Text.mask item.label) = false := by
    decide +kernel
  exact ⟨offered, (accept_offered_errors_iff lower (by decide) offered (by decide) inLine).2 (.inr plain)⟩

/-- The word of an operator, and two wildcards in a row, are put in without quotes, in which the check would accept
them. -/
theorem offered_words_are_rejected :
    let line := "service:".toList
    let c := contextOf line line.length
    let accepted (value : Text) := (suggest c (serviceNames [value]) 10).map fun item =>
      (item.label, (Edit.accept line line.length item c).text)
    accepted "AND".toList = [("AND".toList, "service:AND".toList)] ∧
    accepted "a**b".toList = [("a**b".toList, "service:a**b".toList)] ∧
    fault? (checkedTokens "service:a**b".toList) = some (.doubleWildcard "a**b".toList) ∧
    fault? (checkedTokens "service:AND".toList) = some (.operatorAlone .and) ∧
    (check "service:a**b".toList).isValid = false ∧ (check "service:AND".toList).isValid = false ∧
    (check "service:\"a**b\"".toList).isValid = true ∧ (check "service:\"AND\"".toList).isValid = true := by
  decide +kernel

end Typeahead.Logs
