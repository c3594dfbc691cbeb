import Typeahead.Proofs.Metrics.Keys
import Typeahead.Suggestion

/-!
What the check says of a value of a filter once it is inserted behind the colon of its key.

- `count_mask_escapeTagValue`: braces and parentheses stay when a value is escaped and masked.
- `splitAtCommas_of_units`, `groupingTails_of_units`: no entry and no grouping begins in an escaped value.
- `errors_escapedValue_iff`: which of the values the check accepts.
- `escaped_braces_are_counted`: it rejects a value with a brace, though the brace is escaped.
-/

namespace Typeahead.Metrics

open Lexer

/-! ### Escaped values -/

/-- Escaping brings no marks but backslashes. -/
theorem count_escapeWith {mark : Char → Bool} {c : Char} (other : c ≠ '\\') (t : Text) :
    (escapeWith mark t).count c = t.count c := by
  induction t with
  | nil => rfl
  | cons d t ih =>
    rw [escapeWith]
    split
    · rw [List.count_cons_of_ne other.symm, List.count_cons, List.count_cons, ih]
    · rw [List.count_cons, List.count_cons, ih]

/-- Escaping loses no characters. -/
theorem subset_escapeWith (mark : Char → Bool) (t : Text) : t ⊆ escapeWith mark t := by
  induction t with
  | nil => exact List.Subset.refl _
  | cons c t ih =>
    rw [escapeWith]
    split
    · exact List.Subset.trans (List.cons_subset_cons c ih) (List.subset_cons_self _ _)
    · exact List.cons_subset_cons c ih

/-- No placeholder in an escaped value holds a brace or a parenthesis. -/
theorem count_mask_of_units {c : Char} (mark : c = '{' ∨ c = '}' ∨ c = '(' ∨ c = ')') {t : Text}
    (units : Units isValueChar t) : (Text.mask t).count c = t.count c := by
  have other : c ≠ 'x' := by
    rintro rfl
    simp at mark
  refine Text.count_maskFrom other (fun s ends mem => ?_) (by simp)
  have begins : 0 < Text.placeholderLength s := by
    by_contra none
    rw [Nat.eq_zero_of_not_pos none, List.take_zero] at mem
    cases mem
  obtain ⟨p, rest, rfl, length, placeholder⟩ := Text.exists_placeholder begins
  rw [← length, List.take_left] at mem
  rcases placeholder.chars with ⟨name, rfl⟩ | chars
  · -- behind a dollar sign the brace would have no backslash
    have brace : Units isValueChar ('{' :: (name ++ rest)) := units.of_suffix ends (by decide)
    cases brace with
    | one fits => exact absurd fits (by decide)
  · have named := chars c mem
    rcases mark with rfl | rfl | rfl | rfl <;> revert named <;> decide

/-- Braces and parentheses stay when a value is escaped and masked. -/
theorem count_mask_escapeTagValue {c : Char} (mark : c = '{' ∨ c = '}' ∨ c = '(' ∨ c = ')') {value : Text}
    (inLine : ∀ c ∈ value, Text.insideLine c = true) :
    (Text.mask (escapeTagValue value)).count c = value.count c := by
  have units : Units isValueChar (escapeTagValue value) :=
    units_escapeWith (fun c _ => isValueChar_of_unmarked) (by decide) inLine
  have other : c ≠ '\\' := by
    rintro rfl
    simp at mark
  rw [count_mask_of_units mark units, escapeTagValue, count_escapeWith other]

/-- Every comma in an escaped value has its backslash. -/
theorem splitAtCommas_of_units {t : Text} (units : Units isValueChar t) (previous : Char) :
    splitAtCommas previous t = [t] := by
  have goes {c previous : Char} {t : Text} (kept : c ≠ ',' ∨ previous = '\\') (rest : splitAtCommas c t = [t]) :
      splitAtCommas previous (c :: t) = [c :: t] := by
    rw [splitAtCommas, rest]
    rcases kept with other | escaped
    · simp [other]
    · simp [escaped]
  induction units generalizing previous with
  | nil => rfl
  | one fits unescaped _ ih =>
    refine goes (.inl ?_) (ih _)
    rintro rfl
    exact absurd fits (by decide)
  | pair inLine _ ih => exact goes (.inl (by decide)) (goes (.inr rfl) (ih _))

/-- What is one entry stays one without its end. -/
theorem splitAtCommas_of_append {previous : Char} {a b : Text}
    (whole : splitAtCommas previous (a ++ b) = [a ++ b]) : splitAtCommas previous a = [a] := by
  induction a generalizing previous with
  | nil => rfl
  | cons c a ih =>
    rw [List.cons_append, splitAtCommas] at whole
    split at whole
    · cases List.head_eq_of_cons_eq whole
    · next kept =>
      split at whole
      · next none =>
        obtain rfl : a = [] := (List.append_eq_nil_iff.1 (List.tail_eq_of_cons_eq
          (List.head_eq_of_cons_eq whole)).symm).1
        rw [splitAtCommas, if_neg kept]
        rfl
      · next piece more found =>
        obtain ⟨first, rfl⟩ := List.cons.inj whole
        obtain rfl := List.tail_eq_of_cons_eq first
        rw [splitAtCommas, if_neg kept, ih found]

/-- A character that is not blank, as a unit by itself. -/
def isInked (c : Char) : Bool := !isBlank c

/-- No unit begins with a blank. -/
theorem inked_of_units {t : Text} (units : Units isInked t) : ∀ c ∈ t.head?, isBlank c = false := by
  intro c first
  cases units with
  | nil => cases first
  | one fits =>
    obtain rfl := Option.some.inj first
    simpa [isInked] using fits
  | pair =>
    obtain rfl := Option.some.inj first
    decide

theorem eq_of_after? {pattern t rest : Text} (found : Text.after? sameExactly pattern t = some rest) :
    t = pattern ++ rest := by
  induction pattern generalizing t with
  | nil => simpa [Text.after?] using found
  | cons p pattern ih =>
    cases t with
    | nil => cases found
    | cons c t =>
      obtain ⟨same, later⟩ := Option.ite_none_right_eq_some.1 found
      obtain rfl : c = p := by simpa [sameExactly] using same
      rw [ih later, List.cons_append]

theorem afterBy?_cons (c : Char) (t : Text) : afterBy? (c :: t) =
    if isBlank c then (Text.after? sameExactly "by".toList ((c :: t).dropWhile isBlank)).bind fun rest =>
      if rest.head?.any isBlank then some (rest.dropWhile isBlank) else none
    else none := by
  have guarded {α : Type} (b : Bool) (x : Option α) :
      ((guard (b = true) : Option Unit).bind fun _ => x) = if b then x else none := by
    cases b <;> rfl
  change (guard (isBlank c = true) : Option Unit).bind (fun _ =>
    (Text.after? sameExactly "by".toList ((c :: t).dropWhile isBlank)).bind fun rest =>
      (guard (rest.head?.any isBlank = true) : Option Unit).bind fun _ => some (rest.dropWhile isBlank)) = _
  rw [guarded]
  exact congrArg (fun next => if isBlank c then (Text.after? sameExactly "by".toList
    ((c :: t).dropWhile isBlank)).bind next else none) (funext fun rest => guarded _ _)

theorem afterBy?_of_inked {c : Char} (inked : isBlank c = false) (t : Text) : afterBy? (c :: t) = none := by
  simp [afterBy?_cons, inked]

/-- Behind a blank no word between blanks begins, if every other blank has its backslash. -/
theorem afterBy?_of_units {c : Char} {t : Text} (units : Units isInked t) : afterBy? (c :: t) = none := by
  by_cases blank : isBlank c = true
  · have rest : (c :: t).dropWhile isBlank = t := by
      rw [List.dropWhile_cons_of_pos blank]
      cases t with
      | nil => rfl
      | cons d t => exact List.dropWhile_cons_of_neg (by simp [inked_of_units units d rfl])
    rw [afterBy?_cons, if_pos blank, rest, Option.bind_eq_none_iff]
    intro behind found
    have units' : Units isInked behind := by
      rw [eq_of_after? found] at units
      exact units.of_append "by".toList (by decide)
    have unblank : behind.head?.any isBlank = false := by
      cases behind with
      | nil => rfl
      | cons d behind => exact inked_of_units units' d rfl
    simp [unblank]
  · exact afterBy?_of_inked (by simpa using blank) t

theorem groupingTails_cons_of_none {c : Char} {t : Text} (none : afterBy? (c :: t) = none) :
    groupingTails (c :: t) = groupingTails t := by
  rw [groupingTails.eq_def]
  dsimp only
  rw [none]

/-- No grouping begins in a text in which every blank has its backslash. -/
theorem groupingTails_of_units {t : Text} (units : Units isInked t) : groupingTails t = [] := by
  induction units with
  | nil => rfl
  | one fits unescaped units ih => rw [groupingTails_cons_of_none (afterBy?_of_units units), ih]
  | @pair c t inLine units ih =>
    have escape : afterBy? ('\\' :: c :: t) = none := afterBy?_of_inked (by decide) _
    rw [groupingTails_cons_of_none escape, groupingTails_cons_of_none (afterBy?_of_units units), ih]

/-! ### The query with the value -/

theorem plain_of_isMetricName {metric : Text} (named : isMetricName metric = true) :
    metric ≠ [] ∧ ∀ c ∈ metric, isPlain metricsMarks c = true ∧ isDraftChar c = true := by
  simp only [isMetricName, Bool.and_eq_true, Bool.not_eq_true', List.isEmpty_eq_false_iff] at named
  refine ⟨named.1, fun c mem => ?_⟩
  have held := plain_of_isKeyChar (c := c) (by simp [isKeyChar, List.all_eq_true.1 named.2 c mem])
  exact ⟨held.1, held.2.1⟩

theorem plain_of_isTagKey {key : Text} (keyed : isTagKey key = true) :
    key ≠ [] ∧ ∀ c ∈ key, isPlain metricsMarks c = true ∧ isDraftChar c = true := by
  have plain {t : Text} (all : t.all isKeyChar = true) :
      ∀ c ∈ t, isPlain metricsMarks c = true ∧ isDraftChar c = true := by
    intro c mem
    have held := plain_of_isKeyChar (List.all_eq_true.1 all c mem)
    exact ⟨held.1, held.2.1⟩
  cases key with
  | nil => cases keyed
  | cons c key =>
    refine ⟨List.cons_ne_nil _ _, ?_⟩
    rw [isTagKey] at keyed
    split at keyed
    · next negated =>
      obtain rfl := negated
      exact List.forall_mem_cons.2 ⟨by decide, plain (Bool.and_eq_true_iff.1 keyed).2⟩
    · exact plain keyed

/-- A metric, and a key of its filter. -/
structure FilterKey where
  metric : Text
  key : Text
  named : isMetricName metric = true
  keyed : isTagKey key = true

namespace FilterKey

variable (k : FilterKey)

/-- A line that gives a value to the key. -/
def lineWith (x : Text) : Text := k.metric ++ '{' :: (k.key ++ ':' :: (x ++ ['}']))

/-- The filter of such a line, without blanks at its ends. -/
def contentWith (x : Text) : Text := Text.strip (k.key ++ ':' :: x)

section

variable {x : Text} (units : Units isValueChar x)

include units

/-- The line as one whose filter has one pair. -/
def paired : Paired where
  head := k.metric
  plain := (plain_of_isMetricName k.named).2
  pairs := [{
    key := k.key
    value := x
    plain := (plain_of_isTagKey k.keyed).2
    apart := fun _ => mask_append_of_units units
    units := units.mask (by decide)
    inLine := inLine_of_units (by decide) units }]
  closed := true

theorem text_paired : (k.paired units).text = k.lineWith x := by
  simp [Paired.text, paired, listing, Pair.text, Text.joinWith, lineWith]

/-- Only the value of a line is masked. -/
theorem mask_lineWith : Text.mask (k.lineWith x) = k.lineWith (Text.mask x) := by
  rw [← k.text_paired units, Paired.mask_text]
  simp [paired, listing, Pair.masked, Text.joinWith, lineWith]

theorem metric?_lineWith : (Reading.of (k.lineWith x)).metric? = some k.metric := by
  obtain ⟨filled, plain⟩ := plain_of_isMetricName k.named
  have stripped : Text.strip k.metric = k.metric :=
    Text.strip_of_inked fun c mem => inked_of_isPlain (plain c mem).1
  obtain ⟨c, rest, same⟩ := List.exists_cons_of_ne_nil filled
  rw [← k.text_paired units, (k.paired units).metric?_eq (by simp [paired])]
  simp only [paired, Text.stripped?, stripped]
  rw [same]

/-- The filter stands between the braces. -/
theorem filter_lineWith : ∃ s, (Reading.of (k.lineWith x)).filter? = some s ∧
    (k.lineWith x).slice (s.start + 1) s.stop = k.key ++ ':' :: x := by
  refine ⟨_, k.text_paired units ▸ (k.paired units).filter?_eq (by simp [paired]), ?_⟩
  have part := Text.slice_part (k.metric ++ ['{']) (k.key ++ ':' :: x) ['}'] (Nat.le_refl _)
  rw [List.take_length] at part
  simpa [paired, Paired.stop, lineWith, Pair.text, Text.joinWith] using part

end

/-- A line has no blanks at its ends. -/
theorem strip_lineWith (x : Text) : Text.strip (k.lineWith x) = k.lineWith x := by
  obtain ⟨filled, plain⟩ := plain_of_isMetricName k.named
  have first : ∀ c ∈ (k.lineWith x).head?, isBlank c = false := by
    intro c mem
    rw [lineWith, List.head?_append_of_ne_nil _ filled] at mem
    exact inked_of_isPlain (plain c (List.mem_of_head? mem)).1
  have last : ∀ c ∈ (k.lineWith x).getLast?, isBlank c = false := by
    intro c mem
    have ends : k.lineWith x = (k.metric ++ '{' :: (k.key ++ ':' :: x)) ++ ['}'] := by simp [lineWith]
    rw [ends, List.getLast?_concat] at mem
    obtain rfl := Option.some.inj mem
    decide
  exact Text.trim_of_ends first last

/-- No grouping begins in a line with an escaped value. -/
theorem groupingFaults_lineWith {x : Text} (units : Units isValueChar x) : groupingFaults (k.lineWith x) = [] := by
  have inked {t : Text} (plain : ∀ c ∈ t, isPlain metricsMarks c = true ∧ isDraftChar c = true) : Units isInked t := by
    refine .of_forall fun c mem => ?_
    have held := (plain c mem).1
    refine ⟨by simp [isInked, inked_of_isPlain held], ?_⟩
    rintro rfl
    exact absurd held (by decide)
  have value : Units isInked x := by
    refine units.mono fun c fits => ?_
    simp only [isValueChar, Bool.or_eq_true, decide_eq_true_eq] at fits
    rcases fits with plain | rfl
    · simp [isInked, inked_of_isPlain plain]
    · decide
  have mark {c : Char} (own : c = '{' ∨ c = ':' ∨ c = '}') {t : Text} (rest : Units isInked t) :
      Units isInked (c :: t) := by
    rcases own with rfl | rfl | rfl <;> exact .one (by decide) (by decide) rest
  have whole : Units isInked (k.lineWith x) :=
    (inked (plain_of_isMetricName k.named).2).append (mark (.inl rfl)
      ((inked (plain_of_isTagKey k.keyed).2).append (mark (.inr (.inl rfl))
        (value.append (mark (.inr (.inr rfl)) .nil)))))
  rw [groupingFaults, groupingTails_of_units whole]

theorem count_eq_zero_of_plain {c : Char} (mark : c = '{' ∨ c = '}' ∨ c = '(' ∨ c = ')') {t : Text}
    (plain : ∀ c ∈ t, isPlain metricsMarks c = true ∧ isDraftChar c = true) : t.count c = 0 := by
  refine List.count_eq_zero.2 fun mem => ?_
  have held := (plain c mem).1
  rcases mark with rfl | rfl | rfl | rfl <;> exact absurd held (by decide)

/-- The braces of a line are those of its value and those of its filter. -/
theorem count_lineWith {c : Char} (brace : c = '{' ∨ c = '}') (x : Text) :
    (k.lineWith x).count c = x.count c + 1 := by
  have mark : c = '{' ∨ c = '}' ∨ c = '(' ∨ c = ')' := brace.imp_right .inl
  have metric := count_eq_zero_of_plain mark (plain_of_isMetricName k.named).2
  have key := count_eq_zero_of_plain mark (plain_of_isTagKey k.keyed).2
  rcases brace with rfl | rfl <;> simp [lineWith, metric, key]

/-- Without the blanks behind it a filter still has a value. -/
theorem exists_content {x : Text} (inked : x.hasInk = true) : ∃ core blanks, x = core ++ blanks ∧
    (∀ c ∈ blanks, isBlank c = true) ∧ core.hasInk = true ∧ k.contentWith x = k.key ++ ':' :: core ∧
    Text.strip (k.contentWith x) = k.contentWith x := by
  let core : Text := (x.reverse.dropWhile isBlank).reverse
  let blanks : Text := (x.reverse.takeWhile isBlank).reverse
  have split : x = core ++ blanks := by
    rw [← List.reverse_append, List.takeWhile_append_dropWhile, List.reverse_reverse]
  have dropped : ∀ c ∈ blanks, isBlank c = true :=
    fun c mem => List.mem_takeWhile_imp (List.mem_reverse.1 mem)
  have ink : core.hasInk = true := by
    obtain ⟨c, mem, own⟩ := List.any_eq_true.1 inked
    rw [split] at mem
    rcases List.mem_append.1 mem with inside | behind
    · exact List.any_eq_true.2 ⟨c, inside, own⟩
    · simp [dropped c behind] at own
  have first : ∀ c ∈ (k.key ++ ':' :: core).head?, isBlank c = false := by
    obtain ⟨filled, plain⟩ := plain_of_isTagKey k.keyed
    intro c mem
    rw [List.head?_append_of_ne_nil _ filled] at mem
    exact inked_of_isPlain (plain c (List.mem_of_head? mem)).1
  have last : ∀ c ∈ (k.key ++ ':' :: core).getLast?, isBlank c = false := by
    intro c mem
    rw [List.getLast?_append, List.getLast?_cons, Option.some_or] at mem
    obtain rfl := Option.some.inj mem
    cases ends : core.getLast? with
    | none => decide
    | some d =>
      have head := List.head?_dropWhile_not isBlank x.reverse
      rw [← List.head?_reverse, List.reverse_reverse] at ends
      rw [ends] at head
      simpa using head
  have content : k.contentWith x = k.key ++ ':' :: core := by
    have nowhere : ∀ c ∈ ([] : Text), isBlank c = true := by simp
    have filled : k.key ++ ':' :: core ≠ [] := by simp
    have cut := Text.trim_padded nowhere dropped filled first last
    rw [List.nil_append, List.append_assoc, List.cons_append, ← split] at cut
    exact cut
  exact ⟨core, blanks, split, dropped, ink, content, by rw [content]; exact Text.trim_of_ends first last⟩

/-- The parentheses of a filter are those of its value. -/
theorem count_contentWith {c : Char} (paren : c = '(' ∨ c = ')') {x : Text} (inked : x.hasInk = true) :
    (k.contentWith x).count c = x.count c := by
  obtain ⟨core, blanks, rfl, dropped, -, content, -⟩ := k.exists_content inked
  have mark : c = '{' ∨ c = '}' ∨ c = '(' ∨ c = ')' := .inr (.inr paren)
  have key := count_eq_zero_of_plain mark (plain_of_isTagKey k.keyed).2
  have behind : blanks.count c = 0 := by
    refine List.count_eq_zero.2 fun mem => ?_
    have blank := dropped c mem
    rcases paren with rfl | rfl <;> exact absurd blank (by decide)
  rw [content]
  rcases paren with rfl | rfl <;> simp [key, behind]

theorem cut_append {mark : Char} {before : Text} (free : mark ∉ before) (after : Text) :
    Text.cut mark (before ++ mark :: after) = (before, some after) := by
  induction before with
  | nil => simp [Text.cut]
  | cons c before ih =>
    obtain ⟨other, later⟩ := not_or.1 (List.mem_cons.not.1 free)
    rw [List.cons_append, Text.cut, if_neg (Ne.symm other), ih later]

/-- A filter with a key is neither empty nor the one that takes all. -/
theorem filled_ne (core : Text) :
    ¬ ((k.key ++ ':' :: core).isEmpty || decide (k.key ++ ':' :: core = ['*'])) = true := by
  have filled := List.length_pos_iff.2 (plain_of_isTagKey k.keyed).1
  have other : k.key ++ ':' :: core ≠ ['*'] := by
    intro same
    have length := congrArg List.length same
    simp only [List.length_append, List.length_cons, List.length_nil] at length
    omega
  simp [other]

/-- The one entry of the filter has no fault. -/
theorem entriesFaults_contentWith {x : Text} (units : Units isValueChar x) (inked : x.hasInk = true)
    (endsAtColon : Bool) : entriesFaults endsAtColon (filterEntries (k.contentWith x)) = [] := by
  obtain ⟨filled, plain⟩ := plain_of_isTagKey k.keyed
  obtain ⟨core, blanks, rfl, -, ink, content, stripped⟩ := k.exists_content inked
  have whole : splitAtCommas ' ' ((k.key ++ ':' :: core) ++ blanks) = [(k.key ++ ':' :: core) ++ blanks] := by
    have front : Units isValueChar k.key := by
      refine .of_forall fun c mem => ⟨by simp [isValueChar, (plain c mem).1], ?_⟩
      rintro rfl
      exact absurd (plain _ mem).1 (by decide)
    have pair : Units isValueChar (k.key ++ ':' :: (core ++ blanks)) :=
      front.append (.one (by decide) (by decide) units)
    simpa using splitAtCommas_of_units pair ' '
  have entry : filterEntries (k.contentWith (core ++ blanks)) = [k.key ++ ':' :: core] := by
    rw [filterEntries, content, splitAtCommas_of_append whole, List.map_singleton, ← content, stripped]
  have free : ':' ∉ k.key := fun mem => absurd (plain ':' mem).1 (by decide)
  have key : Text.strip k.key = k.key := Text.strip_of_inked fun c mem => inked_of_isPlain (plain c mem).1
  have valued : (Text.strip core).isEmpty = false := by
    obtain ⟨c, mem, own⟩ := List.any_eq_true.1 ink
    have kept := Text.mem_trim (p := isBlank) mem (by simpa using own)
    exact List.isEmpty_eq_false_iff_exists_mem.2 ⟨c, kept⟩
  rw [entry, entriesFaults, entryFaults, if_neg (k.filled_ne core), cut_append free]
  simp [key, filled, k.keyed, valued]

/-- The faults of a query that gives an escaped value to a key. -/
theorem faults_lineWith {value : Text} (inked : value.hasInk = true) (inLine : ∀ c ∈ value, Text.insideLine c = true) :
    faults (k.lineWith (escapeTagValue value)) =
      (if value.count '{' = value.count '}' then []
        else [.unmatchedBraces (value.count '{' + 1) (value.count '}' + 1)]) ++
      if (k.contentWith (Text.mask (escapeTagValue value))).hasWord sameExactly booleanWords ∧
          value.count '(' ≠ value.count ')' then [.unmatchedParens] else [] := by
  have units : Units isValueChar (escapeTagValue value) :=
    units_escapeWith (fun c _ => isValueChar_of_unmarked) (by decide) inLine
  have masked : Units isValueChar (Text.mask (escapeTagValue value)) := units.mask (by decide)
  have ink : (Text.mask (escapeTagValue value)).hasInk = true := by
    obtain ⟨c, mem, own⟩ := List.any_eq_true.1 inked
    exact Text.hasInk_mask (List.any_eq_true.2 ⟨c, subset_escapeWith isFilterMark value mem, own⟩)
  have text : Text.strip (Text.mask (k.lineWith (escapeTagValue value))) =
      k.lineWith (Text.mask (escapeTagValue value)) := by
    rw [k.mask_lineWith units, k.strip_lineWith]
  have filled : (k.lineWith (Text.mask (escapeTagValue value))).isEmpty = false := by simp [lineWith]
  have opening := k.count_lineWith (.inl rfl) (Text.mask (escapeTagValue value))
  have closing := k.count_lineWith (.inr rfl) (Text.mask (escapeTagValue value))
  rw [count_mask_escapeTagValue (by simp) inLine] at opening closing
  obtain ⟨s, filter, slice⟩ := k.filter_lineWith masked
  have faults : filterFaults (k.lineWith (Text.mask (escapeTagValue value))) s =
      if (k.contentWith (Text.mask (escapeTagValue value))).hasWord sameExactly booleanWords ∧
          value.count '(' ≠ value.count ')' then [.unmatchedParens] else [] := by
    obtain ⟨core, -, -, -, -, content, -⟩ := k.exists_content ink
    have parens := k.count_contentWith (.inl rfl) ink
    have parens' := k.count_contentWith (.inr rfl) ink
    rw [count_mask_escapeTagValue (by simp) inLine] at parens parens'
    have taken := k.filled_ne core
    rw [← content] at taken
    have stripped : Text.strip ((k.lineWith (Text.mask (escapeTagValue value))).slice (s.start + 1) s.stop) =
        k.contentWith (Text.mask (escapeTagValue value)) := congrArg Text.strip slice
    rw [filterFaults, stripped, if_neg taken, parens, parens', k.entriesFaults_contentWith masked ink]
    split <;> simp_all
  simp only [Metrics.faults, text, filled, opening, closing, k.metric?_lineWith masked, k.named, filter, faults,
    k.groupingFaults_lineWith masked]
  simp

/-- Whether the check accepts a query that gives an escaped value to a key. It does if the value has as many opening
braces as closing ones and, where the word of an operator stands in the filter, as many opening parentheses as closing
ones; all that is in the value besides does no harm. -/
theorem errors_escapedValue_iff {value : Text} (inked : value.hasInk = true)
    (inLine : ∀ c ∈ value, Text.insideLine c = true) :
    (check (k.lineWith (escapeTagValue value))).errors = [] ↔ value.count '{' = value.count '}' ∧
      ((k.contentWith (Text.mask (escapeTagValue value))).hasWord sameExactly booleanWords = true →
        value.count '(' = value.count ')') := by
  rw [check, List.map_eq_nil_iff, k.faults_lineWith inked inLine, List.append_eq_nil_iff]
  refine and_congr ?_ ?_
  · simp
  · simp

/-- The key of a metric, both of one letter. -/
def short : FilterKey := ⟨"m".toList, "k".toList, by decide, by decide⟩

theorem errors_escapedValue_iff_pair :
    let value : Text := "a\x7b1\x7d, (b".toList
    value.hasInk = true ∧ (check (short.lineWith (escapeTagValue value))).errors = [] := by
  intro value
  have inked : value.hasInk = true := by decide
  have inLine : ∀ c ∈ value, Text.insideLine c = true := List.all_eq_true.1 (by decide)
  have wordless : (short.contentWith (Text.mask (escapeTagValue value))).hasWord sameExactly booleanWords = false := by
    decide +kernel
  exact ⟨inked, (short.errors_escapedValue_iff inked inLine).2 ⟨by decide, fun word => by simp [wordless] at word⟩⟩

end FilterKey

/-- The check rejects an accepted value with a brace, and one with a parenthesis where the word of an operator stands,
though these have their backslashes; a comma with its backslash does no harm. -/
theorem escaped_braces_are_counted :
    let line := "m\x7bk:\x7d".toList
    let c := contextOf line 4
    let names (value : Text) : Candidates := fun dataset => if dataset = .tagValues then [value] else []
    let accepted (value : Text) := (suggest c (names value) 10).map fun item => (Edit.accept line 4 item c).text
    accepted "a\x7bb".toList = ["m\x7bk:a\\\x7bb\x7d".toList] ∧
    faults "m\x7bk:a\\\x7bb\x7d".toList = [.unmatchedBraces 2 1] ∧
    accepted "AND(".toList = ["m\x7bk:AND\\(\x7d".toList] ∧
    faults "m\x7bk:AND\\(\x7d".toList = [.unmatchedParens] ∧
    (check "m\x7bk:a\\\x7bb\x7d".toList).isValid = false ∧ (check "m\x7bk:AND\\(\x7d".toList).isValid = false ∧
    (check "m\x7bk:a\\,b\x7d".toList).isValid = true := by
  decide +kernel

end Typeahead.Metrics
