import Typeahead.Edit
import Typeahead.Metrics.Check
import Typeahead.Proofs.Metrics.Pairs

/-!
Simple names in metrics lines, and filters that give escaped values to such names.

- `TagName`: the name of a metric, of a key or of a tag.
- `TagPair`: a key and a value that is escaped, as a pair of a filter.
- `contextOf_openValue`: what is typed at the end of such a value.
-/

namespace Typeahead.Metrics

open Lexer

/-- A simple name: characters of tag keys, without a sign of negation before them. -/
structure TagName where
  text : Text
  chars : text.all isKeyChar = true
  begins : text.head?.any (· != '-') = true

/-- Characters of simple names go on words, need no masking, and are found by an edit. -/
theorem plain_of_isKeyChar {c : Char} (h : isKeyChar c = true) :
    isPlain metricsMarks c = true ∧ isDraftChar c = true ∧ Edit.isKeyPart c = true ∧ c ≠ '!' := by
  have small : c.toNat < 128 := by
    simp only [isKeyChar, isMetricChar, Bool.or_eq_true, decide_eq_true_eq] at h
    rcases h with ((((alphanumeric | rfl) | rfl) | rfl) | rfl) | rfl
    · exact toNat_lt_of_isAlphanum alphanumeric
    all_goals decide
  exact holds_of_ascii (P := fun c => isKeyChar c = true →
    isPlain metricsMarks c = true ∧ isDraftChar c = true ∧ Edit.isKeyPart c = true ∧ c ≠ '!')
    (by decide +kernel) small h

theorem inked_of_isPlain {marks : Marks} {c : Char} (h : isPlain marks c = true) : isBlank c = false := by
  simp only [isPlain, Bool.and_eq_true, Bool.not_eq_true'] at h
  exact h.1.1.1

namespace TagName

variable (n : TagName)

theorem nonempty : n.text ≠ [] := by
  intro empty
  have begins := n.begins
  simp [empty] at begins

theorem plain (c : Char) (mem : c ∈ n.text) : isPlain metricsMarks c = true ∧ isDraftChar c = true :=
  have held := plain_of_isKeyChar (List.all_eq_true.1 n.chars c mem)
  ⟨held.1, held.2.1⟩

theorem isKeyPart (c : Char) (mem : c ∈ n.text) : Edit.isKeyPart c = true :=
  (plain_of_isKeyChar (List.all_eq_true.1 n.chars c mem)).2.2.1

theorem inked (c : Char) (mem : c ∈ n.text) : isBlank c = false := inked_of_isPlain (n.plain c mem).1

theorem reads : Reads metricsMarks n.text [(.word, n.text)] := .word n.nonempty fun c mem => (n.plain c mem).1

theorem scan_eq : scan metricsMarks n.text = [(.word, n.text)] := scan_of_reads n.reads

theorem strip_eq : Text.strip n.text = n.text := Text.strip_of_inked n.inked

theorem stripped?_eq : Text.stripped? n.text = some n.text := by
  obtain ⟨c, rest, same⟩ := List.exists_cons_of_ne_nil n.nonempty
  rw [Text.stripped?, n.strip_eq, same]

/-- No sign stands before the beginning of a simple name. -/
theorem bareKey_take (k : Nat) : bareKey (n.text.take k) = n.text.take k := by
  unfold bareKey Text.trimLeft
  cases same : n.text.take k with
  | nil => rfl
  | cons c rest =>
    have first : n.text.head? = some c := by
      cases k with
      | zero => cases same
      | succ k =>
        cases text : n.text with
        | nil => simp [text] at same
        | cons d more =>
          rw [text, List.take_succ_cons] at same
          rw [List.head?_cons, List.head_eq_of_cons_eq same]
    have begins := n.begins
    rw [first] at begins
    have key := List.all_eq_true.1 n.chars c (List.mem_of_mem_head? first)
    have noNot : c ≠ '!' := (plain_of_isKeyChar key).2.2.2
    have noMinus : c ≠ '-' := by simpa using begins
    exact List.dropWhile_cons_of_neg (by simp [noNot, noMinus])

theorem bareKey_eq : bareKey n.text = n.text := by
  have whole := n.bareKey_take n.text.length
  rwa [List.take_length] at whole

end TagName

/-- Units of characters that end no line are within a line. -/
theorem inLine_of_units {single : Char → Bool} (unended : single '\n' = false) {t : Text} (h : Units single t) :
    ∀ c ∈ t, Text.insideLine c = true := by
  induction h with
  | nil => simp
  | one fits unescaped _ ih =>
    refine List.forall_mem_cons.2 ⟨?_, ih⟩
    rw [Text.insideLine, bne_iff_ne]
    rintro rfl
    rw [unended] at fits
    cases fits
  | pair inLine _ ih =>
    exact List.forall_mem_cons.2 ⟨by decide, List.forall_mem_cons.2 ⟨by simpa [Text.insideLine] using inLine, ih⟩⟩

/-- A key with a simple name, and a value in which every mark of a filter has a backslash before it. -/
structure TagPair where
  key : TagName
  value : Text
  units : Units isValueChar value

namespace TagPair

/-- A key with a value that gets its backslashes. -/
def escaped (key : TagName) (value : Text) (inLine : ∀ c ∈ value, Text.insideLine c = true) : TagPair where
  key := key
  value := escapeTagValue value
  units := units_escapeWith (fun c _ => isValueChar_of_unmarked) (by decide) inLine

/-- How a pair is written. -/
def text (p : TagPair) : Text := p.key.text ++ ':' :: p.value

/-- The pair as it stands in a filter. -/
def pair (p : TagPair) : Pair where
  key := p.key.text
  value := p.value
  plain := p.key.plain
  apart _ := mask_append_of_units p.units
  units := p.units.mask (by decide)
  inLine := inLine_of_units (by decide) p.units

end TagPair

/-- At the end of a line that breaks off in an escaped value, that value is typed. -/
theorem contextOf_openValue (metric key : TagName) {value : Text} (inLine : ∀ c ∈ value, Text.insideLine c = true) :
    let line := metric.text ++ '{' :: (key.text ++ ':' :: escapeTagValue value)
    let c := contextOf line line.length
    c.place = .filterValue ∧ c.token = escapeTagValue value := by
  intro line c
  let own := (TagPair.escaped key value inLine).pair
  let q : Paired := ⟨metric.text, metric.plain, [own], false⟩
  have text : q.text = line := by
    change metric.text ++ '{' :: ((key.text ++ ':' :: escapeTagValue value) ++ []) = _
    rw [List.append_nil]
  have cursor : (q.upTo [] ++ own.key ++ [':']).length + own.value.length = line.length := by
    rw [← text, q.text_split (show q.pairs = [] ++ own :: [] from rfl)]
    simp [Paired.behind, Pair.text, listingBehind, q]
    omega
  have typed := q.contextOf_value (show q.pairs = [] ++ own :: [] from rfl) (Nat.le_refl own.value.length)
  rw [cursor, text, List.take_length] at typed
  exact ⟨typed.1, typed.2.1⟩

end Typeahead.Metrics
