import Typeahead.Proofs.Logs.Closed
import Typeahead.Proofs.Logs.Grammar
import Typeahead.Proofs.Token.Nests

/-!
The positions that the check of a logs query reports. It reads the query without the blanks around it, and the
positions are counted there: from the first character that is not blank. Counted so, they point at the parenthesis
that closes nothing, and at the quote that opens a string which nothing closes. Where blanks come first, they do not
point at it in the query as it is given.

- `parenFault?_eq`, `quoteFault?_eq_openQuote_iff`: the two scans for such characters.
- `Fault.message_eq_iff`: the faults with a position are told apart by what is reported.
- `reported_iff`: what is reported, and where the culprit stands.
- `reported_beside`: a position that points at something else.
-/

namespace Typeahead

namespace Text

variable {t : Text} {n : Nat} {c : Char}

/-- Masking leaves the blanks in front of a text as they are. -/
theorem takeWhile_mask (t : Text) : (mask t).takeWhile isBlank = t.takeWhile isBlank := by
  have blanks : ∀ c ∈ t.takeWhile isBlank, isBlank c = true := fun c => List.mem_takeWhile_imp
  have plain : ∀ c ∈ t.takeWhile isBlank, c ≠ '$' ∧ c ≠ '[' := by
    intro c mem
    have blank := blanks c mem
    constructor <;> rintro rfl <;> revert blank <;> decide
  have inked : ∀ c ∈ (t.dropWhile isBlank).head?, isBlank c = false := by
    intro c first
    have stopped := List.head?_dropWhile_not isBlank t
    rw [Option.mem_def.1 first] at stopped
    simpa using stopped
  have behind : (mask (t.dropWhile isBlank)).takeWhile isBlank = [] := by
    have inked' := inked_head?_mask inked
    cases same : mask (t.dropWhile isBlank) with
    | nil => rfl
    | cons d rest => simp [inked' d (by rw [same]; rfl)]
  nth_rewrite 1 [← List.takeWhile_append_dropWhile (p := isBlank) (l := t)]
  rw [mask_plain_append plain, List.takeWhile_append_of_pos blanks, behind, List.append_nil]

/-- Where a character of the stripped text stands in the text. -/
theorem getElem?_of_strip (there : (strip t)[n]? = some c) : t[(t.takeWhile isBlank).length + n]? = some c := by
  have front := trimRight_append_trailing isBlank (trimLeft isBlank t)
  have within : n < (trimRight isBlank (trimLeft isBlank t)).length := (List.getElem?_eq_some_iff.1 there).1
  nth_rewrite 1 [← List.takeWhile_append_dropWhile (p := isBlank) (l := t)]
  rw [List.getElem?_append_right (Nat.le_add_right ..), Nat.add_sub_cancel_left]
  change (trimLeft isBlank t)[n]? = some c
  rw [← front, List.getElem?_append_left within]
  exact there

end Text

namespace Logs

/-! ### The scans -/

/-- The scan for parentheses finds the first one that closes nothing, and else counts those that stay open. -/
theorem parenFault?_eq (depth : Nat) (ts : List Token) : parenFault? depth ts =
    match stray? .openParen .closeParen depth ts with
    | some t => some (.strayParen (t.start + 1))
    | none =>
      let left := depth + (ts.map (·.kind)).count .openParen - (ts.map (·.kind)).count .closeParen
      if left = 0 then none else some (.openParens left) := by
  induction ts generalizing depth with
  | nil => simp [parenFault?, stray?]
  | cons t ts ih =>
    rw [List.map_cons]
    by_cases opens : t.kind = .openParen
    · have same : depth + 1 + (ts.map (·.kind)).count .openParen =
          depth + ((ts.map (·.kind)).count .openParen + 1) := by omega
      have step : parenFault? depth (t :: ts) = parenFault? (depth + 1) ts := by simp [parenFault?, opens]
      rw [step, ih, stray?_cons_left opens, opens, List.count_cons_self, List.count_cons_of_ne (by decide), same]
    by_cases closes : t.kind = .closeParen
    · cases depth with
      | zero => simp [parenFault?, closes, stray?_zero_right (by decide : TokenKind.openParen ≠ .closeParen) closes]
      | succ depth =>
        have same : depth + 1 + (ts.map (·.kind)).count .openParen - ((ts.map (·.kind)).count .closeParen + 1) =
            depth + (ts.map (·.kind)).count .openParen - (ts.map (·.kind)).count .closeParen := by omega
        have step : parenFault? (depth + 1) (t :: ts) = parenFault? depth ts := by simp [parenFault?, closes]
        rw [step, ih, stray?_succ_right (by decide) closes, closes, List.count_cons_of_ne (by decide),
          List.count_cons_self, same]
    · have step : parenFault? depth (t :: ts) = parenFault? depth ts := by
        rw [parenFault?.eq_def]
        split <;> simp_all
      rw [step, ih, stray?_cons_other opens closes, List.count_cons_of_ne opens, List.count_cons_of_ne closes]

variable {ts : List Token} {p : Nat}

/-- A stray parenthesis closes nothing: in front of it all that are opened are closed. -/
theorem parenFault?_eq_strayParen_iff : parenFault? 0 ts = some (.strayParen p) ↔
    ∃ (front : List Token) (t : Token) (rest : List Token), ts = front ++ t :: rest ∧ t.kind = .closeParen ∧
      Nests .openParen .closeParen (front.map (·.kind)) ∧ t.start + 1 = p := by
  have apart : TokenKind.openParen ≠ .closeParen := by decide
  simp only [nests_iff apart]
  rw [parenFault?_eq]
  cases found : stray? .openParen .closeParen 0 ts with
  | none =>
    refine iff_of_false (fun reported => ?_) ?_
    · simp only at reported
      split at reported <;> cases reported
    · rintro ⟨front, t, rest, same, closes, nests, -⟩
      have stray := (stray?_eq_some_iff apart).2 ⟨front, rest, same, closes, nests⟩
      cases found.symm.trans stray
  | some t =>
    constructor
    · intro reported
      obtain ⟨front, rest, same, closes, nests⟩ := (stray?_eq_some_iff apart).1 found
      exact ⟨front, t, rest, same, closes, nests, Fault.strayParen.inj (Option.some.inj reported)⟩
    · rintro ⟨front, u, rest, same, closes, nests, rfl⟩
      have stray := (stray?_eq_some_iff apart).2 ⟨front, rest, same, closes, nests⟩
      obtain rfl := Option.some.inj (found.symm.trans stray)
      rfl

theorem parenFault?_eq_none_iff_nests :
    parenFault? 0 ts = none ↔ Nests .openParen .closeParen (ts.map (·.kind)) := by
  have apart : TokenKind.openParen ≠ .closeParen := by decide
  rw [parenFault?_eq, nests_iff apart, settles_iff]
  cases found : stray? .openParen .closeParen 0 ts with
  | none =>
    have covered := (stray?_eq_none_iff apart).1 found
    have whole := covered (ts.map (·.kind)).length
    rw [List.take_length] at whole
    rw [and_iff_right covered]
    by_cases settled : 0 + (ts.map (·.kind)).count .openParen - (ts.map (·.kind)).count .closeParen = 0
    · exact iff_of_true (if_pos settled) (by omega)
    · refine iff_of_false (fun none_left => ?_) (by omega)
      cases (if_neg settled).symm.trans none_left
  | some t =>
    refine iff_of_false (by simp) fun settles => ?_
    cases found.symm.trans ((stray?_eq_none_iff apart).2 settles.1)

/-- The first string that is left open. -/
theorem quoteFault?_eq_openQuote_iff {line : Text} (read : ts = tokens logsMarks line) :
    quoteFault? ts = some (.openQuote p) ↔ ∃ front t rest, ts = front ++ t :: rest ∧ t.kind = .quoted ∧ Unclosed t ∧
      (∀ u ∈ front, u.kind = .quoted → ¬Unclosed u) ∧ t.start + 1 = p := by
  have opened {t : Token} (mem : t ∈ ts) : (t.kind = .quoted && !isClosedString t.written) = true ↔
      t.kind = .quoted ∧ Unclosed t := by
    rw [Bool.and_eq_true, decide_eq_true_eq, Bool.not_eq_true']
    exact and_congr_right fun quoted => isClosedString_written_eq_false_iff (read ▸ mem) quoted
  simp only [quoteFault?, Option.map_eq_some_iff, List.find?_eq_some_iff_append, Fault.openQuote.injEq]
  constructor
  · rintro ⟨t, ⟨held, front, rest, same, others⟩, start⟩
    have here := (opened (by simp [same])).1 held
    refine ⟨front, t, rest, same, here.1, here.2, fun u mem quoted open' => ?_, start⟩
    have there := (opened (t := u) (by simp [same, mem])).2 ⟨quoted, open'⟩
    have other := others u mem
    rw [there] at other
    cases other
  · rintro ⟨front, t, rest, same, quoted, open', others, start⟩
    refine ⟨t, ⟨(opened (by simp [same])).2 ⟨quoted, open'⟩, front, rest, same, fun u mem => ?_⟩, start⟩
    by_contra held
    have there := (opened (t := u) (by simp [same, mem])).1 (by simpa using held)
    exact others u mem there.1 there.2

/-! ### The messages -/

/-- A fault that is reported with its position. -/
def Fault.Placed : Fault → Prop
  | .strayParen _ | .openQuote _ => True
  | _ => False

theorem eq_of_toString_eq {p q : Nat} (same : toString p = toString q) : p = q := by
  have digits : Nat.toDigits 10 p = Nat.toDigits 10 q := by
    simpa only [Nat.toString_eq_repr, Nat.toList_repr] using congrArg String.toList same
  have value := congrArg (Nat.ofDigitChars 10 · 0) digits
  simpa only [Nat.ofDigitChars_toDigits (b := 10) (by decide) (Nat.le_refl _)] using value

/-- The characters of the first of two texts are found in front. -/
theorem getElem?_append {s : String} (t : String) {n : Nat} {c : Char} (there : s.toList[n]? = some c) :
    (s ++ t).toList[n]? = some c := by
  rw [String.toList_append, List.getElem?_append_left (List.getElem?_eq_some_iff.1 there).1, there]

/-- The message of a fault without a position begins differently. -/
theorem Fault.message_of_unplaced {f : Fault} (unplaced : ¬f.Placed) : f.message.toList[0]? ≠ some 'U' := by
  have begins {c : Char} (first : f.message.toList[0]? = some c) (other : c ≠ 'U') : f.message.toList[0]? ≠ some 'U' :=
    fun same => other (Option.some.inj (first.symm.trans same))
  cases f with
  | strayParen | openQuote => exact absurd trivial unplaced
  | openParens count =>
    obtain ⟨d, digits, same⟩ := List.exists_cons_of_ne_nil (Nat.toDigits_ne_nil (n := count) (b := 10))
    have first : (toString count).toList[0]? = some d := by
      rw [Nat.toString_eq_repr, Nat.toList_repr, same]
      rfl
    have digit : d.isDigit = true :=
      Nat.isDigit_of_mem_toDigits (b := 10) (n := count) (by decide) (by decide) (by simp [same])
    refine begins (getElem?_append _ (getElem?_append _ first)) ?_
    rintro rfl
    revert digit
    decide
  | emptyFacet | operatorAlone | doubleWildcard =>
    exact begins (getElem?_append _ (getElem?_append _ rfl)) (by decide)
  | operatorOrder | operatorPair =>
    exact begins (getElem?_append _ (getElem?_append _ (getElem?_append _ (getElem?_append _ rfl)))) (by decide)
  | spacedWildcard => exact begins rfl (by decide)

/-- The faults with a position are told apart by what is reported. -/
theorem Fault.message_eq_iff {f g : Fault} (placed : g.Placed) : f.message = g.message ↔ f = g := by
  refine ⟨fun same => ?_, congrArg _⟩
  have stray (q : Nat) : (Fault.strayParen q).message.toList[10]? = some 'c' := getElem?_append _ rfl
  have quote (q : Nat) : (Fault.openQuote q).message.toList[10]? = some 'q' := getElem?_append _ rfl
  have begins : g.message.toList[0]? = some 'U' := by
    cases g with
    | strayParen | openQuote => exact getElem?_append _ rfl
    | _ => exact placed.elim
  have placed' : f.Placed := by
    by_contra unplaced
    exact message_of_unplaced unplaced (same ▸ begins)
  cases f with
  | strayParen p =>
    cases g with
    | strayParen q => exact congrArg _ (eq_of_toString_eq ((String.append_right_inj _).1 same))
    | openQuote q => cases (stray p).symm.trans (same ▸ quote q)
    | _ => exact placed.elim
  | openQuote p =>
    cases g with
    | strayParen q => cases (quote p).symm.trans (same ▸ stray q)
    | openQuote q => exact congrArg _ (eq_of_toString_eq ((String.append_right_inj _).1 same))
    | _ => exact placed.elim
  | _ => exact placed'.elim

/-! ### The check -/

theorem unplaced_of_operatorFault {o : Operator} {preceding? following? : Option Token} {f : Fault}
    (found : operatorFault o preceding? following? = some f) : ¬f.Placed := by
  have lacking {f : Fault} (lacks : operatorFault.lacksLeft o preceding? = some f) : ¬f.Placed := by
    obtain ⟨-, same⟩ := Option.ite_none_right_eq_some.1 lacks
    obtain rfl := Option.some.inj same
    exact id
  unfold operatorFault at found
  split at found
  · split at found
    · obtain rfl := Option.some.inj found
      exact id
    · split at found
      · obtain rfl := Option.some.inj found
        exact id
      · exact lacking found
  · split at found
    · obtain rfl := Option.some.inj found
      exact id
    · exact lacking found

/-- What is looked for behind the parentheses and quotes has no position. -/
theorem unplaced_of_later {f : Fault}
    (found : facetFault? ts = some f ∨ operatorFault? ts = some f ∨ wildcardFault? ts = some f) : ¬f.Placed := by
  rcases found with facet | operator | wildcard
  · obtain ⟨focus, -, facet⟩ := List.exists_of_findSome?_eq_some facet
    split at facet
    · split at facet
      · obtain rfl := Option.some.inj facet
        exact id
      · cases facet
    · cases facet
  · obtain ⟨focus, -, operator⟩ := List.exists_of_findSome?_eq_some operator
    obtain ⟨o, -, operator⟩ := Option.bind_eq_some_iff.1 operator
    exact unplaced_of_operatorFault operator
  · obtain ⟨focus, -, wildcard⟩ := List.exists_of_findSome?_eq_some wildcard
    split at wildcard
    · cases wildcard
    split at wildcard
    · obtain rfl := Option.some.inj wildcard
      exact id
    split at wildcard
    · obtain ⟨-, same⟩ := Option.ite_none_right_eq_some.1 wildcard
      obtain rfl := Option.some.inj same
      exact id
    · cases wildcard

/-- A fault with a position is that of the first scan that finds something. -/
theorem fault?_eq_some_iff_of_placed {f : Fault} (placed : f.Placed) :
    fault? ts = some f ↔ parenFault? 0 ts = some f ∨ parenFault? 0 ts = none ∧ quoteFault? ts = some f := by
  simp only [fault?, Option.orElse_eq_orElse, Option.orElse_eq_or, Option.or_eq_some_iff]
  refine or_congr_right (and_congr_right fun _ => or_iff_left ?_)
  rintro ⟨-, later⟩
  exact unplaced_of_later (later.imp_right fun behind => behind.2.imp_right And.right) placed

theorem fault?_eq_strayParen_iff : fault? ts = some (.strayParen p) ↔
    ∃ (front : List Token) (t : Token) (rest : List Token), ts = front ++ t :: rest ∧ t.kind = .closeParen ∧
      Nests .openParen .closeParen (front.map (·.kind)) ∧ t.start + 1 = p := by
  have placed : (Fault.strayParen p).Placed := trivial
  rw [fault?_eq_some_iff_of_placed placed, ← parenFault?_eq_strayParen_iff]
  refine or_iff_left fun quote => ?_
  obtain ⟨t, -, same⟩ := Option.map_eq_some_iff.1 quote.2
  cases same

theorem fault?_eq_openQuote_iff {line : Text} (read : ts = tokens logsMarks line) :
    fault? ts = some (.openQuote p) ↔ Nests .openParen .closeParen (ts.map (·.kind)) ∧
      ∃ front t rest, ts = front ++ t :: rest ∧ t.kind = .quoted ∧ Unclosed t ∧
        (∀ u ∈ front, u.kind = .quoted → ¬Unclosed u) ∧ t.start + 1 = p := by
  have placed : (Fault.openQuote p).Placed := trivial
  rw [fault?_eq_some_iff_of_placed placed, ← quoteFault?_eq_openQuote_iff read, parenFault?_eq_none_iff_nests]
  refine or_iff_right fun paren => ?_
  rw [parenFault?_eq] at paren
  split at paren
  · cases paren
  · dsimp only at paren
    split at paren <;> cases paren

variable (query : Text)

theorem message_mem_errors_iff {f : Fault} (placed : f.Placed) :
    f.message ∈ (check query).errors ↔ fault? (checkedTokens query) = some f := by
  rw [errors_eq, Option.mem_toList, Option.map_eq_some_iff]
  simp only [Fault.message_eq_iff placed, exists_eq_right]

/-- A character that the check reads stands in the query behind the blanks at its beginning. -/
theorem getElem?_of_checked {t : Token} {c : Char} (mem : t ∈ checkedTokens query) (first : t.masked.head? = some c)
    (other : c ≠ 'x') : query[(query.takeWhile isBlank).length + t.start]? = some c := by
  have read := getElem?_start mem first other
  have there := Text.getElem?_of_strip read
  rw [Text.takeWhile_mask] at there
  exact (Text.maskFrom_eq_or 0 query _ c there).resolve_left other

/-- The check reports the position of a parenthesis if and only if it is the first one that closes nothing, and that of
a quote if and only if all parentheses have their partners and it opens the first string that is left open. The position
is counted from the first character of the query that is not blank; there the parenthesis or the quote stands. -/
theorem reported_iff (position : Nat) :
    (s!"Unmatched closing parenthesis at position {position}" ∈ (check query).errors ↔
      ∃ (front : List Token) (t : Token) (rest : List Token), checkedTokens query = front ++ t :: rest ∧
        t.kind = .closeParen ∧ Nests .openParen .closeParen (front.map (·.kind)) ∧ t.start + 1 = position ∧
        query[(query.takeWhile isBlank).length + t.start]? = some ')') ∧
    (s!"Unmatched quote starting at position {position}" ∈ (check query).errors ↔
      Nests .openParen .closeParen ((checkedTokens query).map (·.kind)) ∧
        ∃ front t rest, checkedTokens query = front ++ t :: rest ∧ t.kind = .quoted ∧ Unclosed t ∧
          (∀ u ∈ front, u.kind = .quoted → ¬Unclosed u) ∧ t.start + 1 = position ∧
          query[(query.takeWhile isBlank).length + t.start]? = some '"') := by
  constructor
  · have stray : (Fault.strayParen position).Placed := trivial
    refine ((message_mem_errors_iff query stray).trans fault?_eq_strayParen_iff).trans ⟨?_, ?_⟩
    · rintro ⟨front, t, rest, same, closes, nests, start⟩
      have mem : t ∈ checkedTokens query := by simp [same]
      have masked : t.masked = [')'] := masked_of_mark Lexer.single_logsMarks rfl mem closes
      exact ⟨front, t, rest, same, closes, nests, start,
        getElem?_of_checked query mem (by rw [masked]; rfl) (by decide)⟩
    · rintro ⟨front, t, rest, same, closes, nests, start, -⟩
      exact ⟨front, t, rest, same, closes, nests, start⟩
  · have quote : (Fault.openQuote position).Placed := trivial
    have read : checkedTokens query = tokens logsMarks (Text.strip query.mask) := rfl
    have reported := (message_mem_errors_iff query quote).trans (fault?_eq_openQuote_iff read)
    refine reported.trans (and_congr_right fun _ => ?_)
    constructor
    · rintro ⟨front, t, rest, same, quoted, opened, others, start⟩
      have mem : t ∈ checkedTokens query := by simp [same]
      have first : t.masked.head? = some '"' := by
        obtain ⟨body, masked, -⟩ := opened
        rw [masked]
        rfl
      exact ⟨front, t, rest, same, quoted, opened, others, start, getElem?_of_checked query mem first (by decide)⟩
    · rintro ⟨front, t, rest, same, quoted, opened, others, start, -⟩
      exact ⟨front, t, rest, same, quoted, opened, others, start⟩

/-- Behind a blank the culprits stand at the second place, and what is reported is the first one. -/
theorem reported_beside :
    ((check " )".toList).errors = ["Unmatched closing parenthesis at position 1"] ∧ " )".toList[0]? ≠ some ')') ∧
    (check " \"a".toList).errors = ["Unmatched quote starting at position 1"] ∧ " \"a".toList[0]? ≠ some '"' := by
  decide +kernel

end Logs

end Typeahead
