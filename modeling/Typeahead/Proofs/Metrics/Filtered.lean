import Typeahead.Proofs.Metrics.Typed

/-!
What a cursor between the braces of a filter types, outside the parentheses, if the query is written out
in full.

- `Query.upTo`: a query up to an entry of its filter.
- `Query.typedAt_entry`: in an entry nothing counts but the filter.
- `Query.typedAt_key`, `Query.typedAt_value`: a key, and its value behind the colon.
-/

namespace Typeahead.Metrics

open Lexer

theorem Name.bareKey_eq (n : Name) : bareKey n.text = n.text := by
  have begins := n.begins
  unfold bareKey Text.trimLeft
  cases same : n.text with
  | nil => rfl
  | cons c rest =>
    rw [same] at begins
    have unsigned : ¬ (decide (c = '!') || decide (c = '-')) = true := by
      rintro sign
      rcases Bool.or_eq_true_iff.1 sign with sign | sign <;>
        simp [of_decide_eq_true sign] at begins
    exact List.dropWhile_cons_of_neg unsigned

namespace Entry

/-- The key of an entry. -/
def key : Entry → Name
  | pair key _ => key
  | list key .. => key

theorem lexemes_key (e : Entry) : ∃ rest, e.lexemes = [] ++ (.word, e.key.text) :: rest := by
  cases e <;> exact ⟨_, rfl⟩

/-- The lexemes of the items of a list. -/
def listed (first : Name) (more : List Item) : List Lexeme :=
  (.word, first.text) :: (more.map Item.lexemes).flatten

theorem kind_of_mem_listed {first : Name} {more : List Item} {l : Lexeme} (h : l ∈ listed first more) :
    l.1 = .word ∨ l.1 = .comma ∨ l.1 = .blank := by
  rcases List.mem_cons.1 h with rfl | later
  · exact .inl rfl
  · obtain ⟨ls, there, among⟩ := List.mem_flatten.1 later
    obtain ⟨i, -, rfl⟩ := List.mem_map.1 there
    unfold Item.lexemes at among
    cases spaced : i.spaced <;> simp [spaced] at among
    · rcases among with rfl | rfl <;> simp
    · rcases among with rfl | rfl | rfl <;> simp

theorem neutral_listed (first : Name) (more : List Item) :
    ∀ l ∈ listed first more, l.1 ≠ .openParen ∧ l.1 ≠ .closeParen := by
  intro l mem
  rcases kind_of_mem_listed mem with kind | kind | kind <;> simp [kind]

/-- The lexemes of a list up to its parenthesis. -/
def opening (key : Name) (negated : Bool) : List Lexeme :=
  (.word, key.text) :: (if negated then [(.blank, [' ']), (.word, "NOT".toList)] else []) ++
    [(.blank, [' ']), (.word, "IN".toList), (.blank, [' '])]

theorem neutral_opening (key : Name) (negated : Bool) :
    ∀ l ∈ opening key negated, l.1 ≠ .openParen ∧ l.1 ≠ .closeParen := by
  cases negated <;> simp [opening]

theorem spell_opening (key : Name) (negated : Bool) :
    spell (opening key negated) ++ ['('] = key.text ++ operator negated := by
  cases negated <;> simp [opening, operator]

/-- The lexemes of a list up to a place among its items. -/
def listHead (key : Name) (negated : Bool) (passed : List Lexeme) : List Lexeme :=
  opening key negated ++ (.openParen, ['(']) :: passed

/-- A list is its key with the operator, and its items between parentheses. -/
theorem lexemes_list (key : Name) (negated : Bool) (first : Name) (more : List Item) :
    (list key negated first more).lexemes = opening key negated ++
      (.openParen, ['(']) :: (listed first more ++ [(.closeParen, [')'])]) := by
  cases negated <;> simp [lexemes, opening, operatorLexemes, listed]

/-- An entry closes the parentheses it opens. -/
theorem balanced (e : Entry) (n : Nat) : Balanced (lay n e.lexemes) := by
  cases e with
  | pair key value => exact balanced_lay (by simp [lexemes]) n
  | list key negated first more =>
    rw [lexemes_list, lay_append]
    refine .append (balanced_lay (neutral_opening key negated) n) ?_
    rw [lay_cons, lay_append]
    exact (balanced_lay (neutral_listed first more) _).enclosed rfl rfl

end Entry

namespace Query

variable (q : Query)

/-- How a query is written up to the entry that comes behind some others. -/
def upTo (before : List Entry) : Text :=
  q.head ++ '{' :: (before.map fun e => e.text ++ [',']).flatten

/-- The lexemes of entries with a comma behind each. -/
def entryLexemes (before : List Entry) : List Lexeme :=
  (before.map fun e => e.lexemes ++ [(.comma, [','])]).flatten

/-- The lexemes of a query up to an entry. -/
def upToLexemes (before : List Entry) : List Lexeme :=
  q.headLexemes ++ (.openBrace, ['{']) :: entryLexemes before

theorem spell_upTo (before : List Entry) : spell (q.upToLexemes before) = q.upTo before := by
  have entries : spell (entryLexemes before) = (before.map fun e => e.text ++ [',']).flatten := by
    induction before with
    | nil => rfl
    | cons e before ih =>
      have later := ih
      simp only [entryLexemes] at later ⊢
      simp [later, spell_of_reads e.reads]
  simp [upToLexemes, upTo, spell_head, entries]

/-- An entry begins behind the opening brace. -/
theorem brace_lt_upTo (before : List Entry) : q.filterSpan.start < (q.upTo before).length := by
  simp [upTo, filterSpan]

section

variable {before after : List Entry} {e : Entry}

theorem filter_split (filter : q.filter? = some (before ++ e :: after)) :
    q.headLexemes ++ q.filterLexemes = q.upToLexemes before ++ e.lexemes ++
      ((after.map fun e => (.comma, [',']) :: e.lexemes).flatten ++ [(.closeBrace, ['}'])]) := by
  have entries := separated_append (before.map Entry.lexemes) e.lexemes (after.map Entry.lexemes)
  simp only [List.map_map] at entries
  simp [filterLexemes, filter, upToLexemes, entryLexemes, entries, Function.comp_def]

/-- The lexemes of a query, told from one lexeme of an entry. -/
theorem lexemes_entry (filter : q.filter? = some (before ++ e :: after)) {passed rest : List Lexeme}
    {l : Lexeme} (same : e.lexemes = passed ++ l :: rest) : ∃ later,
    q.lexemes = (q.upToLexemes before ++ passed) ++ l :: later := by
  refine ⟨rest ++ (((after.map fun e => (.comma, [',']) :: e.lexemes).flatten ++ [(.closeBrace, ['}'])]) ++
    q.groupingLexemes), ?_⟩
  rw [lexemes, q.filter_split filter, same]
  simp only [List.append_assoc, List.cons_append]

/-- An entry stands between the braces. -/
theorem inside_filter (filter : q.filter? = some (before ++ e :: after)) {n : Nat}
    (h : n ≤ e.text.length) : q.filterSpan.contains ((q.upTo before).length + n) = true := by
  have spelled := congrArg (fun ls => (spell ls).length) (q.filter_split filter)
  simp only [spell_append, spell_head, spell_filter, spell_upTo, spell_of_reads e.reads, spell_cons,
    spell_nil, List.length_append, List.length_cons, List.length_nil] at spelled
  refine Span.contains_iff.2 ⟨(q.brace_lt_upTo before).trans_le (Nat.le_add_right ..), ?_⟩
  simp only [filterSpan]
  omega

/-- Between the braces of the filter neither the metric nor the grouping counts. -/
theorem contextAt_filter (filter : q.filter? = some (before ++ e :: after)) {position : Nat}
    (inside : q.filterSpan.contains position = true) : (Reading.of q.text).contextAt position =
      (Reading.of q.text).filterContext q.filterSpan position := by
  have ungrouped : (Reading.of q.text).groupingAt? position = none := by
    refine q.groupingAt?_eq_none ?_
    have bounds := (Span.contains_iff.1 inside).2
    simp only [filterSpan] at bounds
    simp only [groupingSpan, List.length_append]
    omega
  have filtered : (Reading.of q.text).filter?.filter (·.contains position) = some q.filterSpan := by
    rw [q.filter?_eq, filter]
    simp [inside]
  rw [Reading.contextAt, ungrouped, filtered]

end

/-- The opening brace of the filter. -/
def brace : Token := { kind := .openBrace, start := q.head.length, written := ['{'], masked := ['{'] }

theorem lay_upTo (before : List Entry) : lay 0 (q.upToLexemes before) =
    (q.headTokens ++ [q.brace]) ++ lay (q.head.length + 1) (entryLexemes before) := by
  simp [upToLexemes, headTokens, brace, spell_head]

theorem start_le_brace {t : Token} (mem : t ∈ q.headTokens ++ [q.brace]) : t.start ≤ q.filterSpan.start := by
  rcases List.mem_append.1 mem with passed | last
  · have := (start_le_of_mem_lay passed).2
    rw [spell_head, Nat.zero_add, Token.stop] at this
    exact (Nat.le_add_right ..).trans this
  · rw [List.mem_singleton.1 last]
    exact Nat.le_refl _

theorem balanced_entries (before : List Entry) (n : Nat) : Balanced (lay n (entryLexemes before)) := by
  induction before generalizing n with
  | nil => exact .nil
  | cons e before ih =>
    have same : entryLexemes (e :: before) = e.lexemes ++ ((.comma, [',']) :: entryLexemes before) := by
      simp [entryLexemes]
    rw [same, lay_append]
    have comma : ∀ l ∈ [((.comma, [',']) : Lexeme)], l.1 ≠ .openParen ∧ l.1 ≠ .closeParen := by simp
    exact (e.balanced n).append ((balanced_lay comma _).append (ih _))

/-- The last lexeme before an entry begins a segment. -/
theorem upTo_last (before : List Entry) : ∃ ls l, q.upToLexemes before = ls ++ [l] ∧
    (l.1 = .openBrace ∨ l.1 = .comma) ∧ q.head.length ≤ (spell ls).length := by
  induction before using List.reverseRecOn with
  | nil => exact ⟨q.headLexemes, (.openBrace, ['{']), rfl, .inl rfl, by rw [spell_head]⟩
  | append_singleton before e _ =>
    refine ⟨q.upToLexemes before ++ e.lexemes, (.comma, [',']), ?_, .inr rfl, ?_⟩
    · simp [upToLexemes, entryLexemes]
    · simp [spell_upTo, upTo]

/-- Where a lexeme of an entry begins that stands behind others. -/
def startOf (before : List Entry) (head : List Lexeme) : Nat := (q.upTo before ++ spell head).length

/-- The tokens of an entry before a place in one of its lexemes. -/
def entryTokens (before : List Entry) (head : List Lexeme) (l : Lexeme) (n : Nat) : List Token :=
  lay (q.upTo before).length head ++ started (q.startOf before head) l n

section

variable {before after : List Entry} {e : Entry} {head rest : List Lexeme} {l : Lexeme} {n : Nat}

theorem upTo_le_startOf : (q.upTo before).length ≤ q.startOf before head := by
  simp [startOf]

theorem start_of_mem_entryTokens {t : Token} (mem : t ∈ q.entryTokens before head l n) :
    (q.upTo before).length ≤ t.start := by
  rcases List.mem_append.1 mem with passed | here
  · exact (start_le_of_mem_lay passed).1
  · rw [(kind_of_mem_started here).2]
    exact q.upTo_le_startOf

/-- Behind the opening brace all tokens start later than it. -/
theorem brace_lt_start {t : Token} (mem : t ∈ lay (q.head.length + 1) (entryLexemes before) ++
    q.entryTokens before head l n) : q.filterSpan.start < t.start := by
  rcases List.mem_append.1 mem with passed | here
  · exact (start_le_of_mem_lay passed).1
  · exact (q.brace_lt_upTo before).trans_le (q.start_of_mem_entryTokens here)

theorem plain_of_mem_entryTokens (plain : ∀ k ∈ head ++ [l], k.1 = .word ∨ k.1 = .colon) {t : Token}
    (mem : t ∈ q.entryTokens before head l n) : t.kind = .word ∨ t.kind = .colon := by
  rcases List.mem_append.1 mem with passed | here
  · exact kind_of_mem_lay (p := fun k => k = .word ∨ k = .colon)
      (fun k among => plain k (List.mem_append_left _ among)) passed
  · rw [(kind_of_mem_started here).1]
    exact plain l (by simp)

/-- The tokens of the line before a place in an entry. -/
theorem cut_entry (filter : q.filter? = some (before ++ e :: after)) (same : e.lexemes = head ++ l :: rest)
    (h : n ≤ l.2.length) : ∃ vs, Cut (Reading.of q.text) (q.startOf before head + n)
      (lay 0 (q.upToLexemes before) ++ q.entryTokens before head l n) vs := by
  obtain ⟨later, lexemes⟩ := q.lexemes_entry filter same
  obtain ⟨vs, cut⟩ := q.cut lexemes h
  refine ⟨vs, ?_⟩
  rwa [lay_append, List.append_assoc, spell_append, Nat.zero_add, q.spell_upTo] at cut

/-- A place in an entry stands between the braces, and the filter is all that counts there. -/
theorem typedAt_entry (filter : q.filter? = some (before ++ e :: after))
    (same : e.lexemes = head ++ l :: rest) (h : n ≤ l.2.length) :
    q.typedAt (q.startOf before head + n) =
      let c := (Reading.of q.text).filterContext q.filterSpan (q.startOf before head + n)
      (c.place, c.token, c.key?) := by
  obtain ⟨later, lexemes⟩ := q.lexemes_entry filter same
  have typed := q.typedAt_lexeme lexemes h
  rw [spell_append, q.spell_upTo] at typed
  have within : (spell head).length + n ≤ e.text.length := by
    rw [← spell_of_reads e.reads, same, spell_append, spell_cons, List.length_append, List.length_append]
    omega
  have inside : q.filterSpan.contains (q.startOf before head + n) = true := by
    rw [startOf, List.length_append, Nat.add_assoc]
    exact q.inside_filter filter within
  rw [← q.contextAt_filter filter inside]
  exact typed

/-- The line from the beginning of a lexeme of an entry to a place in it. -/
theorem slice_entry (filter : q.filter? = some (before ++ e :: after)) (same : e.lexemes = head ++ l :: rest)
    (h : n ≤ l.2.length) :
    q.text.slice (q.startOf before head) (q.startOf before head + n) = l.2.take n := by
  obtain ⟨later, lexemes⟩ := q.lexemes_entry filter same
  have slice := q.slice_lexeme lexemes h
  rwa [spell_append, q.spell_upTo] at slice

theorem start_lt_upTo (filter : q.filter? = some (before ++ e :: after)) {t : Token}
    (mem : t ∈ lay 0 (q.upToLexemes before)) : t.start < (q.upTo before).length := by
  obtain ⟨rest, first⟩ := e.lexemes_key
  obtain ⟨later, lexemes⟩ := q.lexemes_entry filter first
  rw [List.append_nil] at lexemes
  rw [← q.spell_upTo]
  exact q.start_lt_of_mem_lay lexemes mem

/-- Where only words and colons stand before the cursor in an entry, no list is open. -/
theorem inList?_entry {position : Nat} {vs : List Token}
    (cut : Cut (Reading.of q.text) position
      (lay 0 (q.upToLexemes before) ++ q.entryTokens before head l n) vs)
    (plain : ∀ k ∈ head ++ [l], k.1 = .word ∨ k.1 = .colon) :
    (Reading.of q.text).inList? q.filterSpan position = none := by
  rw [q.lay_upTo, List.append_assoc] at cut
  have neutral : Balanced (q.entryTokens before head l n) := by
    refine .of_neutral fun t mem => ?_
    rcases q.plain_of_mem_entryTokens plain mem with kind | kind <;> simp [kind]
  exact cut.inList?_of_balanced (fun t => q.start_le_brace) (fun t => q.brace_lt_start)
    ((balanced_entries before _).append neutral)

/-- There the entry is the segment of the cursor. -/
theorem segmentStart_entry {position : Nat} {vs : List Token}
    (cut : Cut (Reading.of q.text) position
      (lay 0 (q.upToLexemes before) ++ q.entryTokens before head l n) vs)
    (plain : ∀ k ∈ head ++ [l], k.1 = .word ∨ k.1 = .colon) (reached : (q.upTo before).length ≤ position) :
    (Reading.of q.text).segmentStart q.filterSpan.start position
      (fun k => k = .openBrace || k = .openParen || k = .comma || k = .blank) = (q.upTo before).length := by
  obtain ⟨passed, last, same, kind, above⟩ := q.upTo_last before
  have spelled := q.spell_upTo before
  rw [same] at cut spelled
  rw [← spelled] at reached ⊢
  refine cut.segmentStart_lay ?_ above reached fun t mem => ⟨?_, ?_⟩
  · rcases kind with kind | kind <;> simp [kind]
  · exact (q.brace_lt_upTo before).le.trans (q.start_of_mem_entryTokens mem)
  · rcases q.plain_of_mem_entryTokens plain mem with kind | kind <;> simp [kind]

/-- There the first colon of the entry tells a key from its value. -/
theorem typedAt_plain (filter : q.filter? = some (before ++ e :: after))
    (same : e.lexemes = head ++ l :: rest) (h : n ≤ l.2.length)
    (plain : ∀ k ∈ head ++ [l], k.1 = .word ∨ k.1 = .colon) :
    q.typedAt (q.startOf before head + n) =
      match (q.entryTokens before head l n).find? (fun t => t.kind = .colon) with
      | none => (.filterKey, q.text.slice (q.upTo before).length (q.startOf before head + n), none)
      | some colon =>
        let key := bareKey (Text.strip (q.text.slice (q.upTo before).length colon.start))
        (.filterValue, q.text.slice (colon.start + 1) (q.startOf before head + n),
          if key.isEmpty then none else some key) := by
  obtain ⟨vs, cut⟩ := q.cut_entry filter same h
  have reached : (q.upTo before).length ≤ q.startOf before head + n :=
    q.upTo_le_startOf.trans (Nat.le_add_right ..)
  have colon := cut.colon?_eq (fun t => q.start_lt_upTo filter) fun t => q.start_of_mem_entryTokens
  rw [q.typedAt_entry filter same h]
  simp only [Reading.filterContext, q.inList?_entry cut plain, q.segmentStart_entry cut plain reached, colon]
  cases (q.entryTokens before head l n).find? (fun t => t.kind = .colon) <;> rfl

end

section

variable {before after : List Entry} {n : Nat}

/-- A key is typed up to its end. -/
theorem typedAt_key {e : Entry} (filter : q.filter? = some (before ++ e :: after))
    (h : n ≤ e.key.text.length) :
    q.typedAt ((q.upTo before).length + n) = (.filterKey, e.key.text.take n, none) := by
  obtain ⟨rest, first⟩ := e.lexemes_key
  have typed := q.typedAt_plain filter first h (by simp)
  have token := q.slice_entry filter first h
  have start : q.startOf before [] = (q.upTo before).length := by simp [startOf]
  have colonless :
      (q.entryTokens before [] (.word, e.key.text) n).find? (fun t => t.kind = .colon) = none := by
    refine List.find?_eq_none.2 fun t mem => ?_
    rw [entryTokens, lay_nil, List.nil_append] at mem
    simp [(kind_of_mem_started mem).1]
  rw [colonless, start] at typed
  rw [start] at token
  rw [typed, token]

/-- Behind the colon the value is typed. -/
theorem typedAt_value {key value : Name} (filter : q.filter? = some (before ++ .pair key value :: after))
    (h : n ≤ value.text.length) :
    q.typedAt ((q.upTo before ++ key.text ++ [':']).length + n) =
      (.filterValue, value.text.take n, some key.text) := by
  have first : (Entry.pair key value).lexemes =
      [] ++ (.word, key.text) :: [(.colon, [':']), (.word, value.text)] := rfl
  have second : (Entry.pair key value).lexemes =
      [(.word, key.text), (.colon, [':'])] ++ [(.word, value.text)] := rfl
  have typed := q.typedAt_plain filter second h (by simp)
  have token := q.slice_entry filter second h
  have name := q.slice_entry filter first (Nat.le_refl _)
  have start : q.startOf before [(.word, key.text), (.colon, [':'])] =
      (q.upTo before ++ key.text ++ [':']).length := by
    simp [startOf]
  set sign := (q.upTo before).length + key.text.length
  have behind : (q.upTo before ++ key.text ++ [':']).length = sign + 1 := by simp [sign, Nat.add_assoc]
  have colon : (q.entryTokens before [(.word, key.text), (.colon, [':'])] (.word, value.text) n).find?
      (fun t => t.kind = .colon) =
        some { kind := .colon, start := sign, written := [':'], masked := [':'] } := by
    simp [entryTokens, sign]
  have bare : bareKey (Text.strip (q.text.slice (q.upTo before).length sign)) = key.text := by
    have sliced : q.text.slice (q.upTo before).length sign = key.text := by
      simpa [startOf, sign] using name
    rw [sliced, Text.strip_of_inked key.inked, key.bareKey_eq]
  rw [colon, start, behind] at typed
  rw [start, behind] at token
  rw [behind, typed]
  simp only [bare, token]
  simp [key.nonempty]

end

end Query

end Typeahead.Metrics
