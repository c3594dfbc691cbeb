import Mathlib.Data.Option.Basic
import Typeahead.Proofs.Metrics.Filtered

/-!
What a cursor between the parentheses of a list of values types, if the query is written out in full.

- `Entry.exists_spot`: a place in a list is a place in one of its items.
- `Query.inList?_list`: the list is found with its key.
- `Query.typedAt_listed`: the item at the cursor is typed.
-/

namespace Typeahead.Metrics

open Lexer

namespace Entry

/-- What stands between the parentheses of a list. -/
def inside (first : Name) (more : List Item) : Text := first.text ++ (more.map Item.text).flatten

/-- A place between the parentheses of a list: in a name, or before the blank of an item. -/
structure Spot (first : Name) (more : List Item) (n : Nat) (passed : List Lexeme) (l : Lexeme) (i : Nat) :
    Prop where
  split : ∃ rest, listed first more = passed ++ l :: rest
  position : n = (spell passed).length + i
  within : i ≤ l.2.length
  behind : ∀ m ∈ passed.getLast?, m = (.comma, [',']) ∨ m = (.blank, [' '])
  typed : i = 0 ∨ ∃ name : Name, l = (.word, name.text)

/-- A place in the later items of a list is a place in the list. -/
theorem Spot.later {first name : Name} {more more' : List Item} {n i : Nat} {passed front : List Lexeme}
    {l mark : Lexeme} (spot : Spot name more' n passed l i)
    (split : listed first more = front ++ mark :: listed name more')
    (marks : mark = (.comma, [',']) ∨ mark = (.blank, [' '])) :
    Spot first more ((spell (front ++ [mark])).length + n) (front ++ mark :: passed) l i := by
  obtain ⟨rest, same⟩ := spot.split
  refine ⟨⟨rest, ?_⟩, ?_, spot.within, fun m last => ?_, spot.typed⟩
  · rw [split, same, List.append_assoc, List.cons_append]
  · simp [spot.position]
    omega
  · cases passed with
    | nil =>
      obtain rfl : mark = m := by simpa using last
      exact marks
    | cons k passed => exact spot.behind m (by simpa [List.getLast?_cons_cons] using last)

/-- Every place between the parentheses is one of these. -/
theorem exists_spot (first : Name) (more : List Item) {n : Nat} (h : n ≤ (inside first more).length) :
    ∃ passed l i, Spot first more n passed l i := by
  have own {first : Name} {more : List Item} {n : Nat} (h : n ≤ first.text.length) :
      Spot first more n [] (.word, first.text) n :=
    ⟨⟨_, rfl⟩, by simp, h, by simp, .inr ⟨first, rfl⟩⟩
  -- behind a comma the rest is a list again, which begins with the next item
  induction more generalizing first n with
  | nil => exact ⟨_, _, _, own (by simpa [inside] using h)⟩
  | cons item more ih =>
    by_cases typed : n ≤ first.text.length
    · exact ⟨_, _, _, own typed⟩
    cases spaced : item.spaced with
    | false =>
      have split : listed first (item :: more) = [(.word, first.text)] ++ (.comma, [',']) ::
          listed item.name more := by
        simp [listed, Item.lexemes, spaced]
      have length : (inside first (item :: more)).length =
          first.text.length + 1 + (inside item.name more).length := by
        simp [inside, Item.text, spaced]
        omega
      obtain ⟨passed, l, i, spot⟩ := ih item.name (n := n - (first.text.length + 1)) (by omega)
      have position : (spell ([(.word, first.text)] ++ [(.comma, [','])])).length +
          (n - (first.text.length + 1)) = n := by
        simp
        omega
      exact ⟨_, _, _, position ▸ spot.later split (.inl rfl)⟩
    | true =>
      have split : listed first (item :: more) = [(.word, first.text), (.comma, [','])] ++ (.blank, [' ']) ::
          listed item.name more := by
        simp [listed, Item.lexemes, spaced]
      have length : (inside first (item :: more)).length =
          first.text.length + 2 + (inside item.name more).length := by
        simp [inside, Item.text, spaced]
        omega
      by_cases fresh : n = first.text.length + 1
      · exact ⟨_, _, 0, ⟨_, split⟩, by simp [fresh], by simp, by simp, .inl rfl⟩
      obtain ⟨passed, l, i, spot⟩ := ih item.name (n := n - (first.text.length + 2)) (by omega)
      have position : (spell ([(.word, first.text), (.comma, [','])] ++ [(.blank, [' '])])).length +
          (n - (first.text.length + 2)) = n := by
        simp
        omega
      exact ⟨_, _, _, position ▸ spot.later split (.inr rfl)⟩

theorem spell_listed (first : Name) (more : List Item) : spell (listed first more) = inside first more := by
  have items : spell (more.map Item.lexemes).flatten = (more.map Item.text).flatten := by
    induction more with
    | nil => rfl
    | cons i more ih => simp [ih, spell_of_reads i.reads]
  simp [listed, inside, items]

/-- At such a place the characters of names just before it are the typed part of the name. -/
theorem Spot.trailing {first : Name} {more : List Item} {n i : Nat} {passed : List Lexeme} {l : Lexeme}
    (spot : Spot first more n passed l i) :
    Text.trailing isNameChar ((inside first more).take n) = l.2.take i := by
  obtain ⟨rest, same⟩ := spot.split
  have taken : (inside first more).take n = spell passed ++ l.2.take i := by
    rw [← spell_listed, same, spot.position, spell_append, spell_cons, List.take_length_add_append,
      List.take_append_of_le_length spot.within]
  rw [taken]
  refine Text.trailing_append (fun c mem => ?_) (fun c last => ?_)
  · rcases spot.typed with rfl | ⟨name, rfl⟩
    · simp at mem
    · exact List.all_eq_true.1 name.chars c (List.mem_of_mem_take mem)
  · cases found : passed.getLast? with
    | none => simp [List.getLast?_eq_none_iff.1 found] at last
    | some m =>
      obtain ⟨front, split⟩ := List.getLast?_eq_some_iff.1 found
      rcases spot.behind m found with rfl | rfl
      · obtain rfl : ',' = c := by simpa [split] using last
        decide
      · obtain rfl : ' ' = c := by simpa [split] using last
        decide

end Entry

/-- The list that an opening parenthesis begins in a filter: its key, and where it begins. -/
def listFrom? (s : Span) (paren : Focus) : Option (Text × Nat) := do
  let operator ← paren.preceding?
  guard (isIn operator)
  let before ← operator.preceding?
  let key ← if isNot before then before.preceding? else some before
  guard (key.token.kind = .word && s.start < key.token.start)
  return (bareKey key.token.written, paren.token.start)

theorem inList?_eq (r : Reading) (s : Span) (position : Nat) : r.inList? s position =
    (Reading.openParens [] (r.within ⟨s.start, position⟩)).head?.bind (listFrom? s) := rfl

theorem listFrom?_opening (key : Name) (negated : Bool) {s : Span} {start : Nat} (inner : s.start < start)
    (before after : List Token) {paren : Token} :
    listFrom? s ⟨(lay start (Entry.opening key negated)).reverse ++ before, paren, after⟩ =
      some (key.text, paren.start) := by
  have among : readsIn ['I', 'N'] = true := by decide
  have negation : readsNot ['N', 'O', 'T'] = true := by decide
  have other : readsNot key.text = false := decide_eq_false key.notNot
  cases negated with
  | false =>
    simp [listFrom?, Entry.opening, Focus.preceding?, Focus.seekLeft, isIn, isNot, among, other, inner,
      key.bareKey_eq]
  | true =>
    simp [listFrom?, Entry.opening, Focus.preceding?, Focus.seekLeft, isIn, isNot, among, negation, inner,
      key.bareKey_eq]

namespace Query

variable (q : Query)

section

variable {before after : List Entry} {key : Name} {negated : Bool} {passed : List Lexeme} {l : Lexeme}
  {i : Nat}

/-- The tokens of a list before a place in its items. -/
theorem entryTokens_list : q.entryTokens before
      (Entry.listHead key negated passed) l i =
    lay (q.upTo before).length (Entry.opening key negated) ++
      { kind := .openParen
        start := q.startOf before (Entry.opening key negated)
        written := ['(']
        masked := ['('] } ::
      (lay (q.startOf before (Entry.opening key negated) + 1) passed ++
        started (q.startOf before (Entry.listHead key negated passed)) l i) := by
  simp [entryTokens, startOf, Entry.listHead]

/-- Between the parentheses of a list the list is open. -/
theorem inList?_list {position : Nat} {vs : List Token}
    (cut : Cut (Reading.of q.text) position (lay 0 (q.upToLexemes before) ++
      q.entryTokens before (Entry.listHead key negated passed) l i) vs)
    (neutral : ∀ k ∈ passed ++ [l], k.1 ≠ .openParen ∧ k.1 ≠ .closeParen) :
    (Reading.of q.text).inList? q.filterSpan position =
      some (key.text, q.startOf before (Entry.opening key negated)) := by
  have closed : Balanced (lay (q.startOf before (Entry.opening key negated) + 1) passed ++
      started (q.startOf before (Entry.listHead key negated passed)) l i) := by
    refine .of_neutral fun t mem => ?_
    rcases List.mem_append.1 mem with there | here
    · exact kind_of_mem_lay (p := fun k => k ≠ .openParen ∧ k ≠ .closeParen)
        (fun k among => neutral k (List.mem_append_left _ among)) there
    · rw [(kind_of_mem_started here).1]
      exact neutral l (by simp)
  have opening := balanced_lay (Entry.neutral_opening key negated) (q.upTo before).length
  rw [q.lay_upTo, List.append_assoc] at cut
  rw [inList?_eq, cut.within (fun t => q.start_le_brace) (fun t => q.brace_lt_start), ← List.map_nil,
    openParens_followedBy, balanced_entries before, entryTokens_list, opening, focusesFrom,
    Reading.openParens, closed.openParens_eq]
  exact listFrom?_opening key negated (q.brace_lt_upTo before) _ _

/-- Between the parentheses of a list an item is a segment. -/
theorem segmentStart_list {first : Name} {more : List Item} {n : Nat} {vs : List Token}
    (cut : Cut (Reading.of q.text)
      (q.startOf before (Entry.listHead key negated passed) + i)
      (lay 0 (q.upToLexemes before) ++
        q.entryTokens before (Entry.listHead key negated passed) l i) vs)
    (spot : Entry.Spot first more n passed l i) :
    (Reading.of q.text).segmentStart (q.startOf before (Entry.opening key negated))
      (q.startOf before (Entry.listHead key negated passed) + i)
      (fun k => k = .openParen || k = .comma || k = .blank) =
        q.startOf before (Entry.listHead key negated passed) := by
  -- the lexeme before the item is the parenthesis, a comma or a blank
  obtain ⟨front, mark, split, marks, above⟩ : ∃ front mark,
      Entry.listHead key negated passed = front ++ [mark] ∧
      (mark.1 = .openParen ∨ mark.1 = .comma ∨ mark.1 = .blank) ∧
      (spell (Entry.opening key negated)).length ≤ (spell front).length := by
    cases found : passed.getLast? with
    | none =>
      rw [List.getLast?_eq_none_iff.1 found]
      exact ⟨_, _, rfl, .inl rfl, Nat.le_refl _⟩
    | some m =>
      obtain ⟨front, rfl⟩ := List.getLast?_eq_some_iff.1 found
      refine ⟨Entry.listHead key negated front, m, by simp [Entry.listHead], ?_, by simp [Entry.listHead]⟩
      rcases spot.behind m found with rfl | rfl <;> simp
  have start : q.startOf before (front ++ [mark]) =
      (spell ((q.upToLexemes before ++ front) ++ [mark])).length := by
    simp [startOf, spell_upTo]
  rw [split] at cut ⊢
  have lay : lay 0 (q.upToLexemes before) ++ q.entryTokens before (front ++ [mark]) l i =
      lay 0 ((q.upToLexemes before ++ front) ++ [mark]) ++
        started (q.startOf before (front ++ [mark])) l i := by
    simp [entryTokens, spell_upTo]
  rw [lay] at cut
  rw [start] at cut ⊢
  refine cut.segmentStart_lay ?_ ?_ (Nat.le_add_right ..) fun t mem => ⟨?_, ?_⟩
  · rcases marks with kind | kind | kind <;> simp [kind]
  · simp [startOf, spell_upTo]
    exact above
  · rw [(kind_of_mem_started mem).2]
    simp [startOf, spell_upTo]
    omega
  · rcases spot.typed with rfl | ⟨name, rfl⟩
    · simp [started] at mem
    · simp [(kind_of_mem_started mem).1]

/-- Between the parentheses of a list the current item is typed. -/
theorem typedAt_listed {first : Name} {more : List Item} {n : Nat}
    (filter : q.filter? = some (before ++ .list key negated first more :: after))
    (h : n ≤ (Entry.inside first more).length) :
    q.typedAt ((q.upTo before ++ key.text ++ Entry.operator negated).length + n) =
      (.filterValue, Text.trailing isNameChar ((Entry.inside first more).take n), some key.text) := by
  obtain ⟨passed, l, i, spot⟩ := Entry.exists_spot first more h
  obtain ⟨rest, split⟩ := spot.split
  have same : (Entry.list key negated first more).lexemes =
      Entry.listHead key negated passed ++ l :: (rest ++ [(.closeParen, [')'])]) := by
    rw [Entry.lexemes_list, split]
    simp [Entry.listHead]
  have position : (q.upTo before ++ key.text ++ Entry.operator negated).length + n =
      q.startOf before (Entry.listHead key negated passed) + i := by
    have spelled : spell (Entry.listHead key negated passed) =
        key.text ++ Entry.operator negated ++ spell passed := by
      rw [← Entry.spell_opening]
      simp [Entry.listHead]
    simp [startOf, spelled, spot.position, Nat.add_assoc]
  have neutral : ∀ k ∈ passed ++ [l], k.1 ≠ .openParen ∧ k.1 ≠ .closeParen := by
    refine fun k mem => Entry.neutral_listed first more k ?_
    rw [split, List.append_cons]
    exact List.mem_append_left _ mem
  obtain ⟨vs, cut⟩ := q.cut_entry filter same spot.within
  have begins := q.segmentStart_list cut spot
  rw [position, q.typedAt_entry filter same spot.within]
  simp only [Reading.filterContext, q.inList?_list cut neutral, begins]
  rw [spot.trailing]
  exact congrArg (fun t => (Place.filterValue, t, some key.text)) (q.slice_entry filter same spot.within)

end

end Query

end Typeahead.Metrics
