import Mathlib.Data.List.Find
import Typeahead.Metrics.Cursor
import Typeahead.Proofs.Token.Lexemes

/-!
What a metrics line makes of a cursor, told from the tokens before it: where the segment of the cursor
begins, the word that it ends, and the list that is open.

- `Balanced`: parentheses that are closed leave no list open.
- `Cut.segmentStart`, `Cut.wordBefore`: the typed part of a line begins behind the last mark.
- `Cut.inList?_of_balanced`: without an open parenthesis there is no list.
-/

namespace Typeahead.Metrics

open Lexer

theorem Span.contains_iff {s : Span} {position : Nat} :
    s.contains position = true ↔ s.start < position ∧ position ≤ s.stop := by
  simp [Span.contains]

/-- A stretch of tokens that leaves open the parentheses which were open before it, and no others. -/
def Balanced (ts : List Token) : Prop := ∀ opened before more,
  Reading.openParens opened (focusesFrom before (ts ++ more)) =
    Reading.openParens opened (focusesFrom (ts.reverse ++ before) more)

namespace Balanced

theorem nil : Balanced [] := fun _ _ _ => rfl

theorem append {ts us : List Token} (first : Balanced ts) (then' : Balanced us) : Balanced (ts ++ us) := by
  intro opened before more
  rw [List.append_assoc, first, then', List.reverse_append, List.append_assoc]

theorem of_neutral {ts : List Token} (neutral : ∀ t ∈ ts, t.kind ≠ .openParen ∧ t.kind ≠ .closeParen) :
    Balanced ts := by
  induction ts with
  | nil => exact nil
  | cons t ts ih =>
    obtain ⟨⟨opens, closes⟩, later⟩ := List.forall_mem_cons.1 neutral
    intro opened before more
    have skipped : Reading.openParens opened (focusesFrom before (t :: ts ++ more)) =
        Reading.openParens opened (focusesFrom (t :: before) (ts ++ more)) := by
      rw [List.cons_append, focusesFrom, Reading.openParens]
      split
      · next opening => exact absurd opening opens
      · next closing => exact absurd closing closes
      · rfl
    rw [skipped, ih later, List.reverse_cons, List.append_assoc, List.singleton_append]

theorem enclosed {ts : List Token} (h : Balanced ts) {left right : Token} (opens : left.kind = .openParen)
    (closes : right.kind = .closeParen) : Balanced (left :: ts ++ [right]) := by
  intro opened before more
  have entered : Reading.openParens opened (focusesFrom before (left :: ts ++ [right] ++ more)) =
      Reading.openParens (⟨before, left, ts ++ [right] ++ more⟩ :: opened)
        (focusesFrom (left :: before) (ts ++ ([right] ++ more))) := by
    rw [List.cons_append, List.cons_append, focusesFrom, Reading.openParens, List.append_assoc]
    simp only [opens]
  rw [entered, h, List.singleton_append, focusesFrom, Reading.openParens]
  simp [closes]

/-- At their end the same parentheses are open as before them. -/
theorem openParens_eq {ts : List Token} (h : Balanced ts) (opened : List Focus) (before : List Token) :
    Reading.openParens opened (focusesFrom before ts) = opened := by
  have this := h opened before []
  rwa [List.append_nil, focusesFrom, Reading.openParens] at this

end Balanced

/-- Lexemes among which there is no parenthesis leave open what was open before. -/
theorem balanced_lay {ls : List Lexeme} (neutral : ∀ l ∈ ls, l.1 ≠ .openParen ∧ l.1 ≠ .closeParen)
    (n : Nat) : Balanced (lay n ls) :=
  .of_neutral fun _ => kind_of_mem_lay (p := fun k => k ≠ .openParen ∧ k ≠ .closeParen) neutral

/-- Where no parenthesis opens none is open. -/
theorem openParens_of_unopened {fs : List Focus} (unopened : ∀ f ∈ fs, f.token.kind ≠ .openParen) :
    Reading.openParens [] fs = [] := by
  induction fs with
  | nil => rfl
  | cons f fs ih =>
    obtain ⟨first, later⟩ := List.forall_mem_cons.1 unopened
    rw [Reading.openParens]
    split
    · next opening => exact absurd opening first
    · exact ih later
    · exact ih later

/-- What stands behind the tokens is nothing to the parentheses that are open among them. -/
theorem openParens_followedBy (more : List Token) (opened fs : List Focus) :
    Reading.openParens (opened.map (·.followedBy more)) (fs.map (·.followedBy more)) =
      (Reading.openParens opened fs).map (·.followedBy more) := by
  induction fs generalizing opened with
  | nil => rfl
  | cons f fs ih =>
    have same : (f.followedBy more).token.kind = f.token.kind := rfl
    rw [List.map_cons, Reading.openParens, Reading.openParens, same]
    split
    · exact ih (f :: opened)
    · rw [← List.map_tail]
      exact ih opened.tail
    · exact ih opened

/-- The tokens of a line fall in two at a position: those that start before it, and those that do not. -/
structure Cut (r : Reading) (position : Nat) (us vs : List Token) : Prop where
  tokens : r.tokens = us ++ vs
  before : ∀ t ∈ us, t.start < position
  beyond : ∀ t ∈ vs, position ≤ t.start

namespace Cut

variable {r : Reading} {position : Nat} {us vs : List Token}

theorem filter (h : Cut r position us vs) : (r.tokens.filter fun t => t.start < position) = us := by
  have kept : (us.filter fun t => t.start < position) = us :=
    List.filter_eq_self.2 fun t mem => decide_eq_true (h.before t mem)
  have dropped : (vs.filter fun t => t.start < position) = [] :=
    List.filter_eq_nil_iff.2 fun t mem => by simpa using h.beyond t mem
  rw [h.tokens, List.filter_append, kept, dropped, List.append_nil]

/-- A segment begins behind the last token before the cursor that begins one. -/
theorem segmentStart {ws xs : List Token} {m : Token} (h : Cut r position (ws ++ m :: xs) vs)
    {lower : Nat} {begins : TokenKind → Bool} (starts : begins m.kind = true) (above : lower ≤ m.start)
    (quiet : ∀ t ∈ xs, lower ≤ t.start ∧ begins t.kind = false) :
    r.segmentStart lower position begins = min m.stop position := by
  have back (ts : List Token) (quiet : ∀ t ∈ ts, lower ≤ t.start ∧ begins t.kind = false) :
      Reading.segmentStart.back lower position begins (ts ++ m :: ws.reverse) = min m.stop position := by
    induction ts with
    | nil =>
      rw [List.nil_append, Reading.segmentStart.back, if_neg (Nat.not_lt.2 above), if_pos starts]
    | cons t ts ih =>
      obtain ⟨⟨there, goesOn⟩, later⟩ := List.forall_mem_cons.1 quiet
      rw [List.cons_append, Reading.segmentStart.back, if_neg (Nat.not_lt.2 there), if_neg (by simp [goesOn])]
      exact ih later
  unfold Reading.segmentStart
  rw [h.filter, List.reverse_append, List.reverse_cons, List.append_assoc, List.singleton_append]
  exact back xs.reverse fun t mem => quiet t (List.mem_reverse.1 mem)

/-- The same, told from the lexemes before the cursor. -/
theorem segmentStart_lay {ls : List Lexeme} {l : Lexeme} {xs : List Token}
    (h : Cut r position (lay 0 (ls ++ [l]) ++ xs) vs) {lower : Nat} {begins : TokenKind → Bool}
    (starts : begins l.1 = true) (above : lower ≤ (spell ls).length)
    (reached : (spell (ls ++ [l])).length ≤ position)
    (quiet : ∀ t ∈ xs, lower ≤ t.start ∧ begins t.kind = false) :
    r.segmentStart lower position begins = (spell (ls ++ [l])).length := by
  rw [lay_append, lay_cons, lay_nil, List.append_assoc, List.singleton_append, Nat.zero_add] at h
  have stop : (spell (ls ++ [l])).length = (spell ls).length + l.2.length := by simp
  rw [h.segmentStart starts above quiet, Token.stop, stop]
  exact Nat.min_eq_left (stop ▸ reached)

/-- The first colon of a segment before the cursor. -/
theorem colon?_eq {ws xs : List Token} (h : Cut r position (ws ++ xs) vs) {start : Nat}
    (left : ∀ t ∈ ws, t.start < start) (right : ∀ t ∈ xs, start ≤ t.start) :
    (r.tokens.find? fun t => t.kind = .colon && start ≤ t.start && t.start < position) =
      xs.find? fun t => t.kind = .colon := by
  have passed : (ws.find? fun t => t.kind = .colon && start ≤ t.start && t.start < position) = none := by
    refine List.find?_eq_none.2 fun t mem => ?_
    have := left t mem
    simp only [Bool.and_eq_true, decide_eq_true_eq]
    omega
  have ahead : (vs.find? fun t => t.kind = .colon && start ≤ t.start && t.start < position) = none := by
    refine List.find?_eq_none.2 fun t mem => ?_
    have := h.beyond t mem
    simp only [Bool.and_eq_true, decide_eq_true_eq]
    omega
  have here : (xs.find? fun t => t.kind = .colon && start ≤ t.start && t.start < position) =
      xs.find? fun t => t.kind = .colon := by
    refine List.find?_congr fun t mem => ?_
    have := right t mem
    have := h.before t (List.mem_append_right _ mem)
    simp [*]
  rw [h.tokens, List.find?_append, List.find?_append, passed, ahead, here, Option.none_or, Option.or_none]

/-- The part before the cursor of the last token before it, if that is a word. -/
theorem wordBefore {ws : List Token} {t : Token} (h : Cut r position (ws ++ [t]) vs) :
    r.wordBefore position = if t.kind = .word then t.written.take (position - t.start) else [] := by
  have here : t.start < position := h.before t (by simp)
  have found : focusBefore? (ws ++ t :: vs) position = some ⟨ws.reverse, t, vs⟩ :=
    focusBefore?_append here h.beyond
  unfold Reading.wordBefore
  rw [h.tokens, List.append_assoc, List.singleton_append, found]

theorem wordBefore_nil (h : Cut r position [] vs) : r.wordBefore position = [] := by
  have missed : focusBefore? r.tokens position = none := by
    rw [h.tokens, List.nil_append]
    refine List.find?_eq_none.2 fun f mem => ?_
    obtain ⟨passed, same, -⟩ := mem_focusesFrom (List.mem_reverse.1 mem)
    have := h.beyond f.token (same ▸ List.mem_append_right _ List.mem_cons_self)
    simpa using this
  rw [Reading.wordBefore, missed]

/-- The tokens between an opening mark and the cursor. -/
theorem within {ws xs : List Token} (h : Cut r position (ws ++ xs) vs) {lower : Nat}
    (outside : ∀ t ∈ ws, t.start ≤ lower) (inside : ∀ t ∈ xs, lower < t.start) :
    r.within ⟨lower, position⟩ = (focusesFrom ws.reverse xs).map (·.followedBy vs) := by
  have token {before ts : List Token} {f : Focus} (mem : f ∈ focusesFrom before ts) : f.token ∈ ts := by
    obtain ⟨passed, same, -⟩ := mem_focusesFrom mem
    exact same ▸ List.mem_append_right _ List.mem_cons_self
  -- the line falls in three: up to the mark, between the mark and the cursor, behind the cursor
  let among (f : Focus) : Bool := lower < f.token.start && f.token.start < position
  have first : (((focusesFrom [] ws).map (·.followedBy xs)).map (·.followedBy vs)).filter among = [] := by
    refine List.filter_eq_nil_iff.2 fun f mem => ?_
    obtain ⟨g, mapped, rfl⟩ := List.mem_map.1 mem
    obtain ⟨g, there, rfl⟩ := List.mem_map.1 mapped
    have := outside g.token (token there)
    simp only [among, Focus.followedBy, Bool.and_eq_true, decide_eq_true_eq]
    omega
  have second : ((focusesFrom ws.reverse xs).map (·.followedBy vs)).filter among =
      (focusesFrom ws.reverse xs).map (·.followedBy vs) := by
    refine List.filter_eq_self.2 fun f mem => ?_
    obtain ⟨g, there, rfl⟩ := List.mem_map.1 mem
    have := inside g.token (token there)
    have := h.before g.token (List.mem_append_right _ (token there))
    simp only [among, Focus.followedBy, Bool.and_eq_true, decide_eq_true_eq]
    omega
  have third : (focusesFrom ((ws ++ xs).reverse ++ []) vs).filter among = [] := by
    refine List.filter_eq_nil_iff.2 fun f mem => ?_
    have := h.beyond f.token (token mem)
    simp only [among, Bool.and_eq_true, decide_eq_true_eq]
    omega
  change (focuses r.tokens).filter among = _
  rw [h.tokens, focuses, focusesFrom_append, focusesFrom_append [] ws xs, List.map_append,
    List.filter_append, List.filter_append, first, List.append_nil, second, third, List.append_nil,
    List.nil_append]

/-- No list is open at the cursor if all parentheses before it are closed. -/
theorem inList?_of_balanced {ws xs : List Token} (h : Cut r position (ws ++ xs) vs) {s : Span}
    (outside : ∀ t ∈ ws, t.start ≤ s.start) (inside : ∀ t ∈ xs, s.start < t.start)
    (balanced : Balanced xs) : r.inList? s position = none := by
  have none_open := openParens_followedBy vs [] (focusesFrom ws.reverse xs)
  rw [balanced.openParens_eq, List.map_nil] at none_open
  unfold Reading.inList?
  rw [h.within outside inside, none_open]
  rfl

end Cut

end Typeahead.Metrics
