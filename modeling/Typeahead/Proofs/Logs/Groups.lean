import Typeahead.Logs.Reading
import Typeahead.Proofs.Token.Partners
import Typeahead.Proofs.Token.Tiled

/-!
The group of a logs line that is open at a position. The tokens in front of the position go through a stack: an opening
parenthesis is put on it, and a closing one takes the last one off, if there is any. Behind them the stack holds those
that nothing closes, in a line whose parentheses need not nest.

- `openGroups_focusesFrom`: what the stack holds behind some tokens.
- `OpenAt`, `openGroup?_eq_some_iff`, `openGroup?_eq_none_iff`: the last group that is open, if any is.
- `closedBy_iff_openGroup?`: a closing parenthesis closes the group that is open where it stands.
-/

namespace Typeahead.Logs

/-- The tokens that start before a position. -/
def startedBy (position : Nat) (ts : List Token) : List Token := ts.filter fun t => t.start < position

section

variable {position : Nat} {t : Token} {ts inner rest : List Token}

theorem startedBy_eq_self (started : ∀ u ∈ ts, u.start < position) : startedBy position ts = ts :=
  List.filter_eq_self.2 fun u mem => decide_eq_true (started u mem)

theorem startedBy_eq_nil (ahead : ∀ u ∈ ts, position ≤ u.start) : startedBy position ts = [] :=
  List.filter_eq_nil_iff.2 fun u mem => by simpa using ahead u mem

theorem startedBy_append (ts us : List Token) :
    startedBy position (ts ++ us) = startedBy position ts ++ startedBy position us :=
  List.filter_append ..

theorem startedBy_cons_of_lt (started : t.start < position) :
    startedBy position (t :: ts) = t :: startedBy position ts :=
  List.filter_cons_of_pos (decide_eq_true started)

theorem startedBy_cons_of_le (ahead : position ≤ t.start) : startedBy position (t :: ts) = startedBy position ts :=
  List.filter_cons_of_neg (by simpa using ahead)

/-- The tokens that have started stand in front of the others. -/
theorem startedBy_prefix (ordered : ts.Pairwise fun t u => t.start < u.start) : startedBy position ts <+: ts := by
  induction ts with
  | nil => exact List.prefix_refl []
  | cons t ts ih =>
    obtain ⟨behind, later⟩ := List.pairwise_cons.1 ordered
    by_cases started : t.start < position
    · rw [startedBy_cons_of_lt started]
      exact List.cons_prefix_cons.2 ⟨rfl, ih later⟩
    · have ahead : ∀ u ∈ t :: ts, position ≤ u.start := by
        refine List.forall_mem_cons.2 ⟨Nat.le_of_not_lt started, fun u mem => ?_⟩
        have beyond := behind u mem
        omega
      rw [startedBy_eq_nil ahead]
      exact List.nil_prefix

/-- Where a token starts, those in front of it have started, and no others. -/
theorem startedBy_start (ordered : (inner ++ t :: rest).Pairwise fun t u => t.start < u.start) :
    startedBy t.start (inner ++ t :: rest) = inner := by
  obtain ⟨-, later, across⟩ := List.pairwise_append.1 ordered
  have before : ∀ u ∈ inner, u.start < t.start := fun u mem => across u mem t List.mem_cons_self
  have behind : ∀ u ∈ t :: rest, t.start ≤ u.start :=
    List.forall_mem_cons.2 ⟨Nat.le_refl _, fun u mem => Nat.le_of_lt ((List.pairwise_cons.1 later).1 u mem)⟩
  rw [startedBy_append, startedBy_eq_self before, startedBy_eq_nil behind, List.append_nil]

end

/-! ### The stack -/

/-- Whether a token opens a group before a position that the tokens between them leave open. -/
def staysOpen (position : Nat) (f : Focus) : Bool :=
  f.token.start < position && f.token.kind = .openParen &&
    strays .openParen .closeParen ((startedBy position f.after).map (·.kind)) = 0

section

variable {position : Nat} {f : Focus} {ts : List Token}

theorem staysOpen_iff_strays : staysOpen position f = true ↔ f.token.start < position ∧ f.token.kind = .openParen ∧
    strays .openParen .closeParen ((startedBy position f.after).map (·.kind)) = 0 := by
  simp only [staysOpen, Bool.and_eq_true, decide_eq_true_eq, and_assoc]

/-- What the stack holds behind some tokens: on top those of them that stay open, the last one first, and below what it
held in front of them, but for one for each stray. The induction is on the tokens, as the stack reads them. -/
theorem openGroups_focusesFrom (opened : List Focus) (before : List Token) :
    openGroups opened ((focusesFrom before ts).filter fun f => f.token.start < position) =
      ((focusesFrom before ts).filter (staysOpen position)).reverse ++
        opened.drop (strays .openParen .closeParen ((startedBy position ts).map (·.kind))) := by
  induction ts generalizing opened before with
  | nil => rfl
  | cons t ts ih =>
    rw [focusesFrom, List.filter_cons, List.filter_cons]
    by_cases ahead : position ≤ t.start
    · have closed : staysOpen position ⟨before, t, ts⟩ = false := by simp [staysOpen, ahead]
      rw [if_neg (by simpa using ahead), if_neg (by simp [closed]), ih, startedBy_cons_of_le ahead]
    have started := Nat.lt_of_not_le ahead
    rw [if_pos (decide_eq_true started), startedBy_cons_of_lt started, List.map_cons, openGroups]
    by_cases opens : t.kind = .openParen
    · have stays : staysOpen position ⟨before, t, ts⟩ = true ↔
          strays .openParen .closeParen ((startedBy position ts).map (·.kind)) = 0 := by
        rw [staysOpen_iff_strays, and_iff_right started, and_iff_right opens]
      simp only [opens]
      rw [ih, strays_cons_left]
      -- the first stray behind the token takes it off, and it is missing among those that go deeper
      by_cases noStray : strays .openParen .closeParen ((startedBy position ts).map (·.kind)) = 0
      · rw [if_pos (stays.2 noStray), List.reverse_cons, List.append_assoc, noStray]
        rfl
      · obtain ⟨deeper, count⟩ := Nat.exists_eq_succ_of_ne_zero noStray
        rw [if_neg (mt stays.1 noStray), count]
        rfl
    have closed : staysOpen position ⟨before, t, ts⟩ = false := by simp [staysOpen, opens]
    rw [if_neg (by simp [closed])]
    by_cases closes : t.kind = .closeParen
    · simp only [closes]
      rw [ih, strays_cons_right (by decide), List.drop_tail]
    · rw [strays_cons_other opens closes, ← ih]
      split
      · next opening => exact absurd opening opens
      · next closing => exact absurd closing closes
      · rfl

theorem openGroup?_eq (r : Reading) (position : Nat) :
    r.openGroup? position = (focuses r.tokens).reverse.find? (staysOpen position) := by
  rw [Reading.openGroup?, focuses, openGroups_focusesFrom, List.drop_nil, List.append_nil, ← List.filter_reverse,
    List.head?_filter]

/-- The group that is found is the last one that stays open. -/
theorem openGroup?_eq_some_iff_staysOpen {r : Reading} : r.openGroup? position = some f ↔
    ∃ passed later, focuses r.tokens = passed ++ f :: later ∧ staysOpen position f = true ∧
      ∀ g ∈ later, staysOpen position g = false := by
  rw [openGroup?_eq, List.find?_eq_some_iff_append]
  simp only [Bool.not_eq_true']
  constructor
  · rintro ⟨stays, later, passed, split, others⟩
    have whole : focuses r.tokens = passed.reverse ++ f :: later.reverse := by
      simpa using congrArg List.reverse split
    exact ⟨passed.reverse, later.reverse, whole, stays, fun g mem => others g (List.mem_reverse.1 mem)⟩
  · rintro ⟨passed, later, whole, stays, others⟩
    exact ⟨stays, later.reverse, passed.reverse, by simp [whole], fun g mem => others g (List.mem_reverse.1 mem)⟩

end

/-! ### The cursor -/

/-- A group is open at a position: its parenthesis opens in front of it, and none in front of it closes that. -/
structure OpenAt (position : Nat) (f : Focus) : Prop where
  opens : f.token.kind = .openParen
  before : f.token.start < position
  unclosed : ∀ t, ClosedBy .openParen .closeParen f t → position ≤ t.start

/-- The last group of a line that is open at a position. -/
def LastOpen (ts : List Token) (position : Nat) (f : Focus) : Prop :=
  ∃ passed later, focuses ts = passed ++ f :: later ∧ OpenAt position f ∧ ∀ g ∈ later, ¬OpenAt position g

section

variable {line : Text} {position : Nat} {f : Focus} {t : Token} {inner rest : List Token}

theorem pairwise_after {marks : Marks} (mem : f ∈ focuses (tokens marks line)) :
    (f.token :: f.after).Pairwise fun t u => t.start < u.start := by
  obtain ⟨passed, same, -⟩ := mem_focusesFrom mem
  have ordered := pairwise_tokens marks line
  rw [same] at ordered
  exact (List.pairwise_append.1 ordered).2.1

/-- What stays open on the stack is open at the position. -/
theorem staysOpen_iff (mem : f ∈ focuses (tokens logsMarks line)) :
    staysOpen position f = true ↔ OpenAt position f := by
  have apart : TokenKind.openParen ≠ .closeParen := by decide
  have ordered := (List.pairwise_cons.1 (pairwise_after mem)).2
  rw [staysOpen_iff_strays, ← Nat.le_zero, ← covered_iff_strays_le apart, ← stray?_eq_none_iff apart]
  constructor
  · rintro ⟨before, opens, unstopped⟩
    refine ⟨opens, before, fun t closed => ?_⟩
    by_contra ahead
    obtain ⟨inner, rest, split, nests, -⟩ := closed.between
    rw [split] at ordered unstopped
    have started : ∀ u ∈ inner, u.start < position := by
      intro u mem
      have before := (List.pairwise_append.1 ordered).2.2 u mem t List.mem_cons_self
      omega
    rw [startedBy_append, startedBy_eq_self started, startedBy_cons_of_lt (Nat.lt_of_not_le ahead)] at unstopped
    have found := (stray?_eq_some_iff apart).2
      ⟨inner, startedBy position rest, rfl, closed.closes, (nests_iff apart).1 nests⟩
    cases unstopped.symm.trans found
  · intro opened
    refine ⟨opened.before, opened.opens, ?_⟩
    apply Option.eq_none_iff_forall_ne_some.2
    intro t found
    obtain ⟨front, rest, split, -⟩ := (stray?_eq_some_iff apart).1 found
    obtain ⟨vs, whole⟩ : startedBy position f.after <+: f.after := startedBy_prefix ordered
    have closed : ClosedBy .openParen .closeParen f t := by
      rw [closedBy_iff apart opened.opens, ← whole]
      exact stray?_append apart vs found
    have there : t ∈ startedBy position f.after := by simp [split]
    have started := of_decide_eq_true (List.mem_filter.1 there).2
    exact absurd (opened.unclosed t closed) (Nat.not_le_of_lt started)

/-- The group that is found at a position is the last one that is open there, -/
theorem openGroup?_eq_some_iff :
    (Reading.of line).openGroup? position = some f ↔ LastOpen (Reading.of line).tokens position f := by
  rw [openGroup?_eq_some_iff_staysOpen, LastOpen]
  apply exists_congr
  intro passed
  apply exists_congr
  intro later
  apply and_congr_right
  intro split
  have mem : ∀ g ∈ f :: later, g ∈ focuses (tokens logsMarks line) := by
    intro g among
    have there := List.mem_append_right passed among
    rwa [← split] at there
  apply and_congr (staysOpen_iff (mem f List.mem_cons_self))
  apply forall₂_congr
  intro g among
  rw [← staysOpen_iff (mem g (List.mem_cons_of_mem f among)), Bool.not_eq_true]

/-- and none is found if and only if none is open. -/
theorem openGroup?_eq_none_iff : (Reading.of line).openGroup? position = none ↔
    ∀ f ∈ focuses (Reading.of line).tokens, ¬OpenAt position f := by
  rw [openGroup?_eq, List.find?_eq_none]
  simp only [List.mem_reverse]
  apply forall₂_congr
  intro f mem
  exact not_congr (staysOpen_iff mem)

/-- The marks in front of a token nest if and only if none of them is a stray and none stays open there. -/
theorem nests_iff_closed {before : List Token}
    (ordered : (inner ++ t :: rest).Pairwise fun t u => t.start < u.start) :
    Nests .openParen .closeParen (inner.map (·.kind)) ↔ strays .openParen .closeParen (inner.map (·.kind)) = 0 ∧
      ∀ g ∈ focusesFrom before (inner ++ t :: rest), staysOpen t.start g = false := by
  rw [nests_iff_strays (by decide)]
  apply and_congr_right'
  constructor
  · intro closed g mem
    rw [← Bool.not_eq_true]
    intro stays
    obtain ⟨started, opens, noStray⟩ := staysOpen_iff_strays.1 stays
    obtain ⟨passed, split, -⟩ := mem_focusesFrom mem
    have same := startedBy_start ordered
    rw [split, startedBy_append, startedBy_cons_of_lt started] at same
    apply closed ((startedBy t.start passed).map (·.kind)) _ _ noStray
    rw [← same, List.map_append, List.map_cons, opens]
  · intro closed front back split noStray
    obtain ⟨passed, behind, rfl, rfl, same⟩ := List.map_eq_append_iff.1 split
    obtain ⟨u, later, rfl, opens, rfl⟩ := List.map_eq_cons_iff.1 same
    have whole : passed ++ u :: later ++ t :: rest = passed ++ u :: (later ++ t :: rest) := by simp
    rw [whole] at ordered closed
    obtain ⟨first, others⟩ := List.pairwise_cons.1 (List.pairwise_append.1 ordered).2.1
    have stays : staysOpen t.start ⟨passed.reverse ++ before, u, later ++ t :: rest⟩ = true := by
      rw [staysOpen_iff_strays, startedBy_start others]
      exact ⟨first t (by simp), opens, noStray⟩
    have among : ⟨passed.reverse ++ before, u, later ++ t :: rest⟩ ∈
        focusesFrom before (passed ++ u :: (later ++ t :: rest)) := by
      simp [focusesFrom_append, focusesFrom]
    cases stays.symm.trans (closed _ among)

/-- A closing parenthesis closes the group that is open where it stands, and no other. -/
theorem closedBy_iff_openGroup? (mem : f ∈ focuses (Reading.of line).tokens) (among : t ∈ (Reading.of line).tokens)
    (closes : t.kind = .closeParen) :
    ClosedBy .openParen .closeParen f t ↔ (Reading.of line).openGroup? t.start = some f := by
  have apart : TokenKind.openParen ≠ .closeParen := by decide
  obtain ⟨first, ordered⟩ := List.pairwise_cons.1 (pairwise_after mem)
  rw [openGroup?_eq_some_iff_staysOpen]
  constructor
  · intro closed
    obtain ⟨inner, rest, behind, nests, -⟩ := closed.between
    rw [behind] at first ordered
    obtain ⟨noStray, others⟩ := (nests_iff_closed ordered).1 nests
    obtain ⟨passed, later, split⟩ := List.append_of_mem mem
    refine ⟨passed, later, split, ?_, ?_⟩
    · rw [staysOpen_iff_strays, behind, startedBy_start ordered]
      exact ⟨first t (by simp), closed.opens, noStray⟩
    · rw [focusesFrom_eq_append split, behind]
      exact others
  · rintro ⟨passed, later, split, stays, others⟩
    obtain ⟨started, opens, noStray⟩ := staysOpen_iff_strays.1 stays
    obtain ⟨inner, rest, behind⟩ := List.append_of_mem (mem_after_of_start_lt mem among started)
    rw [focusesFrom_eq_append split, behind] at others
    rw [behind] at ordered noStray
    rw [startedBy_start ordered] at noStray
    have nests := (nests_iff_closed ordered).2 ⟨noStray, others⟩
    apply (closedBy_iff apart opens).2
    apply (stray?_eq_some_iff apart).2
    exact ⟨inner, rest, behind, closes, (nests_iff apart).1 nests⟩

end

end Typeahead.Logs
