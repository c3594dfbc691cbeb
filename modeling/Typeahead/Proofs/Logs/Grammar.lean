import Typeahead.Logs.Check

/-!
Which logs queries the check lets pass: those that a grammar of operands, operators and groups derives. The check
counts open parentheses and looks at the neighbours of each operator; the grammar nests.

- `parenFault?_eq_none_iff`, `operatorFault?_eq_none_iff`: what the two tests say of the signs of a query.
- `Derives.balances`, `Derives.stands`: what is derived passes both.
- `derives_of_stands`: what passes both is derived.
- `errors_eq_nil_iff_derives`: the check and the grammar agree.
-/

namespace Typeahead.Logs

/-- What a token that is not blank counts as in a boolean expression. -/
inductive Sign where
  | operand
  | joiner
  | negation
  | opening
  | closing
  deriving DecidableEq, Repr

/-- The phrases of a boolean expression: a sequence, an item of it, and an item without its negation. -/
inductive Phrase where
  | seq
  | item
  | prim
  deriving DecidableEq, Repr

open Sign Phrase

/-- The boolean expressions: items side by side or joined by an operator, each of them negated or not, and each an
operand or a group. A group may be empty. -/
inductive Derives : Phrase → List Sign → Prop where
  | single {s : List Sign} : Derives item s → Derives seq s
  | beside {s t : List Sign} : Derives seq s → Derives item t → Derives seq (s ++ t)
  | joined {s t : List Sign} : Derives seq s → Derives item t → Derives seq (s ++ joiner :: t)
  | plain {s : List Sign} : Derives prim s → Derives item s
  | negated {s : List Sign} : Derives prim s → Derives item (negation :: s)
  | operand : Derives prim [operand]
  | emptyGroup : Derives prim [opening, closing]
  | group {s : List Sign} : Derives seq s → Derives prim (opening :: (s ++ [closing]))

/-- The sign of an operator. -/
def Operator.sign : Operator → Sign
  | .not => negation
  | _ => joiner

/-- The sign of a token. -/
def signOf (t : Token) : Sign :=
  match t.kind with
  | .openParen => opening
  | .closeParen => closing
  | _ => ((operator? t).map Operator.sign).getD operand

/-- The signs of the tokens that are not blank. -/
def signs (ts : List Token) : List Sign := (ts.filter (·.kind ≠ .blank)).map signOf

/-- The tokens that the check reads of a query. -/
def checkedTokens (query : Text) : List Token := (Reading.of (Text.strip query.mask)).tokens

/-- Whether each group that is closed was opened, and each group that is opened is closed. -/
def Balances : Nat → List Sign → Prop
  | depth, [] => depth = 0
  | depth, opening :: rest => Balances (depth + 1) rest
  | 0, closing :: _ => False
  | depth + 1, closing :: rest => Balances depth rest
  | depth, _ :: rest => Balances depth rest

/-- Whether a sign may stand where it stands: a joining operator needs something on its left, where `joinable` says
that something is there, and an operator needs something on its right that is not joined to it. -/
def MayStand (joinable : Bool) : Sign → Option Sign → Prop
  | negation, next? => next? = some operand ∨ next? = some opening
  | joiner, next? => joinable = true ∧ (next? = some operand ∨ next? = some opening ∨ next? = some negation)
  | _, _ => True

/-- Whether each sign may stand where it stands. -/
def Stands : Bool → List Sign → Prop
  | _, [] => True
  | joinable, s :: rest => MayStand joinable s rest.head? ∧ Stands (s ≠ opening) rest

/-! ### The two tests of the check -/

theorem signs_cons_of_blank {t : Token} (blank : t.kind = .blank) (ts : List Token) : signs (t :: ts) = signs ts := by
  simp [signs, blank]

theorem signs_cons {t : Token} (unblank : t.kind ≠ .blank) (ts : List Token) :
    signs (t :: ts) = signOf t :: signs ts := by
  simp [signs, unblank]

/-- A token that is no parenthesis is an operator or an operand. -/
theorem signOf_of_flat {t : Token} (unopened : t.kind ≠ .openParen) (unclosed : t.kind ≠ .closeParen) :
    signOf t = ((operator? t).map Operator.sign).getD operand := by
  unfold signOf
  split <;> simp_all

theorem signOf_operator? {t : Token} {o : Operator} (found : operator? t = some o) : signOf t = o.sign := by
  have word : t.kind = .word := (Option.ite_none_right_eq_some.1 found).1
  rw [signOf_of_flat (by simp [word]) (by simp [word]), found]
  rfl

theorem Operator.sign_flat (o : Operator) : o.sign ≠ opening ∧ o.sign ≠ closing := by
  cases o <;> simp [Operator.sign]

theorem signOf_flat {t : Token} (unopened : t.kind ≠ .openParen) (unclosed : t.kind ≠ .closeParen) :
    signOf t ≠ opening ∧ signOf t ≠ closing := by
  rw [signOf_of_flat unopened unclosed]
  cases operator? t with
  | none => simp
  | some o => exact o.sign_flat

theorem signOf_eq_opening_iff (t : Token) : signOf t = opening ↔ t.kind = .openParen := by
  constructor
  · intro sign
    by_cases unopened : t.kind = .openParen
    · exact unopened
    by_cases unclosed : t.kind = .closeParen
    · simp [signOf, unclosed] at sign
    exact absurd sign (signOf_flat unopened unclosed).1
  · intro kind
    simp [signOf, kind]

theorem signOf_eq_closing_iff (t : Token) : signOf t = closing ↔ t.kind = .closeParen := by
  constructor
  · intro sign
    by_cases unclosed : t.kind = .closeParen
    · exact unclosed
    by_cases unopened : t.kind = .openParen
    · simp [signOf, unopened] at sign
    exact absurd sign (signOf_flat unopened unclosed).2
  · intro kind
    simp [signOf, kind]

theorem balances_cons_of_flat {s : Sign} (flat : s ≠ opening ∧ s ≠ closing) (depth : Nat) (rest : List Sign) :
    Balances depth (s :: rest) ↔ Balances depth rest := by
  obtain ⟨unopened, unclosed⟩ := flat
  cases s with
  | opening => exact absurd rfl unopened
  | closing => exact absurd rfl unclosed
  | operand | joiner | negation => rw [Balances]; all_goals simp

/-- The parentheses of a query match if its signs balance. -/
theorem parenFault?_eq_none_iff (depth : Nat) (ts : List Token) :
    parenFault? depth ts = none ↔ Balances depth (signs ts) := by
  induction ts generalizing depth with
  | nil => simp [parenFault?, signs, Balances]
  | cons t ts ih =>
    by_cases opened : t.kind = .openParen
    · simp [parenFault?, signs_cons, signOf, opened, Balances, ih]
    by_cases closed : t.kind = .closeParen
    · cases depth <;> simp [parenFault?, signs_cons, signOf, closed, Balances, ih]
    have passed : parenFault? depth (t :: ts) = parenFault? depth ts := by
      rw [parenFault?.eq_def]
      split <;> simp_all
    rw [passed, ih]
    by_cases blank : t.kind = .blank
    · rw [signs_cons_of_blank blank]
    · rw [signs_cons blank, balances_cons_of_flat (signOf_flat opened closed)]

/-- A joining operator has something on its left unless it begins the query or a group. -/
theorem lacksLeft_eq_none_iff (o : Operator) (preceding? : Option Token) :
    operatorFault.lacksLeft o preceding? = none ↔
      o = .not ∨ preceding?.any (signOf · ≠ opening) = true := by
  unfold operatorFault.lacksLeft
  cases preceding? <;> cases o <;> simp [signOf_eq_opening_iff]

/-- An operator has no fault if it may stand between its neighbours. -/
theorem operatorFault_eq_none_iff (o : Operator) (preceding? following? : Option Token) :
    operatorFault o preceding? following? = none ↔
      MayStand (preceding?.any (signOf · ≠ opening)) o.sign (following?.map signOf) := by
  unfold operatorFault
  cases following? with
  | none => cases o <;> simp [MayStand, Operator.sign]
  | some n =>
    cases found : operator? n with
    | some second =>
      have sign := signOf_operator? found
      cases o <;> cases second <;> simp [found, sign, MayStand, Operator.sign, lacksLeft_eq_none_iff]
    | none =>
      by_cases closed : n.kind = .closeParen
      · have sign := (signOf_eq_closing_iff n).2 closed
        cases o <;> simp [found, sign, closed, MayStand, Operator.sign]
      · have sign : signOf n = operand ∨ signOf n = opening := by
          by_cases opened : n.kind = .openParen
          · exact .inr ((signOf_eq_opening_iff n).2 opened)
          · exact .inl (by rw [signOf_of_flat opened closed, found]; rfl)
        cases o <;> rcases sign with sign | sign <;>
          simp [found, sign, closed, MayStand, Operator.sign, lacksLeft_eq_none_iff]

theorem seekLeft_eq_find? (after before : List Token) :
    (Focus.seekLeft after before).map (·.token) = before.find? (·.kind ≠ .blank) := by
  induction before generalizing after with
  | nil => rfl
  | cons t before ih =>
    by_cases blank : t.kind = .blank <;> simp [Focus.seekLeft, blank, ih]

theorem seekRight_eq_find? (before after : List Token) :
    (Focus.seekRight before after).map (·.token) = after.find? (·.kind ≠ .blank) := by
  induction after generalizing before with
  | nil => rfl
  | cons t after ih =>
    by_cases blank : t.kind = .blank <;> simp [Focus.seekRight, blank, ih]

theorem head?_signs (ts : List Token) : (signs ts).head? = (ts.find? (·.kind ≠ .blank)).map signOf := by
  rw [signs, List.head?_map, List.head?_filter]

theorem mayStand_of_operand {joinable : Bool} {s : Sign} {next? : Option Sign} (other : s ≠ joiner ∧ s ≠ negation) :
    MayStand joinable s next? := by
  cases s <;> simp_all [MayStand]

/-- No operator of a query has a fault if each of its signs may stand where it stands. -/
theorem operatorFault?_eq_none_iff (ts : List Token) : operatorFault? ts = none ↔ Stands false (signs ts) := by
  -- in the induction `before` stands left of `ts`
  suffices general : ∀ before : List Token,
      ((focusesFrom before ts).findSome? fun f => (operator? f.token).bind fun operator =>
        operatorFault operator (f.preceding?.map (·.token)) (f.following?.map (·.token))) = none ↔
      Stands ((before.find? (·.kind ≠ .blank)).any (signOf · ≠ opening)) (signs ts) from general []
  induction ts with
  | nil => simp [focusesFrom, signs, Stands]
  | cons t ts ih =>
    intro before
    have passed : ((focusesFrom (t :: before) ts).findSome? fun f => (operator? f.token).bind fun operator =>
        operatorFault operator (f.preceding?.map (·.token)) (f.following?.map (·.token))) = none ↔
        Stands (((t :: before).find? (·.kind ≠ .blank)).any (signOf · ≠ opening)) (signs ts) := ih (t :: before)
    rw [focusesFrom, List.findSome?_cons]
    by_cases blank : t.kind = .blank
    · have free : operator? t = none := by simp [operator?, blank]
      rw [signs_cons_of_blank blank]
      simpa [free, blank] using passed
    rw [signs_cons blank, Stands]
    cases found : operator? t with
    | none =>
      have sign : signOf t ≠ joiner ∧ signOf t ≠ negation := by
        unfold signOf
        split <;> simp [found]
      simpa [found, blank, mayStand_of_operand sign] using passed
    | some o =>
      have own := operatorFault_eq_none_iff o (before.find? (·.kind ≠ .blank)) (ts.find? (·.kind ≠ .blank))
      have here : (t :: before).find? (·.kind ≠ .blank) = some t := by simp [blank]
      rw [here, Option.any_some, signOf_operator? found] at passed
      rw [signOf_operator? found, head?_signs, ← own, ← passed]
      simp only [Focus.preceding?, Focus.following?, seekLeft_eq_find?, seekRight_eq_find?, Option.bind_some]
      cases operatorFault o (before.find? (·.kind ≠ .blank)) (ts.find? (·.kind ≠ .blank)) <;> simp

/-! ### What is derived passes -/

theorem Derives.balances {phrase : Phrase} {s : List Sign} (h : Derives phrase s) (depth : Nat) (rest : List Sign) :
    Balances depth (s ++ rest) ↔ Balances depth rest := by
  induction h generalizing depth rest with
  | single _ ih | plain _ ih => exact ih depth rest
  | beside _ _ ihs iht => rw [List.append_assoc, ihs, iht]
  | joined _ _ ihs iht => rw [List.append_assoc, List.cons_append, ihs, balances_cons_of_flat (by simp), iht]
  | negated _ ih => rw [List.cons_append, balances_cons_of_flat (by simp), ih]
  | operand => exact balances_cons_of_flat (by simp) depth rest
  | emptyGroup => rfl
  | group _ ih =>
    rw [List.cons_append, List.append_assoc, Balances, ih]
    rfl

/-- A sequence and an item begin with an operand, a group or a negation, and an item without its negation not with
a negation. -/
theorem Derives.begins {phrase : Phrase} {s : List Sign} (h : Derives phrase s) : s.head? = some .operand ∨
    s.head? = some opening ∨ (phrase ≠ prim ∧ s.head? = some negation) := by
  induction h with
  | single _ ih => simpa using ih
  | beside _ _ ihs _ | joined _ _ ihs _ =>
    rw [List.head?_append]
    rcases ihs with same | same | ⟨-, same⟩ <;> simp [same]
  | plain _ ih =>
    rcases ih with same | same | ⟨no, -⟩
    · exact .inl same
    · exact .inr (.inl same)
    · exact absurd rfl no
  | negated _ _ => simp
  | operand | emptyGroup | group _ _ => simp

theorem head?_append_of_begins {s rest : List Sign} {c : Sign} (same : s.head? = some c) :
    (s ++ rest).head? = some c := by
  rw [List.head?_append, same]
  rfl

/-- What follows a derived part stands as behind an operand. -/
theorem Derives.stands {phrase : Phrase} {s : List Sign} (h : Derives phrase s) (joinable : Bool) (rest : List Sign) :
    Stands joinable (s ++ rest) ↔ Stands true rest := by
  induction h generalizing joinable rest with
  | single _ ih | plain _ ih => exact ih joinable rest
  | beside _ _ ihs iht => rw [List.append_assoc, ihs, iht]
  | @joined s t _ derived ihs iht =>
    have next : MayStand true joiner (t ++ rest).head? := by
      rcases derived.begins with same | same | ⟨-, same⟩ <;> simp [MayStand, head?_append_of_begins same]
    rw [List.append_assoc, List.cons_append, ihs, Stands, iht, and_iff_right next]
  | @negated s derived ih =>
    have next : MayStand joinable negation (s ++ rest).head? := by
      rcases derived.begins with same | same | ⟨no, -⟩
      · simp [MayStand, head?_append_of_begins same]
      · simp [MayStand, head?_append_of_begins same]
      · exact absurd rfl no
    rw [List.cons_append, Stands, ih, and_iff_right next]
  | operand => simp [Stands, MayStand]
  | emptyGroup => simp [Stands, MayStand]
  | group _ ih =>
    rw [List.cons_append, List.append_assoc, Stands, ih]
    simp [Stands, MayStand]

/-! ### What passes is derived -/

/-- What closes a group that is open, what stands in the group, and what stands behind it. The induction is on the
signs, with `inside` more groups open. -/
theorem split_of_balances (inside depth : Nat) {s : List Sign} (h : Balances (inside + depth + 1) s) :
    ∃ inner rest, s = inner ++ closing :: rest ∧ Balances inside inner ∧ Balances depth rest := by
  induction s generalizing inside with
  | nil => cases h
  | cons c s ih =>
    by_cases flat : c ≠ opening ∧ c ≠ closing
    · obtain ⟨inner, rest, rfl, balanced, later⟩ := ih inside ((balances_cons_of_flat flat _ _).1 h)
      exact ⟨c :: inner, rest, rfl, (balances_cons_of_flat flat _ _).2 balanced, later⟩
    by_cases opens : c = opening
    · subst opens
      have deeper : Balances (inside + 1 + depth + 1) s := by
        have same : inside + 1 + depth + 1 = inside + depth + 1 + 1 := by omega
        rw [same]
        exact h
      obtain ⟨inner, rest, rfl, balanced, later⟩ := ih (inside + 1) deeper
      exact ⟨opening :: inner, rest, rfl, balanced, later⟩
    obtain rfl : c = closing := by
      by_cases closes : c = closing
      · exact closes
      · exact absurd ⟨opens, closes⟩ flat
    cases inside with
    | zero => exact ⟨[], s, rfl, rfl, (Nat.zero_add depth) ▸ h⟩
    | succ inside =>
      have shallower : Balances (inside + depth + 1) s := by
        have same : inside + depth + 1 = inside + 1 + depth := by omega
        rw [same]
        exact h
      obtain ⟨inner, rest, rfl, balanced, later⟩ := ih inside shallower
      exact ⟨closing :: inner, rest, rfl, balanced, later⟩

/-- Nothing may be joined to the closing of a group, just as nothing to the end of a query. -/
theorem mayStand_closing {joinable : Bool} {s : Sign} :
    MayStand joinable s (some closing) ↔ MayStand joinable s none := by
  cases s <;> simp [MayStand]

theorem stands_append_closing (joinable : Bool) (inner rest : List Sign) :
    Stands joinable (inner ++ closing :: rest) ↔ Stands joinable inner ∧ Stands true rest := by
  induction inner generalizing joinable with
  | nil => simp [Stands, MayStand]
  | cons c inner ih =>
    have next : MayStand joinable c (inner ++ closing :: rest).head? ↔ MayStand joinable c inner.head? := by
      cases inner with
      | nil => exact mayStand_closing
      | cons => rfl
    rw [List.cons_append, Stands, Stands, next, ih, and_assoc]

/-- Signs that do not begin with a joining operator stand at the beginning as they stand behind an operand. -/
theorem stands_of_head? {s : List Sign} (stands : Stands true s) (free : s.head? ≠ some joiner) : Stands false s := by
  cases s with
  | nil => trivial
  | cons c s =>
    refine ⟨?_, stands.2⟩
    cases c with
    | joiner => exact absurd rfl free
    | operand | negation | opening | closing => exact stands.1

section

/-- All that balances and stands is derived, if it is shorter than `bound`. -/
abbrev DerivedBelow (bound : Nat) : Prop :=
  ∀ s : List Sign, s.length < bound → Balances 0 s → Stands false s → s = [] ∨ Derives seq s

/-- What is left of a query behind a part of it. -/
structure Rest (s rest : List Sign) : Prop where
  shorter : rest.length < s.length
  balances : Balances 0 rest
  stands : Stands true rest

theorem Rest.within {s rest : List Sign} (h : Rest s rest) {bound : Nat} (within : s.length ≤ bound) :
    rest.length ≤ bound :=
  Nat.le_trans (Nat.le_of_lt h.shorter) within

variable {bound : Nat} (below : DerivedBelow bound) {s : List Sign} (within : s.length ≤ bound)
  (balances : Balances 0 s)

include below within balances

/-- What begins with an operand or a group begins with an item that is not negated. -/
theorem exists_prim {joinable : Bool} (stands : Stands joinable s)
    (begins : s.head? = some operand ∨ s.head? = some opening) :
    ∃ front rest, s = front ++ rest ∧ Derives prim front ∧ Rest s rest := by
  rcases s with _ | ⟨c, s⟩
  · simp at begins
  have first : c = operand ∨ c = opening := by simpa using begins
  rcases first with rfl | rfl
  · exact ⟨[operand], s, rfl, .operand, Nat.lt_succ_self _, balances, stands.2⟩
  · have opened : Balances 1 s := balances
    obtain ⟨inner, rest, rfl, balanced, later⟩ := split_of_balances 0 0 opened
    obtain ⟨inside, behind⟩ := (stands_append_closing _ inner rest).1 stands.2
    have derived : Derives prim (opening :: (inner ++ [closing])) := by
      have shorter : inner.length < bound := by
        simp only [List.length_cons, List.length_append] at within
        omega
      rcases below inner shorter balanced inside with rfl | derived
      · exact .emptyGroup
      · exact .group derived
    refine ⟨opening :: (inner ++ [closing]), rest, by simp, derived, ?_, later, behind⟩
    simp only [List.length_cons, List.length_append]
    omega

/-- What does not begin with a joining operator begins with an item. -/
theorem exists_item (filled : s ≠ []) (stands : Stands false s) :
    ∃ front rest, s = front ++ rest ∧ Derives item front ∧ Rest s rest := by
  obtain ⟨c, s, rfl⟩ := List.exists_cons_of_ne_nil filled
  cases c with
  | operand | opening =>
    obtain ⟨front, rest, same, derived, behind⟩ := exists_prim below within balances stands (by simp)
    exact ⟨front, rest, same, .plain derived, behind⟩
  | joiner => exact absurd stands.1.1 Bool.false_ne_true
  | closing => exact balances.elim
  | negation =>
    have shorter : s.length ≤ bound := Nat.le_of_succ_le within
    have balanced : Balances 0 s := (balances_cons_of_flat (by simp) _ _).1 balances
    obtain ⟨front, rest, rfl, derived, behind⟩ := exists_prim below shorter balanced stands.2 stands.1
    exact ⟨negation :: front, rest, rfl, .negated derived, Nat.lt_succ_of_lt behind.shorter, behind.balances,
      behind.stands⟩

end

/-- A sequence goes on with all that balances and stands behind it. -/
theorem Derives.extend {bound : Nat} (below : DerivedBelow bound) {front s : List Sign} (h : Derives seq front)
    (within : s.length ≤ bound) (balances : Balances 0 s) (stands : Stands true s) : Derives seq (front ++ s) := by
  induction size : s.length using Nat.strongRecOn generalizing front s with
  | _ size ih =>
    subst size
    rcases s with _ | ⟨c, s⟩
    · rwa [List.append_nil]
    by_cases joins : c = joiner
    · subst joins
      obtain ⟨⟨-, next⟩, later⟩ := stands
      have free : s.head? ≠ some joiner := by
        rcases next with same | same | same <;> simp [same]
      have filled : s ≠ [] := by
        rintro rfl
        simp at next
      have shorter : s.length ≤ bound := Nat.le_of_succ_le within
      have balanced : Balances 0 s := (balances_cons_of_flat (by simp) _ _).1 balances
      obtain ⟨t, rest, rfl, derived, behind⟩ :=
        exists_item below shorter balanced filled (stands_of_head? later free)
      have longer := h.joined derived
      have lasts := ih rest.length (Nat.lt_succ_of_lt behind.shorter) longer
        (behind.within shorter) behind.balances behind.stands rfl
      rwa [List.append_assoc, List.cons_append] at lasts
    · have free : (c :: s).head? ≠ some joiner := by simpa using joins
      obtain ⟨t, rest, same, derived, behind⟩ :=
        exists_item below within balances (List.cons_ne_nil c s) (stands_of_head? stands free)
      have lasts := ih rest.length behind.shorter (h.beside derived) (behind.within within)
        behind.balances behind.stands rfl
      rwa [List.append_assoc, ← same] at lasts

/-- What balances and stands is derived. -/
theorem derives_of_stands (bound : Nat) : DerivedBelow bound := by
  induction bound with
  | zero => exact fun s short => absurd short (Nat.not_lt_zero _)
  | succ bound ih =>
    intro s short balances stands
    have within : s.length ≤ bound := Nat.le_of_lt_succ short
    by_cases empty : s = []
    · exact .inl empty
    obtain ⟨front, rest, rfl, derived, behind⟩ := exists_item ih within balances empty stands
    exact .inr ((Derives.single derived).extend ih (behind.within within) behind.balances behind.stands)

/-- Signs balance and stand if they are none or are derived. -/
theorem balances_and_stands_iff (s : List Sign) :
    (Balances 0 s ∧ Stands false s) ↔ s = [] ∨ Derives seq s := by
  constructor
  · rintro ⟨balances, stands⟩
    exact derives_of_stands _ s (Nat.lt_succ_self _) balances stands
  · rintro (rfl | derived)
    · exact ⟨rfl, trivial⟩
    · have balanced := derived.balances 0 []
      have stood := derived.stands false []
      rw [List.append_nil] at balanced stood
      exact ⟨balanced.2 rfl, stood.2 trivial⟩

/-- A query has at most one error, the first fault of its tokens. -/
theorem errors_eq (query : Text) :
    (check query).errors = ((fault? (checkedTokens query)).map Fault.message).toList := by
  unfold check
  by_cases empty : (Text.strip query.mask).isEmpty = true
  · have none : checkedTokens query = [] := by
      rw [checkedTokens, List.isEmpty_iff.1 empty]
      decide +kernel
    simp [empty, none, fault?, parenFault?, quoteFault?, facetFault?, operatorFault?, wildcardFault?, focuses,
      focusesFrom]
  · have read : (Reading.of (Text.strip query.mask)).tokens = checkedTokens query := rfl
    rw [if_neg empty, read]
    cases fault? (checkedTokens query) <;> rfl

theorem errors_eq_nil_iff (query : Text) : (check query).errors = [] ↔ fault? (checkedTokens query) = none := by
  rw [errors_eq]
  cases fault? (checkedTokens query) <;> simp

/-- The check accepts the boolean expressions. Of a query in which each quoted string is closed, each facet has a
value and no wildcards meet, the check says that it has no error if and only if nothing but blanks stands in it or
its tokens are derived: an operator that joins stands between two items, a negation in front of an operand or a
group, and each parenthesis has its partner. -/
theorem errors_eq_nil_iff_derives (query : Text) (quotes : quoteFault? (checkedTokens query) = none)
    (facets : facetFault? (checkedTokens query) = none) (wildcards : wildcardFault? (checkedTokens query) = none) :
    (check query).errors = [] ↔ signs (checkedTokens query) = [] ∨ Derives seq (signs (checkedTokens query)) := by
  have rest : fault? (checkedTokens query) = none ↔
      parenFault? 0 (checkedTokens query) = none ∧ operatorFault? (checkedTokens query) = none := by
    simp [fault?, quotes, facets, wildcards]
  rw [errors_eq_nil_iff, rest, parenFault?_eq_none_iff, operatorFault?_eq_none_iff, balances_and_stands_iff]

/-- A negated group beside a facet. -/
theorem errors_eq_nil_iff_derives_group :
    let query := "NOT (error OR warn) service:web".toList
    signs (checkedTokens query) = [negation, opening, operand, joiner, operand, closing, operand, operand, operand] ∧
    (check query).errors = [] ∧ Derives seq (signs (checkedTokens query)) := by
  intro query
  have read : signs (checkedTokens query) =
      [negation, opening, operand, joiner, operand, closing, operand, operand, operand] := by decide +kernel
  have accepted := errors_eq_nil_iff_derives query (by decide +kernel) (by decide +kernel) (by decide +kernel)
  have errors : (check query).errors = [] := by decide +kernel
  refine ⟨read, errors, (accepted.1 errors).resolve_left ?_⟩
  rw [read]
  exact List.cons_ne_nil _ _

end Typeahead.Logs
