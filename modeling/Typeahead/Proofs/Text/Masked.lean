import Mathlib.Data.List.TakeWhile
import Typeahead.Proofs.Text.Lines

/-!
What a placeholder is written like, and how a text is masked that is put together from pieces: piece by
piece, unless a placeholder reaches from one into the next.

- `exists_placeholder`: the placeholder that begins a text.
- `mask_append`: a seam that no placeholder crosses.
- `maskFrom_eq_or`: what is not masked stays as it is.
-/

namespace Typeahead.Text

/-- The texts of placeholders. -/
inductive Placeholder : Text → Prop
  | braced {name : Text} (chars : ∀ c ∈ name, isBracedNameChar c = true) :
    Placeholder ('$' :: '{' :: (name ++ ['}']))
  | bare {c : Char} {name : Text} (begins : isNameStart c = true) (chars : ∀ c ∈ name, isNameChar c = true) :
    Placeholder ('$' :: c :: name)
  | bracketed {name : Text} (chars : ∀ c ∈ name, isBracketedNameChar c = true) :
    Placeholder ('[' :: '[' :: (name ++ [']', ']']))

theorem isNameChar_of_isNameStart {c : Char} (h : isNameStart c = true) : isNameChar c = true := by
  simp only [isNameStart, isNameChar, Char.isAlphanum, Bool.or_eq_true] at h ⊢
  exact h.imp_left .inl

theorem isBracketedNameChar_of_isNameChar {c : Char} (h : isNameChar c = true) :
    isBracketedNameChar c = true := by
  simp only [isBracketedNameChar, isNameChar, Bool.or_eq_true] at h ⊢
  exact .inl (.inl h)

namespace Placeholder

variable {p : Text}

/-- Unless it is in braces, a placeholder has no marks but its own. -/
theorem chars (h : Placeholder p) : (∃ rest, p = '$' :: '{' :: rest) ∨
    ∀ c ∈ p, c = '$' ∨ c = '[' ∨ c = ']' ∨ isBracketedNameChar c = true := by
  cases h with
  | braced chars => exact .inl ⟨_, rfl⟩
  | bare begins chars =>
    have named {c : Char} (named : isNameChar c = true) :
        c = '$' ∨ c = '[' ∨ c = ']' ∨ isBracketedNameChar c = true :=
      .inr (.inr (.inr (isBracketedNameChar_of_isNameChar named)))
    exact .inr (List.forall_mem_cons.2 ⟨.inl rfl,
      List.forall_mem_cons.2 ⟨named (isNameChar_of_isNameStart begins), fun c mem => named (chars c mem)⟩⟩)
  | bracketed chars =>
    refine .inr fun c mem => ?_
    simp only [List.mem_cons, List.mem_append, List.not_mem_nil, or_false] at mem
    rcases mem with rfl | rfl | among | rfl | rfl
    · exact .inr (.inl rfl)
    · exact .inr (.inl rfl)
    · exact .inr (.inr (.inr (chars c among)))
    · exact .inr (.inr (.inl rfl))
    · exact .inr (.inr (.inl rfl))

/-- There is no blank in a placeholder. -/
theorem inked (h : Placeholder p) : ∀ c ∈ p, isBlank c = false := by
  intro c mem
  rcases h.chars with ⟨rest, same⟩ | chars
  · cases h with
    | @braced name chars =>
      simp only [List.mem_cons, List.mem_append, List.not_mem_nil, or_false] at mem
      rcases mem with rfl | rfl | among | rfl
      · decide
      · decide
      · have named := chars c among
        simp only [isBracedNameChar, Bool.and_eq_true, Bool.not_eq_true'] at named
        exact named.2
      · decide
    | @bare d name begins =>
      obtain rfl : d = '{' := List.head_eq_of_cons_eq (List.tail_eq_of_cons_eq same)
      exact absurd begins (by decide)
    | bracketed => cases same
  · rcases chars c mem with rfl | rfl | rfl | named
    · decide
    · decide
    · decide
    · simp only [isBracketedNameChar, Bool.or_eq_true, decide_eq_true_eq] at named
      rcases named with ((alphanumeric | rfl) | rfl) | rfl
      · exact inked_of_isAlphanum alphanumeric
      all_goals decide

/-- A placeholder ends with a closing mark or a character of its name. -/
theorem last (h : Placeholder p) {c : Char} (last : p.getLast? = some c) :
    c = '}' ∨ c = ']' ∨ isNameChar c = true := by
  cases h with
  | @braced name chars =>
    have ends : ('$' :: '{' :: name ++ ['}']).getLast? = some c := last
    rw [List.getLast?_concat] at ends
    exact .inl (Option.some.inj ends).symm
  | @bare d name begins chars =>
    have among : c ∈ d :: name := List.mem_of_getLast? (by simpa [List.getLast?_cons_cons] using last)
    rcases List.mem_cons.1 among with rfl | later
    · exact .inr (.inr (isNameChar_of_isNameStart begins))
    · exact .inr (.inr (chars c later))
  | @bracketed name chars =>
    have ends : ('[' :: '[' :: (name ++ [']']) ++ [']']).getLast? = some c := by simpa using last
    rw [List.getLast?_concat] at ends
    exact .inr (.inl (Option.some.inj ends).symm)

end Placeholder

theorem runUntil_eq_some {p : Char → Bool} {close t : Text} {n : Nat} (h : runUntil p close t = some n) :
    ∃ rest, t = t.takeWhile p ++ (close ++ rest) ∧ (t.takeWhile p).length = n := by
  unfold runUntil at h
  split at h
  · next closes =>
    obtain ⟨rest, same⟩ := List.isPrefixOf_iff_prefix.1 closes
    exact ⟨rest, by rw [same, List.takeWhile_append_dropWhile], Option.some.inj h⟩
  · cases h

/-- The placeholder that begins a text. -/
theorem exists_placeholder {t : Text} (h : 0 < placeholderLength t) :
    ∃ p rest, t = p ++ rest ∧ p.length = placeholderLength t ∧ Placeholder p := by
  unfold placeholderLength at h ⊢
  split at h
  · next rest =>
    split at h
    · next n found =>
      obtain ⟨more, same, length⟩ := runUntil_eq_some found
      exact ⟨'$' :: '{' :: (rest.takeWhile isBracedNameChar ++ ['}']), more,
        congrArg (fun t => '$' :: '{' :: t) (same.trans (List.append_assoc ..).symm), by simp [length],
        .braced fun c mem => List.mem_takeWhile_imp mem⟩
    · cases h
  · next c rest _ =>
    split at h
    · next begins =>
      rw [if_pos begins]
      refine ⟨'$' :: c :: rest.takeWhile isNameChar, rest.dropWhile isNameChar, ?_, ?_,
        .bare begins fun c mem => List.mem_takeWhile_imp mem⟩
      · simp [List.takeWhile_append_dropWhile]
      · rfl
    · cases h
  · next rest =>
    split at h
    · next n found =>
      obtain ⟨more, same, length⟩ := runUntil_eq_some found
      exact ⟨'[' :: '[' :: (rest.takeWhile isBracketedNameChar ++ [']', ']']), more,
        congrArg (fun t => '[' :: '[' :: t) (same.trans (List.append_assoc ..).symm), by simp [length],
        .bracketed fun c mem => List.mem_takeWhile_imp mem⟩
    · cases h
  · cases h

theorem placeholderLength_le (t : Text) : placeholderLength t ≤ t.length := by
  rcases Nat.eq_zero_or_pos (placeholderLength t) with none_begins | begins
  · omega
  · obtain ⟨p, rest, same, length, -⟩ := exists_placeholder begins
    rw [← length, same, List.length_append]
    exact Nat.le_add_right ..

/-- A run that ends in the front of a text is the run of the front. -/
theorem runUntil_append {p : Char → Bool} {close : Text} (nonempty : close ≠ []) (a b : Text) :
    (∀ n, runUntil p close a = some n → runUntil p close (a ++ b) = some n) ∧
      ∀ n, runUntil p close (a ++ b) = some n → n + close.length ≤ a.length → runUntil p close a = some n := by
  have positive : 0 < close.length := List.length_pos_iff.2 nonempty
  by_cases all : ∀ c ∈ a, p c = true
  · refine ⟨fun n found => ?_, fun n found within => ?_⟩
    · obtain ⟨rest, same, -⟩ := runUntil_eq_some found
      rw [List.takeWhile_eq_self_iff.2 all] at same
      have length := congrArg List.length same
      simp only [List.length_append] at length
      omega
    · obtain ⟨rest, -, length⟩ := runUntil_eq_some found
      rw [List.takeWhile_append_of_pos all, List.length_append] at length
      omega
  · -- the run stops in the front, so what follows the front is not looked at
    have stops : (a.takeWhile p).length ≠ a.length := by
      intro same
      exact all (List.takeWhile_eq_self_iff.1 ((List.takeWhile_prefix p).eq_of_length same))
    have run : (a ++ b).takeWhile p = a.takeWhile p := by rw [List.takeWhile_append, if_neg stops]
    have left : (a ++ b).dropWhile p = a.dropWhile p ++ b := by
      rw [List.dropWhile_append, if_neg]
      rw [List.isEmpty_iff, List.dropWhile_eq_nil_iff]
      exact all
    have length := congrArg List.length (List.takeWhile_append_dropWhile (p := p) (l := a))
    rw [List.length_append] at length
    refine ⟨fun n found => ?_, fun n found within => ?_⟩
    · unfold runUntil at found ⊢
      split at found
      · next closes =>
        have longer : close <+: a.dropWhile p ++ b :=
          (List.isPrefixOf_iff_prefix.1 closes).trans (List.prefix_append ..)
        rw [run, left, if_pos (List.isPrefixOf_iff_prefix.2 longer)]
        exact found
      · cases found
    · unfold runUntil at found ⊢
      rw [run, left] at found
      split at found
      · next closes =>
        have inner : close <+: a.dropWhile p := by
          obtain rfl := Option.some.inj found
          exact List.prefix_of_prefix_length_le (List.isPrefixOf_iff_prefix.1 closes) (List.prefix_append ..)
            (by omega)
        rw [if_pos (List.isPrefixOf_iff_prefix.2 inner)]
        exact found
      · cases found

/-- In braces a placeholder that ends in the front of a text is one of the front. -/
theorem placeholderLength_braced_append {a b : Text}
    (within : placeholderLength ('$' :: '{' :: (a ++ b)) ≤ a.length + 2) :
    placeholderLength ('$' :: '{' :: a) = placeholderLength ('$' :: '{' :: (a ++ b)) := by
  obtain ⟨longer, shorter⟩ := runUntil_append (p := isBracedNameChar) (List.cons_ne_nil '}' []) a b
  simp only [placeholderLength] at within ⊢
  cases part : runUntil isBracedNameChar ['}'] a with
  | some n => rw [longer n part]
  | none =>
    cases whole : runUntil isBracedNameChar ['}'] (a ++ b) with
    | none => rfl
    | some n =>
      rw [whole] at within
      change n + 3 ≤ a.length + 2 at within
      cases (shorter n whole (by simp only [List.length_singleton]; omega)).symm.trans part

/-- In brackets a placeholder that ends in the front of a text is one of the front. -/
theorem placeholderLength_bracketed_append {a b : Text}
    (within : placeholderLength ('[' :: '[' :: (a ++ b)) ≤ a.length + 2) :
    placeholderLength ('[' :: '[' :: a) = placeholderLength ('[' :: '[' :: (a ++ b)) := by
  obtain ⟨longer, shorter⟩ := runUntil_append (p := isBracketedNameChar) (List.cons_ne_nil ']' [']']) a b
  simp only [placeholderLength] at within ⊢
  cases part : runUntil isBracketedNameChar [']', ']'] a with
  | some n => rw [longer n part]
  | none =>
    cases whole : runUntil isBracketedNameChar [']', ']'] (a ++ b) with
    | none => rfl
    | some n =>
      cases n with
      | zero => rfl
      | succ n =>
        rw [whole] at within
        change n + 5 ≤ a.length + 2 at within
        cases (shorter _ whole (by simp only [List.length_cons, List.length_nil]; omega)).symm.trans part

theorem placeholderLength_bare {c : Char} (bare : c ≠ '{') (t : Text) : placeholderLength ('$' :: c :: t) =
    if isNameStart c then (t.takeWhile isNameChar).length + 2 else 0 := by
  simp [placeholderLength]

/-- Without marks around its name, a placeholder that ends in the front of a text is one of the front too. -/
theorem placeholderLength_bare_append {c : Char} (bare : c ≠ '{') {a b : Text}
    (within : placeholderLength ('$' :: c :: (a ++ b)) ≤ a.length + 2) :
    placeholderLength ('$' :: c :: a) = placeholderLength ('$' :: c :: (a ++ b)) := by
  rw [placeholderLength_bare bare] at within ⊢
  rw [placeholderLength_bare bare]
  by_cases begins : isNameStart c = true
  · rw [if_pos begins] at within ⊢
    rw [if_pos begins, List.takeWhile_append] at *
    split
    · next all =>
      rw [if_pos all, List.length_append] at within
      simp only [List.length_append]
      omega
    · rfl
  · rw [if_neg begins, if_neg begins]

theorem placeholderLength_of_unmarked {c d : Char} (dollar : c ≠ '$') (brackets : ¬(c = '[' ∧ d = '[')) (t : Text) :
    placeholderLength (c :: d :: t) = 0 := by
  unfold placeholderLength
  split
  · next same => exact absurd (List.head_eq_of_cons_eq same) dollar
  · next same => exact absurd (List.head_eq_of_cons_eq same) dollar
  · next same =>
    have second := List.head_eq_of_cons_eq (List.tail_eq_of_cons_eq same)
    exact absurd ⟨List.head_eq_of_cons_eq same, second⟩ brackets
  · rfl

/-- A placeholder has two characters at least. -/
theorem two_le_placeholderLength {t : Text} (begins : 0 < placeholderLength t) : 2 ≤ placeholderLength t := by
  obtain ⟨p, -, -, length, placeholder⟩ := exists_placeholder begins
  rw [← length]
  cases placeholder <;> simp

/-- A placeholder that ends in the front of a text is a placeholder of the front. -/
theorem placeholderLength_append {a b : Text} (within : placeholderLength (a ++ b) ≤ a.length) :
    placeholderLength a = placeholderLength (a ++ b) := by
  rcases a with _ | ⟨c, _ | ⟨d, a⟩⟩
  · exact (Nat.le_zero.1 within).symm
  · have alone : placeholderLength [c] = 0 := by simp [placeholderLength]
    by_contra differ
    have := two_le_placeholderLength (Nat.pos_of_ne_zero fun none_begins => differ (alone.trans none_begins.symm))
    simp only [List.length_singleton] at within
    omega
  · simp only [List.cons_append, List.length_cons] at within ⊢
    by_cases dollar : c = '$'
    · subst dollar
      by_cases brace : d = '{'
      · subst brace
        exact placeholderLength_braced_append within
      · exact placeholderLength_bare_append brace within
    · by_cases brackets : c = '[' ∧ d = '['
      · obtain ⟨rfl, rfl⟩ := brackets
        exact placeholderLength_bracketed_append within
      · rw [placeholderLength_of_unmarked dollar brackets, placeholderLength_of_unmarked dollar brackets]

theorem maskFrom_append {a b : Text} {covered : Nat} (h : covered ≤ a.length)
    (apart : ∀ s, s <:+ a → s ≠ [] → placeholderLength (s ++ b) ≤ s.length) :
    maskFrom covered (a ++ b) = maskFrom covered a ++ mask b := by
  induction a generalizing covered with
  | nil =>
    obtain rfl := Nat.le_zero.1 h
    rfl
  | cons c a ih =>
    have later : ∀ s, s <:+ a → s ≠ [] → placeholderLength (s ++ b) ≤ s.length :=
      fun s ends => apart s (ends.trans (List.suffix_cons c a))
    rw [List.length_cons] at h
    cases covered with
    | succ n => simp only [List.cons_append, maskFrom, ih (Nat.le_of_succ_le_succ h) later]
    | zero =>
      have within := apart (c :: a) List.suffix_rfl (by simp)
      have same := placeholderLength_append within
      have short := placeholderLength_le (c :: a)
      rw [List.length_cons] at short
      rw [List.cons_append] at same
      simp only [List.cons_append, maskFrom, ← same]
      split
      · next n found => rw [ih (by omega) later, List.cons_append]
      · rw [ih (Nat.zero_le _) later, List.cons_append]

/-- Two pieces are masked one by one if no placeholder reaches from the first into the second. -/
theorem mask_append {a b : Text} (apart : ∀ s, s <:+ a → s ≠ [] → placeholderLength (s ++ b) ≤ s.length) :
    mask (a ++ b) = mask a ++ mask b := maskFrom_append (Nat.zero_le _) apart

/-- No placeholder reaches over a blank. -/
theorem mask_append_blank {a b : Text} (blank : ∀ c ∈ b.head?, isBlank c = true) : mask (a ++ b) = mask a ++ mask b := by
  refine mask_append fun s _ _ => ?_
  by_contra longer
  obtain ⟨p, rest, same, length, placeholder⟩ := exists_placeholder (t := s ++ b) (by omega)
  rcases List.append_eq_append_iff.1 same with ⟨past, whole, behind⟩ | ⟨short, whole, -⟩
  · cases past with
    | nil =>
      rw [whole, List.append_nil] at length
      omega
    | cons c past =>
      have inked := placeholder.inked c (by simp [whole])
      rw [blank c (by simp [behind])] at inked
      cases inked
  · have := congrArg List.length whole
    rw [List.length_append] at this
    omega

/-- Characters with which no placeholder begins are not masked, whatever follows them. -/
theorem mask_plain_append {a : Text} (plain : ∀ c ∈ a, c ≠ '$' ∧ c ≠ '[') (b : Text) :
    mask (a ++ b) = a ++ mask b := by
  rw [mask_append, mask_of_plain plain]
  intro s ends nonempty
  cases s with
  | nil => exact absurd rfl nonempty
  | cons c s =>
    obtain ⟨noDollar, noBracket⟩ := plain c (ends.subset List.mem_cons_self)
    rw [List.cons_append, placeholderLength_of_plain noDollar noBracket]
    exact Nat.zero_le _

/-- A placeholder is masked by as many letters, whatever follows it. -/
theorem mask_placeholder {p : Text} (b : Text) (h : placeholderLength (p ++ b) = p.length) :
    mask (p ++ b) = List.replicate p.length 'x' ++ mask b := by
  have covered (a : Text) : maskFrom a.length (a ++ b) = List.replicate a.length 'x' ++ mask b := by
    induction a with
    | nil => rfl
    | cons c a ih => simp only [List.length_cons, List.cons_append, maskFrom, ih, List.replicate_succ]
  cases p with
  | nil => rfl
  | cons c p =>
    rw [List.cons_append] at h
    simp only [mask, List.cons_append, maskFrom, h, List.length_cons, List.replicate_succ]
    rw [covered]
    rfl

/-- Every character is masked by the letter or stays as it is. -/
theorem maskFrom_eq_or (covered : Nat) (t : Text) (n : Nat) (c : Char)
    (there : (maskFrom covered t)[n]? = some c) : c = 'x' ∨ t[n]? = some c := by
  induction t generalizing covered n with
  | nil => simp [maskFrom] at there
  | cons d t ih =>
    cases n with
    | zero =>
      cases covered with
      | succ k => exact .inl (by simpa [maskFrom] using there.symm)
      | zero =>
        simp only [maskFrom] at there
        split at there
        · exact .inl (by simpa using there.symm)
        · exact .inr (by simpa using there)
    | succ n =>
      cases covered with
      | succ k => exact ih k n (by simpa [maskFrom] using there)
      | zero =>
        simp only [maskFrom] at there
        split at there
        · exact ih _ n (by simpa using there)
        · exact ih 0 n (by simpa using there)

/-- Masking brings no characters but the letter. -/
theorem mem_mask {t : Text} {c : Char} (mem : c ∈ mask t) : c = 'x' ∨ c ∈ t := by
  obtain ⟨n, there⟩ := List.mem_iff_getElem?.1 mem
  exact (maskFrom_eq_or 0 t n c there).imp_right List.mem_of_getElem?

theorem mask_ne_nil {t : Text} (filled : t ≠ []) : mask t ≠ [] := by
  rw [ne_eq, ← List.length_eq_zero_iff, length_mask, List.length_eq_zero_iff]
  exact filled

/-- Masking brings no line break. -/
theorem mask_inLine {t : Text} (inLine : ∀ c ∈ t, insideLine c = true) (c : Char) (mem : c ∈ mask t) : c ≠ '\n' := by
  rintro rfl
  rcases mem_mask mem with letter | among
  · cases letter
  · have inside := inLine _ among
    revert inside
    decide

/-- What is masked at a place is the letter, or what is written there. -/
theorem exists_masked {t : Text} {n : Nat} {c : Char} (there : t[n]? = some c) :
    ∃ d, (mask t)[n]? = some d ∧ (d = 'x' ∨ d = c) := by
  obtain ⟨within, -⟩ := List.getElem?_eq_some_iff.1 there
  rw [← length_mask] at within
  have masked : (mask t)[n]? = some (mask t)[n] := List.getElem?_eq_getElem within
  refine ⟨_, masked, (maskFrom_eq_or 0 t n _ masked).imp_right fun same => ?_⟩
  exact Option.some.inj (same.symm.trans there)

/-- What is masked is inked where the text is. -/
theorem hasInk_mask {t : Text} (inked : t.hasInk = true) : (mask t).hasInk = true := by
  obtain ⟨c, mem, ink⟩ := List.any_eq_true.1 inked
  obtain ⟨n, there⟩ := List.mem_iff_getElem?.1 mem
  obtain ⟨d, masked, rfl | rfl⟩ := exists_masked there
  · exact List.any_eq_true.2 ⟨_, List.mem_of_getElem? masked, by decide⟩
  · exact List.any_eq_true.2 ⟨_, List.mem_of_getElem? masked, ink⟩

/-- A character that stands in no placeholder is masked nowhere. -/
theorem count_maskFrom {c : Char} (other : c ≠ 'x') {t : Text}
    (free : ∀ s, s <:+ t → c ∉ s.take (placeholderLength s)) {covered : Nat} (passed : c ∉ t.take covered) :
    (maskFrom covered t).count c = t.count c := by
  induction t generalizing covered with
  | nil => rfl
  | cons d t ih =>
    have free' : ∀ s, s <:+ t → c ∉ s.take (placeholderLength s) :=
      fun s ends => free s (ends.trans (List.suffix_cons d t))
    have hidden {n : Nat} (passed : c ∉ (d :: t).take (n + 1)) :
        ('x' :: maskFrom n t).count c = (d :: t).count c := by
      rw [List.take_succ_cons, List.mem_cons, not_or] at passed
      rw [List.count_cons_of_ne other.symm, List.count_cons_of_ne (Ne.symm passed.1), ih free' passed.2]
    cases covered with
    | succ n => exact hidden passed
    | zero =>
      have here := free (d :: t) List.suffix_rfl
      simp only [maskFrom]
      split
      · next n length =>
        rw [length] at here
        exact hidden here
      · rw [List.count_cons, List.count_cons, ih free' (by simp)]

/-- A text without the letter is what it is masked as. -/
theorem eq_of_mask {t w : Text} (same : mask t = w) (letterless : 'x' ∉ w) : t = w := by
  subst same
  apply List.ext_getElem? 
  intro n
  cases there : t[n]? with
  | none =>
    rw [List.getElem?_eq_none_iff] at there
    exact (List.getElem?_eq_none_iff.2 (by rwa [length_mask])).symm
  | some c =>
    obtain ⟨d, masked, rfl | rfl⟩ := exists_masked there
    · exact absurd (List.mem_of_getElem? masked) letterless
    · exact masked.symm

end Typeahead.Text
