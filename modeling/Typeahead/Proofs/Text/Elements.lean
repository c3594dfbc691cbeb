import Typeahead.Proofs.Text.Masked

/-!
What masking does to a text that is masked already. A text comes apart into characters that stay and placeholders that
are masked. The letters in place of a placeholder can read as the name in another one: behind a dollar sign, or between
the marks that enclosed it. So masking may have to be done again, and these are the only reasons.

- `begins_iff`: how a text begins that begins with a placeholder.
- `mask_eq_self_iff`: a text stays as it is if no part of it begins with a placeholder.
- `shown_elements`, `begins_of_kept`: the elements of a text, and what they are masked as.
- `mask_mask_eq_self_iff`: where masking twice is more than masking once.
-/

namespace Typeahead.Text

/-- A text that begins with a placeholder. -/
inductive Begins : Text → Prop
  | bare {c : Char} (named : isNameStart c = true) (rest : Text) : Begins ('$' :: c :: rest)
  | braced {name : Text} (chars : ∀ c ∈ name, isBracedNameChar c = true) (rest : Text) :
    Begins ('$' :: '{' :: (name ++ '}' :: rest))
  | bracketed {name : Text} (filled : name ≠ []) (chars : ∀ c ∈ name, isBracketedNameChar c = true) (rest : Text) :
    Begins ('[' :: '[' :: (name ++ ']' :: ']' :: rest))

/-- A run of the class ends where what closes it begins with another character. -/
theorem runUntil_closed {p : Char → Bool} {name : Text} (chars : ∀ c ∈ name, p c = true) {d : Char}
    (ends : p d = false) (close rest : Text) :
    runUntil p (d :: close) (name ++ (d :: close ++ rest)) = some name.length := by
  have stops : (d :: close ++ rest).takeWhile p = [] := by simp [ends]
  have left : (name ++ (d :: close ++ rest)).dropWhile p = d :: close ++ rest := by
    rw [List.dropWhile_append_of_pos chars]
    simp [ends]
  rw [runUntil, left, if_pos (List.isPrefixOf_iff_prefix.2 (List.prefix_append ..)),
    List.takeWhile_append_of_pos chars, stops, List.append_nil]

theorem begins_iff {t : Text} : 0 < placeholderLength t ↔ Begins t := by
  constructor
  · intro begins
    unfold placeholderLength at begins
    split at begins
    · next rest =>
      split at begins
      · next n found =>
        obtain ⟨more, same, -⟩ := runUntil_eq_some found
        rw [same]
        exact .braced (fun c mem => List.mem_takeWhile_imp mem) more
      · cases begins
    · next c rest _ =>
      split at begins
      · next named => exact .bare named rest
      · cases begins
    · next rest =>
      split at begins
      · next n found =>
        obtain ⟨more, same, length⟩ := runUntil_eq_some found
        rw [same]
        exact .bracketed (List.ne_nil_of_length_eq_add_one length) (fun c mem => List.mem_takeWhile_imp mem) more
      · cases begins
    · cases begins
  · intro begins
    cases begins with
    | @bare c named rest =>
      have bare : c ≠ '{' := by
        rintro rfl
        revert named
        decide
      rw [placeholderLength_bare bare, if_pos named]
      exact Nat.succ_pos _
    | @braced name chars rest =>
      have found := runUntil_closed chars (d := '}') (by decide) [] rest
      rw [List.singleton_append] at found
      simp [placeholderLength, found]
    | @bracketed name filled chars rest =>
      have found := runUntil_closed chars (d := ']') (by decide) [']'] rest
      obtain ⟨c, name, rfl⟩ := List.exists_cons_of_ne_nil filled
      simp only [List.cons_append, List.length_cons, List.nil_append] at found
      simp [placeholderLength, found]

/-- A text stays as it is when it is masked, if no part of it begins with a placeholder. -/
theorem mask_eq_self_iff {t : Text} : mask t = t ↔ ∀ s, s <:+ t → ¬Begins s := by
  induction t with
  | nil =>
    refine iff_of_true rfl fun s suffix begins => ?_
    rw [List.suffix_nil.1 suffix] at begins
    cases begins
  | cons c t ih =>
    have parts : (∀ s, s <:+ c :: t → ¬Begins s) ↔ ¬Begins (c :: t) ∧ ∀ s, s <:+ t → ¬Begins s := by
      simp only [List.suffix_cons_iff, or_imp, forall_and, forall_eq]
    rw [parts, ← ih]
    by_cases begins : Begins (c :: t)
    · -- the mark with which a placeholder begins is masked
      have marked : c ≠ 'x' := by
        cases begins <;> decide
      obtain ⟨n, length⟩ := Nat.exists_eq_add_one.2 (begins_iff.2 begins)
      refine iff_of_false (fun same => ?_) fun held => held.1 begins
      simp only [mask, maskFrom, length] at same
      exact marked (List.head_eq_of_cons_eq same).symm
    · have length : placeholderLength (c :: t) = 0 := Nat.eq_zero_of_not_pos (mt begins_iff.1 begins)
      rw [and_iff_right begins]
      simp only [mask, maskFrom, length, List.cons.injEq, true_and]

/-! ### Elements -/

/-- What a text is masked by: a character that stays, or a placeholder, its first character told from the others. -/
inductive Element where
  | kept (c : Char)
  | hidden (c : Char) (more : Text)
  deriving DecidableEq, Repr

namespace Element

/-- The characters of an element. -/
def written : Element → Text
  | kept c => [c]
  | hidden c more => c :: more

/-- What an element is masked as. -/
def masked : Element → Text
  | kept c => [c]
  | hidden _ more => List.replicate (more.length + 1) 'x'

/-- An element that may stand in the name of a placeholder: a character of the class, or anything that is masked. -/
inductive Fits (p : Char → Bool) : Element → Prop
  | kept {c : Char} (fits : p c = true) : Fits p (.kept c)
  | hidden (c : Char) (more : Text) : Fits p (.hidden c more)

theorem fits_iff {p : Char → Bool} (letter : p 'x' = true) {e : Element} :
    e.Fits p ↔ ∀ c ∈ e.masked, p c = true := by
  cases e with
  | kept c =>
    constructor
    · rintro (fits | -)
      simpa [masked] using fits
    · intro chars
      exact .kept (chars c List.mem_cons_self)
  | hidden c more =>
    refine iff_of_true (.hidden c more) fun d mem => ?_
    rw [List.eq_of_mem_replicate mem, letter]

end Element

/-- A text cut into characters that stay and placeholders. -/
def elements : Text → List Element
  | [] => []
  | c :: rest =>
    match placeholderLength (c :: rest) with
    | n + 1 => .hidden c (rest.take n) :: elements (rest.drop n)
    | 0 => .kept c :: elements rest
  termination_by t => t.length
  decreasing_by
    · simp only [List.length_drop, List.length_cons]
      omega
    · simp

/-- What elements are, one after the other. -/
def spelled (es : List Element) : Text := es.flatMap Element.written

/-- What elements are masked as, one after the other. -/
def shown (es : List Element) : Text := es.flatMap Element.masked

section

variable {t : Text} {es front back : List Element} {c : Char}

@[simp] theorem spelled_cons (e : Element) (es : List Element) : spelled (e :: es) = e.written ++ spelled es := rfl

@[simp] theorem shown_cons (e : Element) (es : List Element) : shown (e :: es) = e.masked ++ shown es := rfl

@[simp] theorem spelled_append (es es' : List Element) : spelled (es ++ es') = spelled es ++ spelled es' :=
  List.flatMap_append

@[simp] theorem shown_append (es es' : List Element) : shown (es ++ es') = shown es ++ shown es' :=
  List.flatMap_append

theorem spelled_elements (t : Text) : spelled (elements t) = t := by
  fun_induction elements t with
  | case1 => rfl
  | case2 c rest n _ ih => rw [spelled_cons, ih, Element.written, List.cons_append, List.take_append_drop]
  | case3 c rest _ ih => rw [spelled_cons, ih, Element.written, List.singleton_append]

theorem shown_elements (t : Text) : shown (elements t) = mask t := by
  fun_induction elements t with
  | case1 => rfl
  | case2 c rest n length ih =>
    have long := placeholderLength_le (c :: rest)
    rw [length, List.length_cons] at long
    have size : (c :: rest.take n).length = n + 1 := by
      rw [List.length_cons, List.length_take, Nat.min_eq_left (Nat.le_of_succ_le_succ long)]
    have parts : c :: rest.take n ++ rest.drop n = c :: rest := by rw [List.cons_append, List.take_append_drop]
    have masked := mask_placeholder (p := c :: rest.take n) (rest.drop n) (by rw [parts, length, size])
    rw [parts] at masked
    rw [shown_cons, ih, masked]
    rfl
  | case3 c rest length ih =>
    rw [shown_cons, ih, Element.masked, List.singleton_append]
    simp only [mask, maskFrom, length]

/-- At a character that stays no placeholder begins. -/
theorem begins_of_kept (same : elements t = front ++ .kept c :: back) : ¬Begins (c :: spelled back) := by
  fun_induction elements t generalizing front with
  | case1 => simp at same
  | case2 d rest n _ ih =>
    cases front with
    | nil => cases List.head_eq_of_cons_eq same
    | cons e front => exact ih (List.tail_eq_of_cons_eq same)
  | case3 d rest length ih =>
    cases front with
    | nil =>
      obtain rfl := Element.kept.inj (List.head_eq_of_cons_eq same)
      rw [← List.tail_eq_of_cons_eq same, spelled_elements, ← begins_iff, length]
      exact Nat.lt_irrefl 0
    | cons e front => exact ih (List.tail_eq_of_cons_eq same)

/-- What is shown of a character other than the letter is the character itself. -/
theorem exists_kept {s rest : Text} (same : shown es = s ++ c :: rest) (other : c ≠ 'x') :
    ∃ front back, es = front ++ .kept c :: back ∧ shown front = s ∧ shown back = rest := by
  induction es generalizing s with
  | nil => simp [shown] at same
  | cons e es ih =>
    rw [shown_cons] at same
    cases List.append_eq_append_iff.1 same with
    | inl later =>
      obtain ⟨s', rfl, split⟩ := later
      obtain ⟨front, back, rfl, shows, behind⟩ := ih split
      exact ⟨e :: front, back, rfl, by rw [shown_cons, shows], behind⟩
    | inr within =>
      obtain ⟨q, own, split⟩ := within
      cases q with
      | nil =>
        obtain ⟨front, back, rfl, shows, behind⟩ := ih (s := []) split.symm
        exact ⟨e :: front, back, rfl, by rw [shown_cons, shows, own, List.append_nil, List.append_nil], behind⟩
      | cons d q =>
        obtain ⟨rfl, rfl⟩ := List.cons.inj split
        cases e with
        | kept d =>
          obtain ⟨rfl, single⟩ := List.append_eq_singleton_iff.1 own.symm |>.resolve_right (by simp)
          obtain ⟨rfl, rfl⟩ := List.cons.inj single
          exact ⟨[], es, rfl, rfl, rfl⟩
        | hidden d more =>
          have letter : c ∈ (Element.hidden d more).masked := by rw [own]; simp
          exact absurd (List.eq_of_mem_replicate letter) other

theorem exists_cons_kept {rest : Text} (same : shown es = c :: rest) (other : c ≠ 'x') :
    ∃ back, es = .kept c :: back ∧ shown back = rest := by
  cases es with
  | nil => cases same
  | cons e es =>
    cases e with
    | kept d =>
      obtain ⟨rfl, behind⟩ := List.cons.inj same
      exact ⟨es, rfl, behind⟩
    | hidden d more => exact absurd (List.head_eq_of_cons_eq same).symm other

/-- What is shown of characters that stay is what they are. -/
theorem shown_of_kept (plain : ∀ c more, Element.hidden c more ∉ es) : shown es = spelled es := by
  induction es with
  | nil => rfl
  | cons e es ih =>
    have later : ∀ c more, Element.hidden c more ∉ es := by
      intro c more mem
      exact plain c more (List.mem_cons_of_mem e mem)
    rw [shown_cons, spelled_cons, ih later]
    cases e with
    | kept c => rfl
    | hidden c more => exact absurd List.mem_cons_self (plain c more)

end

/-! ### What is masked the second time -/

/-- Elements that may stand in the name of a placeholder, and among which there is a placeholder. -/
structure Encloses (p : Char → Bool) (es : List Element) : Prop where
  fits : ∀ e ∈ es, e.Fits p
  nested : ∃ c more, Element.hidden c more ∈ es

/-- Elements that read as a placeholder when the placeholders among them are masked: a dollar sign in front of one, or
the marks of one around others. -/
inductive Regrown : List Element → Prop
  | bare (c : Char) (more : Text) : Regrown [.kept '$', .hidden c more]
  | braced {es : List Element} (inner : Encloses isBracedNameChar es) :
    Regrown (.kept '$' :: .kept '{' :: (es ++ [.kept '}']))
  | bracketed {es : List Element} (inner : Encloses isBracketedNameChar es) :
    Regrown (.kept '[' :: .kept '[' :: (es ++ [.kept ']', .kept ']']))

/-- Whether elements of a text read as a placeholder when it is masked. -/
def Regrows (t : Text) : Prop := ∃ es, Regrown es ∧ es <:+: elements t

section

variable {p : Char → Bool} {t : Text} {es : List Element}

theorem Encloses.chars (letter : p 'x' = true) (h : Encloses p es) : ∀ c ∈ shown es, p c = true := by
  intro c mem
  obtain ⟨e, among, own⟩ := List.mem_flatMap.1 mem
  exact (Element.fits_iff letter).1 (h.fits e among) c own

theorem Encloses.shown_ne_nil (h : Encloses p es) : shown es ≠ [] := by
  obtain ⟨c, more, mem⟩ := h.nested
  intro empty
  have letter : 'x' ∈ shown es := List.mem_flatMap.2 ⟨_, mem, List.mem_cons_self⟩
  rw [empty] at letter
  cases letter

theorem encloses_of_shown (letter : p 'x' = true) (chars : ∀ c ∈ shown es, p c = true) (nested : shown es ≠ spelled es) :
    Encloses p es := by
  constructor
  · intro e among
    apply (Element.fits_iff letter).2
    intro c own
    exact chars c (List.mem_flatMap.2 ⟨e, among, own⟩)
  · by_contra plain
    exact nested (shown_of_kept fun c more mem => plain ⟨c, more, mem⟩)

/-- What is masked begins with a placeholder there. -/
theorem Regrown.begins (h : Regrown es) (rest : Text) : Begins (shown es ++ rest) := by
  cases h with
  | bare c more => exact .bare (c := 'x') (by decide) _
  | @braced es inner =>
    have grown := Begins.braced (inner.chars (by decide)) rest
    simpa [Element.masked, shown] using grown
  | @bracketed es inner =>
    have grown := Begins.bracketed inner.shown_ne_nil (inner.chars (by decide)) rest
    simpa [Element.masked, shown] using grown

/-- Where a masked text begins with a placeholder, its marks have stayed and what it names has not. -/
theorem regrows_of_begins {s : Text} (begins : Begins s) (suffix : s <:+ mask t) : Regrows t := by
  rw [← shown_elements] at suffix
  obtain ⟨before, same⟩ := suffix
  cases begins with
  | @bare c named rest =>
    obtain ⟨front, back, split, -, behind⟩ := exists_kept same.symm (by decide)
    cases back with
    | nil => cases behind
    | cons e back =>
      cases e with
      | kept d =>
        obtain rfl : d = c := List.head_eq_of_cons_eq behind
        exact absurd (.bare named (spelled back)) (begins_of_kept split)
      | hidden d more => exact ⟨_, .bare d more, front, back, by rw [split]; simp⟩
  | @braced name chars rest =>
    obtain ⟨front, back, split, -, behind⟩ := exists_kept same.symm (by decide)
    obtain ⟨back, rfl, inside⟩ := exists_cons_kept behind (by decide)
    obtain ⟨inner, back, rfl, rfl, -⟩ := exists_kept inside (by decide)
    have stays := begins_of_kept split
    have encloses : Encloses isBracedNameChar inner := by
      apply encloses_of_shown (by decide) chars
      intro plain
      rw [plain] at chars
      apply stays
      simpa [Element.written] using Begins.braced chars (spelled back)
    exact ⟨_, .braced encloses, front, back, by rw [split]; simp⟩
  | @bracketed name filled chars rest =>
    obtain ⟨front, back, split, -, behind⟩ := exists_kept same.symm (by decide)
    obtain ⟨back, rfl, inside⟩ := exists_cons_kept behind (by decide)
    obtain ⟨inner, back, rfl, rfl, closes⟩ := exists_kept inside (by decide)
    obtain ⟨back, rfl, -⟩ := exists_cons_kept closes (by decide)
    have stays := begins_of_kept split
    have encloses : Encloses isBracketedNameChar inner := by
      apply encloses_of_shown (by decide) chars
      intro plain
      rw [plain] at chars filled
      apply stays
      simpa [Element.written] using Begins.bracketed filled chars (spelled back)
    exact ⟨_, .bracketed encloses, front, back, by rw [split]; simp⟩

/-- Masking a second time changes a text if and only if some of its elements read as a placeholder when it is masked. -/
theorem mask_mask_eq_self_iff (t : Text) : mask (mask t) = mask t ↔ ¬Regrows t := by
  rw [mask_eq_self_iff]
  constructor
  · rintro still ⟨es, regrown, front, back, split⟩
    refine still (shown es ++ shown back) ⟨shown front, ?_⟩ (regrown.begins _)
    rw [← shown_elements, ← split, shown_append, shown_append, List.append_assoc]
  · intro still s suffix begins
    exact still (regrows_of_begins begins suffix)

end

end Typeahead.Text
