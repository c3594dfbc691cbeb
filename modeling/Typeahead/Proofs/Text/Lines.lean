import Mathlib.Data.List.TakeWhile
import Typeahead.Text.Line
import Typeahead.Text.Placeholder

/-!
Texts of one line, put together from pieces: the line of a cursor in them, what of them is masked, and where
a place in them is.

- `holds_of_ascii`: a property of characters is tested on the ASCII ones.
- `Text.lineAt_of_inside`, `Text.mask_of_plain`: a text without line breaks, and one without placeholders.
- `Text.exists_piece`: a place in texts with marks between them.
-/

namespace Typeahead

/-- What holds of the first 128 characters holds of every ASCII character. -/
theorem holds_of_ascii {P : Char → Prop} (h : ∀ n : Fin 128, P (Char.ofNat n)) {c : Char}
    (ascii : c.toNat < 128) : P c := by
  have this := h ⟨c.toNat, ascii⟩
  rwa [Char.ofNat_toNat] at this

/-- Pieces with something between them, told from one piece in the middle. -/
theorem intercalate_append {α : Type} (sep : List α) (before : List (List α)) (here : List α)
    (after : List (List α)) : sep.intercalate (before ++ here :: after) =
      (before.map (· ++ sep)).flatten ++ here ++ (after.map (sep ++ ·)).flatten := by
  induction before with
  | nil =>
    induction after generalizing here with
    | nil => simp
    | cons next after ih =>
      rw [List.nil_append, List.intercalate_cons_cons]
      simpa using ih next
  | cons first before ih =>
    have more : sep.intercalate (first :: (before ++ here :: after)) =
        first ++ sep ++ sep.intercalate (before ++ here :: after) := by
      cases before <;> exact List.intercalate_cons_cons
    rw [List.cons_append, more, ih]
    simp

theorem toNat_lt_of_isAlphanum {c : Char} (h : c.isAlphanum = true) : c.toNat < 128 := by
  have below {upper : UInt32} (h : c.val ≤ upper) (small : upper.toNat < 128) : c.toNat < 128 :=
    (UInt32.le_iff_toNat_le.1 h).trans_lt small
  rcases Bool.or_eq_true_iff.1 h with letter | digit
  · rcases Bool.or_eq_true_iff.1 letter with capital | small
    · exact below (of_decide_eq_true capital).2 (by decide)
    · exact below (of_decide_eq_true (Bool.and_eq_true_iff.1 small).2) (by decide)
  · exact below (of_decide_eq_true (Bool.and_eq_true_iff.1 digit).2) (by decide)

theorem isAlphanum_of_isLower {c : Char} (h : c.isLower = true) : c.isAlphanum = true :=
  Bool.or_eq_true_iff.2 (.inl (Bool.or_eq_true_iff.2 (.inr h)))

theorem inked_of_isAlphanum {c : Char} (h : c.isAlphanum = true) : isBlank c = false :=
  holds_of_ascii (P := fun c => c.isAlphanum = true → isBlank c = false) (by decide +kernel)
    (toNat_lt_of_isAlphanum h) h

namespace Text

/-- A text without line breaks is the line of every cursor in it. -/
theorem lineAt_of_inside {t : Text} (inside : ∀ c ∈ t, insideLine c = true) (n : Nat) :
    t.lineAt n = ⟨t, 0⟩ := by
  have before : trailing insideLine (t.take n) = t.take n := by
    have all : ∀ c ∈ (t.take n).reverse, insideLine c = true :=
      fun c mem => inside c (List.mem_of_mem_take (List.mem_reverse.1 mem))
    rw [trailing, List.takeWhile_eq_self_iff.2 all, List.reverse_reverse]
  have after : (t.drop n).takeWhile insideLine = t.drop n :=
    List.takeWhile_eq_self_iff.2 fun c mem => inside c (List.mem_of_mem_drop mem)
  simp [lineAt, before, after]

theorem placeholderLength_of_plain {c : Char} (noDollar : c ≠ '$') (noBracket : c ≠ '[') (rest : Text) :
    placeholderLength (c :: rest) = 0 := by
  unfold placeholderLength
  split
  · next same => exact absurd (List.head_eq_of_cons_eq same) noDollar
  · next same => exact absurd (List.head_eq_of_cons_eq same) noDollar
  · next same => exact absurd (List.head_eq_of_cons_eq same) noBracket
  · rfl

/-- Where no placeholder can begin nothing is masked. -/
theorem mask_of_plain {t : Text} (plain : ∀ c ∈ t, c ≠ '$' ∧ c ≠ '[') : mask t = t := by
  unfold mask
  induction t with
  | nil => rfl
  | cons c rest ih =>
    obtain ⟨⟨noDollar, noBracket⟩, later⟩ := List.forall_mem_cons.1 plain
    simp [maskFrom, placeholderLength_of_plain noDollar noBracket, ih later]

/-- Where no character of a class is, none is dropped. -/
theorem trim_of_forall {p : Char → Bool} {t : Text} (kept : ∀ c ∈ t, p c = false) : trim p t = t := by
  have keeps {s : Text} (h : ∀ c ∈ s, p c = false) : s.dropWhile p = s := by
    cases s with
    | nil => rfl
    | cons c rest => simp [h c List.mem_cons_self]
  unfold trim trimLeft trimRight
  rw [keeps kept, keeps fun c mem => kept c (List.mem_reverse.1 mem), List.reverse_reverse]

theorem strip_of_inked {t : Text} (inked : ∀ c ∈ t, isBlank c = false) : strip t = t := trim_of_forall inked

/-- Characters of a class are dropped up to the first one and behind the last one of another class. -/
theorem trim_padded {p : Char → Bool} {left core right : Text} (dropped : ∀ c ∈ left, p c = true)
    (dropped' : ∀ c ∈ right, p c = true) (filled : core ≠ []) (first : ∀ c ∈ core.head?, p c = false)
    (last : ∀ c ∈ core.getLast?, p c = false) : trim p (left ++ core ++ right) = core := by
  have stops {s : Text} (rest : Text) (nonempty : s ≠ []) (begins : ∀ c ∈ s.head?, p c = false) :
      (s ++ rest).dropWhile p = s ++ rest := by
    obtain ⟨c, s, rfl⟩ := List.exists_cons_of_ne_nil nonempty
    exact List.dropWhile_cons_of_neg (by simp [begins c rfl])
  have ends : ∀ c ∈ core.reverse.head?, p c = false := by
    rwa [List.head?_reverse]
  have behind : ∀ c ∈ right.reverse, p c = true := fun c mem => dropped' c (List.mem_reverse.1 mem)
  have cut := stops [] (List.reverse_ne_nil_iff.2 filled) ends
  rw [List.append_nil] at cut
  unfold trim trimLeft trimRight
  rw [List.append_assoc, List.dropWhile_append_of_pos dropped, stops right filled first, List.reverse_append,
    List.dropWhile_append_of_pos behind, cut, List.reverse_reverse]

/-- More characters of the class at one of the ends are dropped as well, -/
theorem trim_append_left {p : Char → Bool} {left : Text} (dropped : ∀ c ∈ left, p c = true) (t : Text) :
    trim p (left ++ t) = trim p t := by
  rw [trim, trimLeft, List.dropWhile_append_of_pos dropped]
  rfl

/-- be it the left one or the right one. -/
theorem trim_append_right {p : Char → Bool} {right : Text} (dropped : ∀ c ∈ right, p c = true) (t : Text) :
    trim p (t ++ right) = trim p t := by
  have behind : ∀ c ∈ right.reverse, p c = true := fun c mem => dropped c (List.mem_reverse.1 mem)
  unfold trim trimLeft
  rw [List.dropWhile_append]
  split
  · next empty =>
    rw [List.isEmpty_iff.1 empty, List.dropWhile_eq_nil_iff.2 dropped]
  · rw [trimRight, List.reverse_append, List.dropWhile_append_of_pos behind]
    rfl

/-- Nothing is dropped from a text that has no character of the class at its ends. -/
theorem trim_of_ends {p : Char → Bool} {t : Text} (first : ∀ c ∈ t.head?, p c = false)
    (last : ∀ c ∈ t.getLast?, p c = false) : trim p t = t := by
  by_cases empty : t = []
  · subst empty
    rfl
  · have nowhere : ∀ c ∈ ([] : Text), p c = true := by simp
    have core := trim_padded nowhere nowhere empty first last
    rwa [List.nil_append, List.append_nil] at core

/-- A character of another class is not dropped. -/
theorem mem_trim {p : Char → Bool} {t : Text} {c : Char} (mem : c ∈ t) (kept : p c = false) : c ∈ trim p t := by
  have keeps {s : Text} (h : c ∈ s) : c ∈ s.dropWhile p := by
    have split : c ∈ s.takeWhile p ++ s.dropWhile p := by rwa [List.takeWhile_append_dropWhile]
    rcases List.mem_append.1 split with dropped | left
    · rw [List.mem_takeWhile_imp dropped] at kept
      cases kept
    · exact left
  exact List.mem_reverse.2 (keeps (List.mem_reverse.2 (keeps mem)))

theorem trailing_cons (p : Char → Bool) (c : Char) (t : Text) :
    trailing p (c :: t) = if p c && t.all p then c :: t else trailing p t := by
  unfold trailing
  rw [List.reverse_cons, List.takeWhile_append]
  by_cases all : t.all p = true
  · have whole : t.reverse.takeWhile p = t.reverse :=
      List.takeWhile_eq_self_iff.2 fun d mem => List.all_eq_true.1 all d (List.mem_reverse.1 mem)
    rw [whole, if_pos rfl, all, Bool.and_true]
    by_cases fits : p c = true <;> simp [fits]
  · have part : (t.reverse.takeWhile p).length ≠ t.reverse.length := by
      intro same
      have run := List.takeWhile_eq_self_iff.1 ((List.takeWhile_prefix p).eq_of_length same)
      exact all (List.all_eq_true.2 fun d mem => run d (List.mem_reverse.2 mem))
    rw [if_neg part, if_neg (by simp [all])]

/-- Characters of a class go on the run that they follow. -/
theorem trailing_append_run {p : Char → Bool} {run : Text} (all : ∀ c ∈ run, p c = true) (before : Text) :
    trailing p (before ++ run) = trailing p before ++ run := by
  rw [trailing, List.reverse_append, List.takeWhile_append_of_pos (fun c mem => all c (List.mem_reverse.1 mem)),
    List.reverse_append, List.reverse_reverse, trailing]

theorem trailing_eq_nil {p : Char → Bool} {t : Text} (ends : ∀ c ∈ t.getLast?, p c = false) :
    trailing p t = [] := by
  cases same : t.reverse with
  | nil => simp [trailing, same]
  | cons c rest =>
    have last : c ∈ t.getLast? := by simp [← List.head?_reverse, same]
    simp [trailing, same, ends c last]

/-- A run ends with the character that ends its text. -/
theorem getLast?_trailing {p : Char → Bool} {t : Text} {c : Char} (last : t.getLast? = some c) (fits : p c = true) :
    (trailing p t).getLast? = some c := by
  rw [← List.head?_reverse] at last
  cases same : t.reverse with
  | nil => simp [same] at last
  | cons d rest =>
    obtain rfl : d = c := by simpa [same] using last
    simp [trailing, same, fits]

/-- The last run of characters of a class, if such a run comes behind something else. -/
theorem trailing_append {p : Char → Bool} {before run : Text} (all : ∀ c ∈ run, p c = true)
    (ends : ∀ c ∈ before.getLast?, p c = false) : trailing p (before ++ run) = run := by
  rw [trailing_append_run all, trailing_eq_nil ends, List.nil_append]

theorem forall_mem_trailing {p : Char → Bool} {t : Text} {c : Char} (mem : c ∈ trailing p t) : p c = true :=
  List.mem_takeWhile_imp (List.mem_reverse.1 mem)

/-- A run ends in front of a character that is not of its class. -/
theorem last_trimRight {p : Char → Bool} {t : Text} {c : Char} (last : c ∈ (trimRight p t).getLast?) : p c = false := by
  rw [trimRight, List.getLast?_reverse] at last
  have stopped := List.head?_dropWhile_not p t.reverse
  rw [last] at stopped
  simpa using stopped

/-- In front of the last run of a class stands what is left without it. -/
theorem take_sub_trailing {p : Char → Bool} {t : Text} {k : Nat} (within : k ≤ t.length) :
    t.take (k - (trailing p (t.take k)).length) = trimRight p (t.take k) := by
  have parts := trimRight_append_trailing p (t.take k)
  have length := congrArg List.length parts
  rw [List.length_append, List.length_take, Nat.min_eq_left within] at length
  have shorter := congrArg (List.take (trimRight p (t.take k)).length) parts
  rw [List.take_left, List.take_take, Nat.min_eq_left (by omega)] at shorter
  rw [shorter, Nat.eq_sub_of_add_eq length]

/-- A text is what is left of it between the characters of a class that are cut off at both ends. -/
theorem exists_padding (p : Char → Bool) (t : Text) : ∃ left right, t = left ++ trim p t ++ right ∧
    (∀ c ∈ left, p c = true) ∧ (∀ c ∈ right, p c = true) ∧ (∀ c ∈ (trim p t).head?, p c = false) ∧
      ∀ c ∈ (trim p t).getLast?, p c = false := by
  have parts := trimRight_append_trailing p (trimLeft p t)
  refine ⟨t.takeWhile p, trailing p (trimLeft p t), ?_, fun c => List.mem_takeWhile_imp, fun c => forall_mem_trailing,
    fun c first => ?_, fun c => last_trimRight⟩
  · rw [List.append_assoc, trim, parts, trimLeft, List.takeWhile_append_dropWhile]
  · have begins := List.head?_dropWhile_not p t
    have inner : (trimRight p (trimLeft p t)).head? = some c := first
    have whole : (trimLeft p t).head? = some c := by
      rw [← parts, List.head?_append, inner]
      rfl
    rw [trimLeft] at whole
    rw [whole] at begins
    simpa using begins

theorem stripped?_eq_some_iff {t s : Text} : stripped? t = some s ↔ strip t = s ∧ s ≠ [] := by
  unfold stripped?
  split
  · next blank =>
    rw [blank]
    refine iff_of_false (Option.some_ne_none s).symm ?_
    rintro ⟨same, inked⟩
    exact inked same.symm
  · next c rest inked =>
    rw [inked, Option.some.injEq]
    exact ⟨fun same => ⟨same, same ▸ List.cons_ne_nil _ _⟩, And.left⟩

/-- The characters of a part of a text are those between its ends. -/
theorem mem_slice {t : Text} {c : Char} {start stop n : Nat} (there : t[n]? = some c) (reached : start ≤ n)
    (within : n < stop) : c ∈ t.slice start stop := by
  refine List.mem_iff_getElem?.2 ⟨n - start, ?_⟩
  rw [slice, List.getElem?_drop, Nat.add_sub_cancel' reached, List.getElem?_take, if_pos within, there]

/-- A place in texts with a mark between them is a place in one of the texts. -/
theorem exists_piece {α : Type} (text : α → Text) (mark : Char) (x : α) (more : List α) {n : Nat}
    (h : n ≤ (joinWith [mark] ((x :: more).map text)).length) : ∃ before here after i,
      x :: more = before ++ here :: after ∧ i ≤ (text here).length ∧
        n = ((before.map fun x => text x ++ [mark]).flatten).length + i := by
  induction more generalizing x n with
  | nil => exact ⟨[], x, [], n, rfl, h, by simp⟩
  | cons next more ih =>
    by_cases first : n ≤ (text x).length
    · exact ⟨[], x, next :: more, n, rfl, first, by simp⟩
    have length : (joinWith [mark] ((x :: next :: more).map text)).length =
        (text x).length + 1 + (joinWith [mark] ((next :: more).map text)).length := by
      simp [joinWith]
      omega
    obtain ⟨before, here, after, i, same, within, position⟩ :=
      ih next (n := n - ((text x).length + 1)) (by omega)
    refine ⟨x :: before, here, after, i, by rw [same, List.cons_append], within, ?_⟩
    rw [List.map_cons, List.flatten_cons, List.length_append, List.length_append, List.length_singleton]
    omega

/-- What holds of the characters of pieces and of the marks between them holds of them together. -/
theorem forall_mem_joinWith {P : Char → Prop} {glue : Text} {pieces : List Text} (between : ∀ c ∈ glue, P c)
    (h : ∀ t ∈ pieces, ∀ c ∈ t, P c) : ∀ c ∈ joinWith glue pieces, P c := by
  induction pieces with
  | nil => simp [joinWith]
  | cons t pieces ih =>
    obtain ⟨first, later⟩ := List.forall_mem_cons.1 h
    cases pieces with
    | nil => exact first
    | cons t' pieces =>
      simp only [joinWith, List.forall_mem_append]
      exact ⟨⟨first, between⟩, ih later⟩

theorem joinWith_eq_intercalate (glue : Text) (pieces : List Text) :
    joinWith glue pieces = glue.intercalate pieces := by
  induction pieces with
  | nil => rfl
  | cons t pieces ih =>
    cases pieces with
    | nil => simp [joinWith]
    | cons t' pieces => rw [joinWith, ih, List.intercalate_cons_cons]; simp

/-- The beginning of a part of a text. -/
theorem slice_part (before part after : Text) {n : Nat} (h : n ≤ part.length) :
    (before ++ part ++ after).slice before.length (before.length + n) = part.take n := by
  rw [slice, List.drop_take, List.append_assoc, List.drop_left, Nat.add_sub_cancel_left,
    List.take_append_of_le_length h]

end Text

end Typeahead
