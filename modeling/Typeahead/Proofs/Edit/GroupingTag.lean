import Typeahead.Proofs.Edit.Splice
import Typeahead.Proofs.Metrics.Grouped
import Typeahead.Proofs.Suggestion.Offered
import Typeahead.Proofs.Text.Lower

/-!
Accepting a tag in a grouping.

- `Slot.accept`, `Grouped.listEntry_slot`: what becomes of the slot at the cursor.
- `Grouped.accept_groupingTag`: what becomes of the tags of the grouping.
- `Grouped.accept_groupingTag_shares_slot`: behind a tag and a blank the new tag gets no slot of its own.
-/

namespace Typeahead.Metrics

open Edit

/-- The entries of a list: what stands between its commas, without the blanks around it, if anything does. -/
def entriesOf (list : Text) : List Text := (List.splitOn ',' list).filterMap Text.stripped?

theorem entriesOf_joinWith {pieces : List Text} (filled : pieces ≠ []) (apart : ∀ t ∈ pieces, ',' ∉ t) :
    entriesOf (Text.joinWith [','] pieces) = pieces.filterMap Text.stripped? := by
  rw [entriesOf, Text.joinWith_eq_intercalate, List.splitOn_intercalate ',' apart filled]

/-- A text with blanks around it is stripped of them. -/
theorem stripped?_padded {left core right : Text} (blank : ∀ c ∈ left, isBlank c = true)
    (blank' : ∀ c ∈ right, isBlank c = true) (filled : core ≠ []) (first : ∀ c ∈ core.head?, isBlank c = false)
    (last : ∀ c ∈ core.getLast?, isBlank c = false) : Text.stripped? (left ++ core ++ right) = some core := by
  obtain ⟨c, rest, same⟩ := List.exists_cons_of_ne_nil filled
  rw [Text.stripped?, Text.strip, Text.trim_padded blank blank' filled first last, same]

theorem stripped?_blank {t : Text} (blank : ∀ c ∈ t, isBlank c = true) : Text.stripped? t = none := by
  have empty : Text.strip t = [] := by
    unfold Text.strip Text.trim Text.trimLeft Text.trimRight
    rw [List.dropWhile_eq_nil_iff.2 blank]
    rfl
  rw [Text.stripped?, empty]

namespace TagName

variable (a b : TagName)

theorem inked_head (c : Char) (first : c ∈ a.text.head?) : isBlank c = false :=
  a.inked c (List.mem_of_mem_head? first)

theorem inked_last (c : Char) (last : c ∈ a.text.getLast?) : isBlank c = false :=
  a.inked c (List.mem_of_getLast? last)

/-- There is no sigma in a simple name, so lower case keeps its beginning. -/
theorem lower_take (k : Nat) : Text.lower (a.text.take k) <+: a.text.lower := by
  have whole : Text.splitsSigma (a.text.take k) (a.text.drop k) = false := by
    by_contra split
    simp only [Text.splitsSigma, Bool.not_eq_false, Bool.and_eq_true] at split
    obtain ⟨c, among, sigma⟩ := Text.exists_sigma split.1
    obtain rfl : c = 'Σ' := Char.toNat_inj.1 (sigma.trans (by decide))
    exact absurd (List.all_eq_true.1 a.chars 'Σ' (List.mem_of_mem_take among)) (by decide)
  have begins := Text.lower_prefix whole
  rwa [List.take_append_drop] at begins

/-- A text between two tags, with blanks around them, is stripped of the blanks. -/
theorem stripped?_between (left mid right : Text) (blank : ∀ c ∈ left, isBlank c = true)
    (blank' : ∀ c ∈ right, isBlank c = true) :
    Text.stripped? (left ++ (a.text ++ mid ++ b.text) ++ right) = some (a.text ++ mid ++ b.text) := by
  apply stripped?_padded blank blank' (by simp [a.nonempty])
  · intro c first
    rw [List.append_assoc, List.head?_append_of_ne_nil _ a.nonempty] at first
    exact a.inked_head c first
  · intro c last
    rw [List.getLast?_append_of_ne_nil _ b.nonempty] at last
    exact b.inked_last c last

theorem stripped?_padded (left right : Text) (blank : ∀ c ∈ left, isBlank c = true)
    (blank' : ∀ c ∈ right, isBlank c = true) : Text.stripped? (left ++ a.text ++ right) = some a.text :=
  Metrics.stripped?_padded blank blank' a.nonempty a.inked_head a.inked_last

end TagName

namespace Gap

variable (gap : Gap) (k : Nat)

theorem blanks (c : Char) (mem : c ∈ gap.text) : Typeahead.isBlank c = true := (gap.isBlank c mem).1

theorem blank_take (c : Char) (mem : c ∈ gap.text.take k) : Typeahead.isBlank c = true :=
  gap.blanks c (List.mem_of_mem_take mem)

theorem blank_drop (c : Char) (mem : c ∈ gap.text.drop k) : Typeahead.isBlank c = true :=
  gap.blanks c (List.mem_of_mem_drop mem)

end Gap

/-- The tags of some slots. -/
def tagsOf (slots : List Slot) : List Text := slots.flatMap Slot.tags

/-- The entries of slots are their tags. -/
theorem filterMap_stripped? (slots : List Slot) : (slots.map Slot.text).filterMap Text.stripped? = tagsOf slots := by
  induction slots with
  | nil => rfl
  | cons s slots ih =>
    rw [List.map_cons, tagsOf, List.flatMap_cons, ← tagsOf, ← ih]
    cases s with
    | vacant gap => exact List.filterMap_cons_none (stripped?_blank gap.blanks)
    | tag left name right =>
      exact List.filterMap_cons_some (name.stripped?_padded left.text right.text
        left.blanks right.blanks)

namespace Slot

/-- What a slot becomes, if a tag is accepted behind its first `n` characters. -/
def accept (t : Text) (n : Nat) : Slot → List Text
  | vacant gap => [gap.text.take n ++ t ++ gap.text.drop n]
  | tag left name right =>
    if n < left.text.length then [left.text.take n ++ t ++ (left.text.drop n ++ name.text ++ right.text)]
    else if n = left.text.length then [left.text ++ name.text, t ++ right.text]
    else if n ≤ left.text.length + name.text.length then [left.text ++ t ++ right.text]
    else
      let k := n - (left.text.length + name.text.length)
      [left.text ++ name.text ++ right.text.take k ++ t ++ right.text.drop k]

/-- The entries that a slot has then. Among the blanks around its tag the new one is put there, without a comma. -/
def accepted (t : Text) (n : Nat) : Slot → List Text
  | vacant _ => [t]
  | tag left name right =>
    if n < left.text.length then [t ++ left.text.drop n ++ name.text]
    else if n = left.text.length then [name.text, t]
    else if n ≤ left.text.length + name.text.length then [t]
    else [name.text ++ right.text.take (n - (left.text.length + name.text.length)) ++ t]

/-- Whether a place in a slot touches its tag, if there is one. -/
def touched (n : Nat) : Slot → Prop
  | vacant _ => True
  | tag left name _ => left.text.length ≤ n ∧ n ≤ left.text.length + name.text.length

/-- No tag touches the place, so both share a slot; else the new one has a slot, its own or that of the other. -/
theorem accepted_eq_iff (s : Slot) (t : TagName) (n : Nat) :
    (s.accepted t.text n = [t.text] ∨ s.accepted t.text n = s.tags ++ [t.text]) ↔ s.touched n := by
  cases s with
  | vacant gap => simp [accepted, touched]
  | tag left name right =>
    have filled : 0 < name.text.length := List.length_pos_iff.2 name.nonempty
    have alone (x : Text) (longer : t.text.length < x.length) (two : List Text) (pair : two.length = 2) :
        ¬ ([x] = [t.text] ∨ [x] = two) := by
      rintro (same | same)
      · rw [List.head_eq_of_cons_eq same] at longer
        exact Nat.lt_irrefl _ longer
      · rw [← same] at pair
        cases pair
    simp only [accepted, touched, tags]
    split
    · next early =>
      have glued := alone (t.text ++ left.text.drop n ++ name.text) (by simp; omega) [name.text, t.text] rfl
      exact iff_of_false glued fun there => by omega
    · split
      · exact iff_of_true (.inr rfl) ⟨by omega, by omega⟩
      · split
        · exact iff_of_true (.inl rfl) ⟨by omega, by omega⟩
        · let k := n - (left.text.length + name.text.length)
          have glued := alone (name.text ++ right.text.take k ++ t.text) (by simp; omega) [name.text, t.text] rfl
          exact iff_of_false glued fun there => by omega

/-- The entries of what a slot becomes. -/
theorem stripped?_accept (s : Slot) (t : TagName) (n : Nat) :
    (s.accept t.text n).filterMap Text.stripped? = s.accepted t.text n := by
  have none : ∀ c ∈ ([] : Text), isBlank c = true := fun c mem => (by cases mem)
  cases s with
  | vacant gap => exact List.filterMap_cons_some (t.stripped?_padded _ _ (gap.blank_take n) (gap.blank_drop n))
  | tag left name right =>
    simp only [accept, accepted]
    split
    · have glued := t.stripped?_between name (left.text.take n) (left.text.drop n) right.text (left.blank_take n)
        right.blanks
      simp only [List.append_assoc] at glued ⊢
      exact List.filterMap_cons_some glued
    · split
      · have old := name.stripped?_padded left.text [] left.blanks none
        have new := t.stripped?_padded [] right.text none right.blanks
        rw [List.append_nil] at old
        rw [List.filterMap_cons_some old]
        exact congrArg (name.text :: ·) (List.filterMap_cons_some new)
      · split
        · exact List.filterMap_cons_some (t.stripped?_padded _ _ left.blanks right.blanks)
        · let k := n - (left.text.length + name.text.length)
          have glued := name.stripped?_between t left.text (right.text.take k) (right.text.drop k) left.blanks
            (right.blank_drop k)
          simp only [List.append_assoc] at glued ⊢
          exact List.filterMap_cons_some glued

/-- There are no other characters in it than those of the slot and of the tag. -/
theorem mem_accept {s : Slot} {t x : Text} {n : Nat} (mem : x ∈ s.accept t n) {c : Char} (own : c ∈ x) :
    c ∈ s.text ∨ c ∈ t := by
  cases s with
  | vacant gap =>
    rw [List.mem_singleton.1 mem] at own
    simp only [List.mem_append] at own
    rcases own with (there | new) | there
    · exact .inl (List.mem_of_mem_take there)
    · exact .inr new
    · exact .inl (List.mem_of_mem_drop there)
  | tag left name right =>
    simp only [accept] at mem
    simp only [text, List.mem_append]
    have taken (u : Text) (k : Nat) (there : c ∈ u.take k ∨ c ∈ u.drop k) : c ∈ u :=
      there.elim List.mem_of_mem_take List.mem_of_mem_drop
    grind

theorem unmarked_map (slots : List Slot) : ∀ x ∈ slots.map text, ∀ c ∈ x, c ≠ ',' ∧ c ≠ '}' := by
  intro x mem c own
  obtain ⟨s, -, rfl⟩ := List.mem_map.1 mem
  obtain ⟨-, -, -, comma, -, brace⟩ := s.plain c own
  exact ⟨comma, brace⟩

/-- There is neither a comma nor a brace in what a slot becomes. -/
theorem unmarked_accept (s : Slot) (t : TagName) (n : Nat) :
    ∀ x ∈ s.accept t.text n, ∀ c ∈ x, c ≠ ',' ∧ c ≠ '}' := by
  intro x mem c own
  rcases mem_accept mem own with old | new
  · obtain ⟨-, -, -, comma, -, brace⟩ := s.plain c old
    exact ⟨comma, brace⟩
  · have plain := (t.plain c new).1
    constructor <;> (rintro rfl; revert plain; decide)

theorem accept_ne_nil (s : Slot) (t : Text) (n : Nat) : s.accept t n ≠ [] := by
  cases s with
  | vacant gap => exact List.cons_ne_nil _ _
  | tag left name right =>
    simp only [accept]
    split
    · exact List.cons_ne_nil _ _
    · split
      · exact List.cons_ne_nil _ _
      · split <;> exact List.cons_ne_nil _ _

end Slot

namespace Grouped

variable (g : Grouped)

/-- The line with another list. -/
def textWith (list : Text) : Text := g.head ++ " by \x7b".toList ++ list ++ if g.closed then ['}'] else []

/-- The list with something else in the place of a slot. -/
def listWith (before : List Slot) (pieces : List Text) (after : List Slot) : Text :=
  Text.joinWith [','] (before.map Slot.text ++ pieces ++ after.map Slot.text)

theorem textWith_list : g.textWith g.list = g.text := by
  simp [textWith, text, listing, list]

/-- The line with one piece in the place of a slot. -/
theorem textWith_piece (before after : List Slot) (x : Text) :
    g.textWith (listWith before [x] after) = g.upTo before ++ x ++ g.behind after := by
  have split := listing_split (g.head ++ " by ".toList) (before.map Slot.text) x (after.map Slot.text) g.closed
  rw [upTo, behind, ← split]
  simp [textWith, listWith, listing]

/-- The line with two pieces in the place of a slot. -/
theorem textWith_pieces (before after : List Slot) (x y : Text) :
    g.textWith (listWith before [x, y] after) = g.upTo before ++ (x ++ ',' :: y) ++ g.behind after := by
  have split := listing_split (g.head ++ " by ".toList) (before.map Slot.text) x (y :: after.map Slot.text) g.closed
  have behind : listingBehind (y :: after.map Slot.text) g.closed = ',' :: y ++ g.behind after := by
    simp [listingBehind, Grouped.behind]
  rw [behind] at split
  rw [upTo, List.append_assoc, List.append_assoc x, ← List.append_assoc, ← split]
  simp [textWith, listWith, listing]

/-- In front of a cursor among the blanks at the beginning of a slot stands a mark or a blank. -/
theorem last_front (before : List Slot) {a : Text} (blank : ∀ c ∈ a.getLast?, isBlank c = true) :
    ∀ c ∈ (g.upTo before ++ a).getLast?, c = '{' ∨ c = ',' ∨ isBlank c = true := by
  intro c last
  rw [List.getLast?_append] at last
  cases ends : a.getLast? with
  | some d =>
    obtain rfl : d = c := by simpa [ends] using last
    exact .inr (.inr (blank d ends))
  | none =>
    have marked : (g.upTo before).getLast? = some c := by simpa [ends] using last
    rcases listingUpTo_last (g.head ++ " by ".toList) (before.map Slot.text) with brace | comma
    · exact .inl (Option.some.inj (marked.symm.trans brace))
    · exact .inr (.inl (Option.some.inj (marked.symm.trans comma)))

/-- Behind a cursor among the blanks at the end of a slot no key goes on. -/
theorem first_behind {b : Text} (blank : ∀ c ∈ b.head?, isBlank c = true) (after : List Slot) :
    ∀ c ∈ (b ++ g.behind after).head?, isKeyPart c = false := by
  intro c first
  cases b with
  | nil => rcases listingBehind_head first with rfl | rfl <;> decide
  | cons d b =>
    obtain rfl : d = c := Option.some.inj first
    exact not_isKeyPart_of_isBlank (blank d rfl)

section

variable {before after : List Slot} {s : Slot} (same : g.slots = before ++ s :: after) (t : TagName)

include same

/-- Among blanks a tag is put in without a comma. -/
theorem listEntry_blank {a b : Text} (split : s.text = a ++ b) (blank : ∀ c ∈ a.getLast?, isBlank c = true)
    (blank' : ∀ c ∈ b.head?, isBlank c = true) :
    (listEntry g.text ((g.upTo before).length + a.length) t.text t.text).text =
      g.upTo before ++ (a ++ t.text ++ b) ++ g.behind after := by
  have line : g.text = (g.upTo before ++ a) ++ (b ++ g.behind after) := by
    rw [g.text_split same, split]
    simp only [List.append_assoc]
  have edit := listEntry_between (line ▸ g.inside) (g.last_front before blank) (g.first_behind blank' after) t.text
    t.text
  rw [← line, List.length_append] at edit
  rw [edit]
  simp only [List.append_assoc]

end

section

variable {before after : List Slot} {left right : Gap} {name : TagName}
  (same : g.slots = before ++ .tag left name right :: after) (t : TagName)

include same

/-- A tag is a word between blanks and marks. -/
theorem text_name : g.text = (g.upTo before ++ left.text) ++ name.text ++ (right.text ++ g.behind after) := by
  rw [g.text_split same]
  simp only [Slot.text, List.append_assoc]

/-- In front of a tag, behind the blanks before it, a new one is put behind it with a comma. -/
theorem listEntry_front : (listEntry g.text ((g.upTo before).length + left.text.length) t.text t.text).text =
    g.upTo before ++ ((left.text ++ name.text) ++ ',' :: (t.text ++ right.text)) ++ g.behind after := by
  have line := g.text_name same
  have begins := g.last_front before fun c last => left.blanks c (List.mem_of_getLast? last)
  have ends := g.first_behind (fun c first => right.blanks c (List.mem_of_mem_head? first)) after
  have joined : ((Text.trailing (· != '{') (g.upTo before ++ left.text) ++ name.text).getLast?.any
      fun c => c != ',' && c != '(' && !isBlank c) = true := by
    rw [List.getLast?_append_of_ne_nil _ name.nonempty]
    cases last : name.text.getLast? with
    | none => exact absurd (List.getLast?_eq_none_iff.1 last) name.nonempty
    | some c =>
      obtain ⟨plain, -⟩ := name.plain c (List.mem_of_getLast? last)
      have comma : c ≠ ',' := by rintro rfl; revert plain; decide
      have paren : c ≠ '(' := by rintro rfl; revert plain; decide
      simp [comma, paren, name.inked_last c last]
  have edit := listEntry_untyped (line ▸ g.inside) name.isKeyPart
    (fun c last => not_isKeyPart_of_between (begins c last)) ends (Nat.zero_le _) t.text t.text (name.bareKey_take 0)
  have whole := splice_parts (g.upTo before ++ left.text ++ name.text) [] (right.text ++ g.behind after) (',' :: t.text)
  rw [List.append_nil] at whole
  rw [joined, if_pos rfl, whole, ← line, List.length_append, Nat.add_zero] at edit
  rw [edit]
  simp only [List.append_assoc, List.cons_append]

/-- A tag of which a part is typed is replaced. -/
theorem listEntry_name {k : Nat} (typed : 0 < k) (within : k ≤ name.text.length)
    (holds : Text.occurs name.text.lower t.text.lower = true) :
    (listEntry g.text ((g.upTo before).length + (left.text.length + k)) t.text t.text).text =
      g.upTo before ++ (left.text ++ t.text ++ right.text) ++ g.behind after := by
  have line := g.text_name same
  have begins := g.last_front before fun c last => left.blanks c (List.mem_of_getLast? last)
  have ends := g.first_behind (fun c first => right.blanks c (List.mem_of_mem_head? first)) after
  have length : (name.text.take k).length = k := by rw [List.length_take, Nat.min_eq_left within]
  have filled : name.text.take k ≠ [] := by
    rw [ne_eq, ← List.length_eq_zero_iff]
    omega
  have part : Text.occurs (Text.lower (name.text.take k)) t.text.lower = true := by
    have inside := (name.lower_take k).isInfix.trans (Text.occurs_iff.1 holds)
    exact Text.occurs_iff.2 inside
  have uncoloned : overColon g.text (g.upTo before ++ left.text ++ name.text).length t.text =
      (g.upTo before ++ left.text ++ name.text).length := by
    have colonless : t.text.getLast? ≠ some ':' := by
      intro last
      exact absurd (t.plain ':' (List.mem_of_getLast? last)).1 (by decide)
    simp [overColon, colonless]
  have edit := listEntry_typed (line ▸ g.inside) name.isKeyPart
    (fun c last => not_isKeyPart_of_between (begins c last)) ends within t.text (name.bareKey_take k) filled part
  have start : (g.upTo before ++ left.text).length + k - (name.text.take k).length =
      (g.upTo before ++ left.text).length := by
    rw [length, Nat.add_sub_cancel]
  rw [← line, uncoloned, start, line, splice_parts, ← line, List.length_append, Nat.add_assoc] at edit
  rw [edit]
  simp only [List.append_assoc]

/-- Among the blanks before a tag a new one is put in. -/
theorem listEntry_early {n : Nat} (early : n < left.text.length) :
    (listEntry g.text ((g.upTo before).length + n) t.text t.text).text =
      g.upTo before ++ (left.text.take n ++ t.text ++ (left.text.drop n ++ name.text ++ right.text)) ++
        g.behind after := by
  have split : Slot.text (.tag left name right) =
      left.text.take n ++ (left.text.drop n ++ name.text ++ right.text) := by
    simp [Slot.text, ← List.append_assoc, List.take_append_drop]
  have length : (left.text.take n).length = n := List.length_take_of_le early.le
  have filled : left.text.drop n ≠ [] := by simpa using early
  have edit := g.listEntry_blank same t split
    (fun c last => left.blank_take n c (List.mem_of_getLast? last)) fun c first => by
      rw [List.append_assoc, List.head?_append_of_ne_nil _ filled] at first
      exact left.blank_drop n c (List.mem_of_mem_head? first)
  rwa [length] at edit

/-- Among the blanks behind a tag a new one is put in. -/
theorem listEntry_late {k : Nat} (late : 0 < k) (within : k ≤ right.text.length) :
    (listEntry g.text ((g.upTo before).length + (left.text.length + name.text.length + k)) t.text t.text).text =
      g.upTo before ++ (left.text ++ name.text ++ right.text.take k ++ t.text ++ right.text.drop k) ++
        g.behind after := by
  have split : Slot.text (.tag left name right) =
      left.text ++ name.text ++ right.text.take k ++ right.text.drop k := by
    simp [Slot.text]
  have taken : (right.text.take k).length = k := List.length_take_of_le within
  have filled : right.text.take k ≠ [] := by
    rw [ne_eq, ← List.length_eq_zero_iff]
    omega
  have edit := g.listEntry_blank same t split (fun c last => by
      rw [List.getLast?_append_of_ne_nil _ filled] at last
      exact right.blank_take k c (List.mem_of_getLast? last))
    fun c first => right.blank_drop k c (List.mem_of_mem_head? first)
  rwa [List.length_append, List.length_append, taken] at edit

end

/-- Accepting a tag in a slot changes the slot, and nothing else. -/
theorem listEntry_slot {before after : List Slot} {s : Slot} (same : g.slots = before ++ s :: after) (t : TagName)
    {n : Nat} (within : n ≤ s.text.length)
    (holds : 0 < n → Text.occurs (Text.strip s.text).lower t.text.lower = true) :
    (listEntry g.text ((g.upTo before).length + n) t.text t.text).text =
      g.textWith (listWith before (s.accept t.text n) after) := by
  cases s with
  | vacant gap =>
    have length : (gap.text.take n).length = n := List.length_take_of_le within
    have edit := g.listEntry_blank same t (List.take_append_drop n gap.text).symm
      (fun c last => gap.blank_take n c (List.mem_of_getLast? last))
      fun c first => gap.blank_drop n c (List.mem_of_mem_head? first)
    rw [length] at edit
    rw [edit, Slot.accept, textWith_piece]
  | tag left name right =>
    have total : (Slot.text (.tag left name right)).length =
        left.text.length + name.text.length + right.text.length := by
      simp [Slot.text, Nat.add_assoc]
    have strip : Text.strip (Slot.text (.tag left name right)) = name.text :=
      Text.trim_padded left.blanks right.blanks name.nonempty name.inked_head name.inked_last
    rw [strip] at holds
    simp only [Slot.accept]
    by_cases early : n < left.text.length
    · rw [if_pos early, g.listEntry_early same t early, textWith_piece]
    · rw [if_neg early]
      by_cases front : n = left.text.length
      · rw [if_pos front, front, g.listEntry_front same t, textWith_pieces]
      · rw [if_neg front]
        by_cases inner : n ≤ left.text.length + name.text.length
        · obtain ⟨k, rfl⟩ := Nat.exists_eq_add_of_lt (Nat.lt_of_le_of_ne (Nat.le_of_not_lt early) (Ne.symm front))
          have edit := g.listEntry_name same t (Nat.succ_pos k) (by omega) (holds (by omega))
          rw [if_pos inner, Nat.add_assoc left.text.length, edit, textWith_piece]
        · obtain ⟨k, rfl⟩ := Nat.exists_eq_add_of_lt (Nat.lt_of_not_le inner)
          have behind : left.text.length + name.text.length + k + 1 - (left.text.length + name.text.length) =
              k + 1 := by omega
          rw [if_neg inner, behind, Nat.add_assoc _ k, g.listEntry_late same t (Nat.succ_pos k) (by omega),
            textWith_piece]

/-- The entries of a list in which a slot was changed. -/
theorem entriesOf_listWith (before after : List Slot) (s : Slot) (t : TagName) (n : Nat) :
    entriesOf (listWith before (s.accept t.text n) after) =
        tagsOf before ++ s.accepted t.text n ++ tagsOf after ∧
      '}' ∉ listWith before (s.accept t.text n) after := by
  let pieces := before.map Slot.text ++ s.accept t.text n ++ after.map Slot.text
  have filled : pieces ≠ [] := by simp [pieces, s.accept_ne_nil]
  have unmarked : ∀ x ∈ pieces, ∀ c ∈ x, c ≠ ',' ∧ c ≠ '}' := List.forall_mem_append.2
    ⟨List.forall_mem_append.2 ⟨Slot.unmarked_map before, s.unmarked_accept t n⟩, Slot.unmarked_map after⟩
  constructor
  · have entries := entriesOf_joinWith filled fun x mem own => (unmarked x mem ',' own).1 rfl
    rw [listWith, entries, List.filterMap_append, List.filterMap_append, filterMap_stripped?, filterMap_stripped?,
      s.stripped?_accept]
  · intro own
    exact Text.forall_mem_joinWith (P := (· ≠ '}')) (by simp) (fun x mem c own => (unmarked x mem c own).2) _ own rfl

/-- Accepting a tag in a grouping. The cursor stands in a slot. Only that slot changes: no other entry of the list
does. If the cursor touches the tag of the slot, or there is none, that tag is replaced or the new one becomes an
entry of its own; but among the blanks around the tag of the slot both get into one entry. -/
theorem accept_groupingTag {cursor : Int} {names : Candidates} {limit : Int} {item : Typeahead.Item}
    (place : (contextOf g.text cursor).place = .groupingTag)
    (offered : item ∈ suggest (contextOf g.text cursor) names limit) (t : TagName) (label : item.label = t.text) :
    ∃ before s after n, g.slots = before ++ s :: after ∧ n ≤ s.text.length ∧
      g.text.clamp cursor = (g.upTo before).length + n ∧ item.kind = .groupingTag ∧
      g.text = g.textWith g.list ∧ entriesOf g.list = tagsOf before ++ s.tags ++ tagsOf after ∧
      ∃ list, (Edit.accept g.text cursor item (contextOf g.text cursor)).text = g.textWith list ∧ '}' ∉ list ∧
        entriesOf list = tagsOf before ++ s.accepted t.text n ++ tagsOf after ∧
        ((s.accepted t.text n = [t.text] ∨ s.accepted t.text n = s.tags ++ [t.text]) ↔ s.touched n) := by
  obtain ⟨before, s, after, n, same, within, there⟩ := g.exists_slot place
  obtain ⟨kind, insert, holds⟩ := Suggestion.grouping_of_offered offered place
  have token := (g.contextOf_slot same within).2
  have accepted : Edit.accept g.text cursor item (contextOf g.text cursor) =
      listEntry g.text ((g.upTo before).length + n) t.text t.text := by
    rw [accept, acceptAt, kind, there, insert, label]
  have clamped : contextOf g.text cursor = contextOf g.text (g.text.clamp cursor : Nat) := by
    rw [g.contextOf_eq, g.contextOf_eq, g.text.clamp_of_le (g.text.clamp_le cursor)]
  have typed : 0 < n → Text.occurs (Text.strip s.text).lower t.text.lower = true := by
    intro later
    rwa [clamped, there, token, if_neg (Nat.ne_of_gt later), label] at holds
  have old : entriesOf g.list = tagsOf before ++ s.tags ++ tagsOf after := by
    have entries := entriesOf_joinWith (List.map_eq_nil_iff.not.2 g.filled)
      fun x mem own => (Slot.unmarked_map g.slots x mem ',' own).1 rfl
    rw [list, entries, filterMap_stripped?, same]
    simp [tagsOf]
  obtain ⟨entries, braceless⟩ := entriesOf_listWith before after s t n
  refine ⟨before, s, after, n, same, within, there, kind, g.textWith_list.symm, old,
    listWith before (s.accept t.text n) after, ?_, braceless, entries, s.accepted_eq_iff t n⟩
  rw [accepted, g.listEntry_slot same t within typed]

/-- The grouping of a metric by one tag, with blanks behind it. -/
def single (right : Gap) : Grouped :=
  let host : TagName := ⟨"host".toList, by decide, by decide⟩
  named ⟨"m".toList, by decide, by decide⟩ [.tag ⟨[], rfl⟩ host right] (by simp) true

/-- The item of a tag that is found by the beginning of its name. -/
def tagItem (key : Text) : Typeahead.Item :=
  { label := key, kind := .groupingTag, insert := key, sortKey := "10_".toList ++ key, detail? := some "Group by tag" }

theorem accept_groupingTag_hostname :
    let g := single ⟨[], rfl⟩
    let item := tagItem "hostname".toList
    let names : Candidates := fun _ => ["hostname:a".toList]
    g.text = "m by \x7bhost\x7d".toList ∧ (contextOf g.text 8).place = .groupingTag ∧
    item ∈ suggest (contextOf g.text 8) names 10 ∧
    ∃ list, (Edit.accept g.text 8 item (contextOf g.text 8)).text = g.textWith list ∧
      entriesOf list = ["hostname".toList] := by
  intro g item names
  have place : (contextOf g.text 8).place = .groupingTag := by decide +kernel
  have offered : item ∈ suggest (contextOf g.text 8) names 10 := by decide +kernel
  obtain ⟨before, s, after, n, same, -, there, -, -, -, list, text, -, entries, -⟩ :=
    g.accept_groupingTag place offered ⟨"hostname".toList, by decide, by decide⟩ rfl
  refine ⟨by decide, place, offered, list, text, ?_⟩
  have eight : g.text.clamp 8 = 8 := by decide
  have six : (g.upTo []).length = 6 := by decide
  cases before with
  | cons first before => simp [g, single, named] at same
  | nil =>
    obtain ⟨rfl, rfl⟩ := List.cons.inj same
    obtain rfl : n = 2 := by omega
    exact entries

/-- Behind a tag and a blank no comma is written, and the list has one entry as before, which is neither tag. -/
theorem accept_groupingTag_shares_slot :
    let g := single ⟨[' '], by decide⟩
    let item := tagItem "hostname".toList
    let names : Candidates := fun _ => ["hostname:a".toList]
    g.text = "m by \x7bhost \x7d".toList ∧ (contextOf g.text 11).place = .groupingTag ∧
    item ∈ suggest (contextOf g.text 11) names 10 ∧ entriesOf g.list = ["host".toList] ∧
    (Edit.accept g.text 11 item (contextOf g.text 11)).text = g.textWith "host hostname".toList ∧
    entriesOf "host hostname".toList = ["host hostname".toList] := by
  decide +kernel

end Grouped

end Typeahead.Metrics
