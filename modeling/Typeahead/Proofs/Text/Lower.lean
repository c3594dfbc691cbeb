import Mathlib.Data.List.TakeWhile
import Typeahead.Proofs.Text.Lines
import Typeahead.Text.Case

/-!
Lower case of the beginning of a text. It begins the lower case of the whole text, but for one letter: a capital
sigma that ends a word at the cut, and none in the whole text, has another form there.

- `lower_prefix`: the rule.
- `backslash_mem_lower`: lower case leaves backslashes alone.
- `lower_of_ascii`, `lower_of_isLower`: in ASCII letters become small ones, and small letters stay.
- `ascii_or_kelvin`: only the sign of the Kelvin comes into ASCII by its small letter.
-/

namespace Typeahead.Text

/-- Whether the last character that case does not ignore is a capital sigma. -/
def endsSigma (t : Text) : Bool := (t.reverse.dropWhile isCaseIgnored).head?.any fun c => c.toNat = 0x3A3

/-- Whether a text is cut in two between a capital sigma and a cased letter. -/
def splitsSigma (before after : Text) : Bool := endsSigma before && beginsCased after

/-- What a text begins with is cased or not, whatever comes behind its first character that case does not ignore. -/
theorem beginsCased_append {t : Text} (s : Text) (counts : ∃ c ∈ t, isCaseIgnored c = false) :
    beginsCased (t ++ s) = beginsCased t := by
  have stops : ¬ (t.dropWhile isCaseIgnored).isEmpty = true := by
    rw [List.isEmpty_iff, List.dropWhile_eq_nil_iff]
    intro all
    obtain ⟨c, mem, counted⟩ := counts
    exact Bool.false_ne_true (counted.symm.trans (all c mem))
  unfold beginsCased
  rw [List.dropWhile_append, if_neg stops]
  cases same : t.dropWhile isCaseIgnored with
  | nil => simp [same] at stops
  | cons c rest => rfl

theorem beginsCased_of_ignored {t : Text} (ignored : ∀ c ∈ t, isCaseIgnored c = true) (s : Text) :
    beginsCased (t ++ s) = beginsCased s ∧ beginsCased t = false := by
  unfold beginsCased
  rw [List.dropWhile_append_of_pos ignored, List.dropWhile_eq_nil_iff.2 ignored]
  exact ⟨rfl, rfl⟩

theorem exists_sigma {t : Text} (h : endsSigma t = true) : ∃ c ∈ t, c.toNat = 0x3A3 := by
  unfold endsSigma at h
  cases same : t.reverse.dropWhile isCaseIgnored with
  | nil => simp [same] at h
  | cons c rest =>
    have mem : c ∈ t.reverse.dropWhile isCaseIgnored := same ▸ List.mem_cons_self
    exact ⟨c, List.mem_reverse.1 ((List.dropWhile_sublist _).subset mem), by simpa [same] using h⟩

theorem endsSigma_cons {c : Char} {t : Text} (h : endsSigma t = true) : endsSigma (c :: t) = true := by
  unfold endsSigma at h ⊢
  rw [List.reverse_cons, List.dropWhile_append]
  cases same : t.reverse.dropWhile isCaseIgnored with
  | nil => simp [same] at h
  | cons d rest => simpa [same] using h

theorem endsSigma_of_ignored {c : Char} {t : Text} (sigma : c.toNat = 0x3A3)
    (ignored : ∀ c ∈ t, isCaseIgnored c = true) : endsSigma (c :: t) = true := by
  obtain rfl : c = 'Σ' := Char.toNat_inj.1 (sigma.trans (by decide))
  have reversed : ∀ c ∈ t.reverse, isCaseIgnored c = true := fun c mem => ignored c (List.mem_reverse.1 mem)
  have counted : isCaseIgnored 'Σ' = false := by decide +kernel
  unfold endsSigma
  rw [List.reverse_cons, List.dropWhile_append_of_pos reversed]
  simp [counted]

/-- What comes behind a text changes its lower case only at a sigma that it splits from a letter. -/
theorem lowerFrom_append {before after : Text} (whole : splitsSigma before after = false) (afterCased : Bool) :
    ∃ cased, lowerFrom afterCased (before ++ after) = lowerFrom afterCased before ++ lowerFrom cased after := by
  induction before generalizing afterCased with
  | nil => exact ⟨afterCased, rfl⟩
  | cons c before ih =>
    have later : splitsSigma before after = false := by
      by_contra split
      obtain ⟨ends, begins⟩ : endsSigma before = true ∧ beginsCased after = true := by simpa [splitsSigma] using split
      rw [splitsSigma, endsSigma_cons ends, begins] at whole
      cases whole
    -- a sigma looks behind itself for a letter
    have looks : c.toNat = 0x3A3 → beginsCased (before ++ after) = beginsCased before := by
      intro sigma
      by_cases counts : ∃ d ∈ before, isCaseIgnored d = false
      · exact beginsCased_append after counts
      · have ignored : ∀ d ∈ before, isCaseIgnored d = true := by
          intro d mem
          by_contra counted
          exact counts ⟨d, mem, by simpa using counted⟩
        obtain ⟨beyond, here⟩ := beginsCased_of_ignored ignored after
        have ends := endsSigma_of_ignored sigma ignored
        have uncased : beginsCased after = false := by simpa [splitsSigma, ends] using whole
        rw [beyond, here, uncased]
    obtain ⟨cased, rest⟩ := ih later (if isCaseIgnored c then afterCased else isCased c)
    refine ⟨cased, ?_⟩
    rw [List.cons_append, lowerFrom, lowerFrom, rest, List.append_assoc]
    by_cases sigma : c.toNat = 0x3A3
    · rw [looks sigma]
    · simp [sigma]

/-- Lower case keeps the beginning of a text, if that splits no sigma from the letter behind it. -/
theorem lower_prefix {before after : Text} (whole : splitsSigma before after = false) :
    lower before <+: lower (before ++ after) := by
  obtain ⟨cased, same⟩ := lowerFrom_append whole false
  exact ⟨lowerFrom cased after, same.symm⟩

/-- A character leaves its lower case; a capital sigma that or the final one. -/
theorem mem_lowerFrom {c d : Char} {t : Text} (mem : c ∈ t) (small : d ∈ lowerChar c) (afterCased : Bool) :
    d ∈ lowerFrom afterCased t ∨ c.toNat = 0x3A3 ∧ Char.ofNat 0x3C2 ∈ lowerFrom afterCased t := by
  induction t generalizing afterCased with
  | nil => cases mem
  | cons e t ih =>
    rw [lowerFrom]
    rcases List.mem_cons.1 mem with rfl | later
    · split
      · next final =>
        simp only [Bool.and_eq_true, decide_eq_true_eq] at final
        exact .inr ⟨final.1.1, by simp⟩
      · exact .inl (List.mem_append_left _ small)
    · exact (ih later _).imp (List.mem_append_right _) (And.imp_right (List.mem_append_right _))

/-- What stands in lower case is the lower case of a character, or the final sigma. -/
theorem of_mem_lowerFrom {d : Char} {t : Text} {afterCased : Bool} (mem : d ∈ lowerFrom afterCased t) :
    d = Char.ofNat 0x3C2 ∨ ∃ c ∈ t, d ∈ lowerChar c := by
  induction t generalizing afterCased with
  | nil => cases mem
  | cons c t ih =>
    rw [lowerFrom] at mem
    rcases List.mem_append.1 mem with here | later
    · split at here
      · exact .inl (List.mem_singleton.1 here)
      · exact .inr ⟨c, List.mem_cons_self, here⟩
    · exact (ih later).imp_right fun ⟨e, among, small⟩ => ⟨e, List.mem_cons_of_mem _ among, small⟩

/-- Beyond ASCII no letter becomes a backslash, nor a character before it. -/
theorem backslash_lt_small : ∀ run ∈ capitalRuns, 0x5C < (run.first : Int) + run.shift := by
  decide +kernel

/-- A code point gives the character that has it; only the null character stands for others as well. -/
theorem toNat_of_ofNat_eq {n : Nat} {c : Char} (same : Char.ofNat n = c) (proper : c.toNat ≠ 0) : n = c.toNat := by
  subst same
  by_cases valid : n.isValidChar
  · rw [Char.ofNat, dif_pos valid]
    rfl
  · rw [Char.ofNat, dif_neg valid] at proper
    exact absurd rfl proper

/-- Only a backslash is a backslash in lower case. -/
theorem eq_backslash_of_mem_lowerChar {c : Char} (h : '\\' ∈ lowerChar c) : c = '\\' := by
  unfold lowerChar at h
  dsimp only at h
  split at h
  · next ascii =>
    exact holds_of_ascii (P := fun c => '\\' ∈ [c.toLower] → c = '\\') (by decide +kernel) ascii h
  · split at h
    · exact absurd h (by decide)
    · split at h
      · next run found =>
        have bound := backslash_lt_small run (List.mem_of_find?_eq_some found)
        have inside := List.find?_some found
        simp only [Bool.and_eq_true, decide_eq_true_eq] at inside
        have code := toNat_of_ofNat_eq (List.mem_singleton.1 h).symm (by decide)
        have escape : '\\'.toNat = 0x5C := rfl
        omega
      · exact (List.mem_singleton.1 h).symm

/-- Lower case neither brings nor takes a backslash. -/
theorem backslash_mem_lower {t : Text} : '\\' ∈ lower t ↔ '\\' ∈ t := by
  constructor
  · intro mem
    rcases of_mem_lowerFrom mem with final | ⟨c, among, small⟩
    · exact absurd final (by decide)
    · exact eq_backslash_of_mem_lowerChar small ▸ among
  · intro mem
    rcases mem_lowerFrom mem (d := '\\') (by decide) false with own | ⟨sigma, -⟩
    · exact own
    · exact absurd sigma (by decide)

/-- In ASCII every letter is replaced by the small one. -/
theorem lower_of_ascii {t : Text} (ascii : ∀ c ∈ t, c.toNat < 0x80) : lower t = t.map Char.toLower := by
  suffices all : ∀ afterCased, lowerFrom afterCased t = t.map Char.toLower from all false
  induction t with
  | nil => exact fun _ => rfl
  | cons c t ih =>
    intro afterCased
    obtain ⟨here, later⟩ := List.forall_mem_cons.1 ascii
    have other : c.toNat ≠ 0x3A3 := by omega
    simp only [lowerFrom, other, decide_false, Bool.false_and, if_false, lowerChar_ascii here, ih later,
      List.singleton_append, List.map_cons, Bool.false_eq_true]

/-- Small letters stay. -/
theorem lower_of_isLower {t : Text} (small : ∀ c ∈ t, c.isLower = true) : lower t = t := by
  have ascii (c : Char) (mem : c ∈ t) : c.toNat < 128 := toNat_lt_of_isAlphanum (isAlphanum_of_isLower (small c mem))
  have stays : ∀ c ∈ t, c.toLower = c := fun c mem =>
    holds_of_ascii (P := fun c => c.isLower = true → c.toLower = c) (by decide +kernel) (ascii c mem) (small c mem)
  rw [lower_of_ascii ascii, List.map_congr_left stays, List.map_id']

/-- The sign of the unit Kelvin: its small letter is the `k` of ASCII. -/
def kelvin : Char := Char.ofNat 0x212A

/-- Only the sign of the Kelvin leaves the other scripts by its small letter. -/
theorem shift_stays : ∀ run ∈ capitalRuns, (run.first = 0x212A ∧ run.last = 0x212A) ∨
    0x80 ≤ (run.first : Int) + run.shift ∧ ((run.last : Int) + run.shift < 0xD800 ∨
      0xDFFF < (run.first : Int) + run.shift ∧ (run.last : Int) + run.shift < 0x110000) := by
  decide +kernel

theorem toNat_ofNat {n : Nat} (valid : n.isValidChar) : (Char.ofNat n).toNat = n := by
  rw [Char.ofNat, dif_pos valid]
  rfl

/-- Beyond ASCII only the sign of the Kelvin has a small letter in ASCII. -/
theorem ascii_or_kelvin_of_lowerChar {c : Char} (small : ∀ d ∈ lowerChar c, d.toNat < 0x80) :
    c.toNat < 0x80 ∨ c = kelvin := by
  by_contra other
  obtain ⟨beyond, sign⟩ := not_or.1 other
  unfold lowerChar at small
  dsimp only at small
  rw [if_neg beyond] at small
  split at small
  · exact absurd (small (Char.ofNat 0x307) (by simp)) (by decide)
  · split at small
    · next run found =>
      have inside := List.find?_some found
      simp only [Bool.and_eq_true, decide_eq_true_eq] at inside
      rcases shift_stays run (List.mem_of_find?_eq_some found) with ⟨first, last⟩ | ⟨lower, upper⟩
      · have code : c.toNat = 0x212A := by omega
        exact sign (Char.toNat_inj.1 code)
      · have valid : (c.toNat + run.shift).toNat.isValidChar := by
          unfold Nat.isValidChar
          omega
        have ascii := small _ List.mem_cons_self
        rw [toNat_ofNat valid] at ascii
        omega
    · exact beyond (small c List.mem_cons_self)

/-- What is in ASCII in lower case is in ASCII, but for the sign of the Kelvin. -/
theorem ascii_or_kelvin {t : Text} (small : ∀ d ∈ lower t, d.toNat < 0x80) :
    ∀ c ∈ t, c.toNat < 0x80 ∨ c = kelvin := by
  intro c mem
  apply ascii_or_kelvin_of_lowerChar
  intro d own
  rcases mem_lowerFrom mem own false with here | ⟨-, final⟩
  · exact small d here
  · exact absurd (small _ final) (by decide)

end Typeahead.Text
