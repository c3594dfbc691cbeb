import Mathlib.Order.Bounds.Defs
import Typeahead.Text.Units

/-!
Positions counted in UTF-16 code units and back.

- `ofUnits_toUnits`: the way back leads to the same position.
- `ofUnits_le_iff`: an offset is counted off at a position, or the text ends there.
- `units_correspond`: how positions and offsets belong together.
-/

namespace Typeahead

theorem unitWidth_pos (c : Char) : 0 < unitWidth c := by
  unfold unitWidth
  split <;> decide

namespace Text

/-- Counting on stops at the position whose units are counted off: before it too few have passed. -/
theorem positionFrom_units (passed : Nat) {t : Text} {position : Nat} (inside : position ≤ t.length) :
    positionFrom (passed + units (t.take position) : Nat) passed t = position := by
  induction t generalizing passed position with
  | nil => exact (Nat.le_zero.1 inside).symm
  | cons c t ih =>
    cases position with
    | zero => simp [positionFrom, units]
    | succ position =>
      have wide := unitWidth_pos c
      have more : ¬ ((passed + units ((c :: t).take (position + 1)) : Nat) : Int) ≤ passed := by
        simp only [List.take_succ_cons, units]
        omega
      have rest := ih (passed + unitWidth c) (Nat.le_of_succ_le_succ inside)
      rw [positionFrom, if_neg more, List.take_succ_cons, units, ← Nat.add_assoc, rest]

/-- A position counted in code units and back is the same position. -/
theorem ofUnits_toUnits (t : Text) (position : Int) : ofUnits t (toUnits t position) = clamp t position := by
  have found := positionFrom_units 0 (clamp_le t position)
  rwa [Nat.zero_add] at found

/-- Counting on has stopped at a position if and only if enough units have passed there, or the text ends. -/
theorem positionFrom_le_iff (offset : Int) (passed : Nat) (t : Text) (position : Nat) :
    positionFrom offset passed t ≤ position ↔
      t.length ≤ position ∨ offset ≤ (passed + units (t.take position) : Nat) := by
  induction t generalizing passed position with
  | nil => simp [positionFrom]
  | cons c t ih =>
    rw [positionFrom]
    by_cases enough : offset ≤ passed
    · rw [if_pos enough]
      exact iff_of_true (Nat.zero_le _) (.inr (by omega))
    · rw [if_neg enough]
      cases position with
      | zero =>
        refine iff_of_false (Nat.not_succ_le_zero _) ?_
        simpa [units] using enough
      | succ position =>
        rw [Nat.succ_le_succ_iff, ih, List.length_cons, Nat.succ_le_succ_iff, List.take_succ_cons, units, Nat.add_assoc]

theorem ofUnits_le_iff {t : Text} {offset : Int} {position : Nat} :
    ofUnits t offset ≤ position ↔ t.length ≤ position ∨ offset ≤ (units (t.take position) : Nat) := by
  rw [ofUnits, positionFrom_le_iff, Nat.zero_add]

theorem toUnits_of_le {t : Text} {position : Nat} (inside : position ≤ t.length) :
    toUnits t position = units (t.take position) := by
  rw [toUnits, clamp_of_le t inside]

/-- The units of a character are counted behind it. -/
theorem units_take_succ {t : Text} {position : Nat} {c : Char} (there : t[position]? = some c) :
    units (t.take (position + 1)) = units (t.take position) + unitWidth c := by
  induction t generalizing position with
  | nil => cases there
  | cons d t ih =>
    cases position with
    | zero =>
      obtain rfl : d = c := by simpa using there
      simp [units]
    | succ position =>
      rw [List.take_succ_cons, units, ih there, List.take_succ_cons, units, Nat.add_assoc]

theorem units_take_mono {t : Text} {position further : Nat} (before : position ≤ further) :
    units (t.take position) ≤ units (t.take further) := by
  induction t generalizing position further with
  | nil => simp
  | cons c t ih =>
    cases position with
    | zero => exact Nat.zero_le _
    | succ position =>
      cases further with
      | zero => exact absurd before (Nat.not_succ_le_zero _)
      | succ further => exact Nat.add_le_add_left (ih (Nat.le_of_succ_le_succ before)) _

theorem toUnits_mono {t : Text} {position further : Int} (before : position ≤ further) :
    toUnits t position ≤ toUnits t further := by
  apply units_take_mono
  unfold clamp
  omega

theorem ofUnits_mono {t : Text} {offset further : Int} (before : offset ≤ further) :
    ofUnits t offset ≤ ofUnits t further := by
  rw [ofUnits_le_iff]
  exact (ofUnits_le_iff.1 (Nat.le_refl _)).imp_right (Int.le_trans before)

theorem ofUnits_le (t : Text) (offset : Int) : ofUnits t offset ≤ t.length :=
  ofUnits_le_iff.2 (.inl (Nat.le_refl _))

/-- Where enough units are counted at some position, the offset is counted off at the first such position. -/
theorem isLeast_ofUnits {t : Text} {offset : Int} {position : Nat} (inside : position ≤ t.length)
    (enough : offset ≤ toUnits t position) :
    IsLeast {j : Nat | j ≤ t.length ∧ offset ≤ toUnits t j} (ofUnits t offset) := by
  constructor
  · refine ⟨ofUnits_le t offset, ?_⟩
    rcases ofUnits_le_iff.1 (Nat.le_refl (ofUnits t offset)) with ended | counted
    · -- at the end as many units are counted as at any position
      have further : (position : Int) ≤ ofUnits t offset := by omega
      have more := toUnits_mono (t := t) further
      omega
    · rwa [toUnits_of_le (ofUnits_le t offset)]
  · rintro j ⟨inside, enough⟩
    rw [toUnits_of_le inside] at enough
    exact ofUnits_le_iff.2 (.inr enough)

/-- Where too few units are counted everywhere, the offset is counted off at the end. -/
theorem ofUnits_of_lt {t : Text} {offset : Int} (few : ∀ j ≤ t.length, (toUnits t j : Int) < offset) :
    ofUnits t offset = t.length := by
  have within := ofUnits_le t offset
  have counted := few _ within
  rw [toUnits_of_le within] at counted
  rcases ofUnits_le_iff.1 (Nat.le_refl (ofUnits t offset)) with ended | enough
  · exact Nat.le_antisymm within ended
  · omega

/-- How the positions of a text and the offsets in code units belong together. -/
structure Correspond (t : Text) : Prop where
  /-- A character beyond the basic plane is a pair of units, any other one is a single unit. -/
  width : ∀ (j : Nat) c, t[j]? = some c → toUnits t (j + 1 : Nat) = toUnits t j + if 0xFFFF < c.toNat then 2 else 1
  back : ∀ position : Int, ofUnits t (toUnits t position) = clamp t position
  least : ∀ offset : Int, IsLeast {j : Nat | j ≤ t.length ∧ offset ≤ toUnits t j} (ofUnits t offset) ∨
    (∀ j ≤ t.length, (toUnits t j : Int) < offset) ∧ ofUnits t offset = t.length
  units_mono : ∀ position further : Int, position ≤ further → toUnits t position ≤ toUnits t further
  positions_mono : ∀ offset further : Int, offset ≤ further → ofUnits t offset ≤ ofUnits t further
  /-- An offset between the two units of a pair is that of the place behind the character. -/
  amid : ∀ (j : Nat) c, t[j]? = some c → 0xFFFF < c.toNat → ofUnits t (toUnits t j + 1 : Nat) = j + 1

/-- Offsets in code units are those of the positions, which are got back from them. -/
theorem units_correspond (t : Text) : Correspond t := by
  have width {j : Nat} {c : Char} (there : t[j]? = some c) :
      toUnits t (j + 1 : Nat) = toUnits t j + unitWidth c := by
    have inside : j < t.length := (List.getElem?_eq_some_iff.1 there).1
    rw [toUnits_of_le inside, toUnits_of_le (Nat.le_of_lt inside), units_take_succ there]
  constructor
  case width =>
    intro j c there
    exact width there
  case back => exact ofUnits_toUnits t
  case least =>
    intro offset
    by_cases enough : ∃ j ≤ t.length, offset ≤ toUnits t j
    · obtain ⟨j, inside, enough⟩ := enough
      exact .inl (isLeast_ofUnits inside enough)
    · have few : ∀ j ≤ t.length, (toUnits t j : Int) < offset := by
        intro j inside
        exact Int.not_le.1 fun counted => enough ⟨j, inside, counted⟩
      exact .inr ⟨few, ofUnits_of_lt few⟩
  case units_mono =>
    intro position further before
    exact toUnits_mono before
  case positions_mono =>
    intro offset further before
    exact ofUnits_mono before
  case amid =>
    intro j c there paired
    have within : j + 1 ≤ t.length := (List.getElem?_eq_some_iff.1 there).1
    have behind := width there
    rw [unitWidth, if_pos paired] at behind
    have least : IsLeast {i : Nat | i ≤ t.length ∧ (toUnits t j + 1 : Nat) ≤ (toUnits t i : Int)}
        (ofUnits t (toUnits t j + 1 : Nat)) := isLeast_ofUnits within (by omega)
    apply Nat.le_antisymm
    · exact least.2 ⟨within, by omega⟩
    · -- up to the character too few units are counted
      apply Nat.lt_of_not_le
      intro before
      have counted := toUnits_mono (t := t) (Int.ofNat_le.2 before)
      have enough := least.1.2
      omega

end Text

end Typeahead
