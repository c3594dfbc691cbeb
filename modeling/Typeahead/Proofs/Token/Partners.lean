import Typeahead.Proofs.Token.Nests

/-!
Partners of marks in a list that need not nest. A mark is closed by the first closing one behind it such that the marks
between them nest; a closing mark that finds none open closes nothing.

- `ClosedBy`, `closedBy_iff`: partners, and the scan that finds them.
- `strays`, `covered_iff_strays_le`: how many closing marks close nothing.
- `nests_iff_strays`: marks nest if none of them is a stray and each opening one is closed.
-/

namespace Typeahead

/-- A mark is closed by another one: that stands behind it, the marks between them nest, and of no closing mark
between them that holds. -/
structure ClosedBy (left right : TokenKind) (f : Focus) (t : Token) : Prop where
  opens : f.token.kind = left
  closes : t.kind = right
  between : ∃ inner rest, f.after = inner ++ t :: rest ∧ Nests left right (inner.map (·.kind)) ∧
    ∀ front u back, inner = front ++ u :: back → u.kind = right → ¬Nests left right (front.map (·.kind))

section

variable {left right : TokenKind} {f : Focus} {t : Token}

/-- An opening mark is closed by the mark that a scan behind it finds. -/
theorem closedBy_iff (apart : left ≠ right) (opens : f.token.kind = left) :
    ClosedBy left right f t ↔ stray? left right 0 f.after = some t := by
  constructor
  · intro closed
    obtain ⟨inner, rest, same, nests, -⟩ := closed.between
    apply (stray?_eq_some_iff apart).2
    exact ⟨inner, rest, same, closed.closes, (nests_iff apart).1 nests⟩
  · intro found
    obtain ⟨inner, rest, same, closes, settles⟩ := (stray?_eq_some_iff apart).1 found
    refine ⟨opens, closes, inner, rest, same, (nests_iff apart).2 settles, ?_⟩
    -- an earlier mark of that kind would be one that finds none open in `inner`
    rintro front u back rfl closes' nests
    have passed := (stray?_eq_none_iff apart).2 settles.covered
    have stopped := (stray?_eq_some_iff apart).2 ⟨front, back, rfl, closes', (nests_iff apart).1 nests⟩
    cases passed.symm.trans stopped

theorem stray?_append (apart : left ≠ right) {us : List Token} (vs : List Token)
    (found : stray? left right 0 us = some t) : stray? left right 0 (us ++ vs) = some t := by
  obtain ⟨front, rest, rfl, closes, settles⟩ := (stray?_eq_some_iff apart).1 found
  apply (stray?_eq_some_iff apart).2
  exact ⟨front, rest ++ vs, by simp, closes, settles⟩

end

section

variable {κ : Type} [DecidableEq κ] {left right k : κ} {ks : List κ} {depth : Nat}

/-- How many closing marks of a list find none that is open. -/
def strays (left right : κ) : List κ → Nat
  | [] => 0
  | k :: ks =>
    if k = left then strays left right ks - 1
    else if k = right then strays left right ks + 1
    else strays left right ks

theorem strays_cons_left : strays left right (left :: ks) = strays left right ks - 1 := if_pos rfl

theorem strays_cons_right (apart : left ≠ right) :
    strays left right (right :: ks) = strays left right ks + 1 := by
  rw [strays, if_neg apart.symm, if_pos rfl]

theorem strays_cons_other (unopened : k ≠ left) (unclosed : k ≠ right) :
    strays left right (k :: ks) = strays left right ks := by
  rw [strays, if_neg unopened, if_neg unclosed]

/-- The strays of a list are as many as must be open in front of it for each closing mark to find one. -/
theorem covered_iff_strays_le (apart : left ≠ right) : Covered left right depth ks ↔ strays left right ks ≤ depth := by
  induction ks generalizing depth with
  | nil => exact iff_of_true covered_nil (Nat.zero_le depth)
  | cons k ks ih =>
    by_cases opens : k = left
    · subst opens
      rw [covered_cons_left apart, ih, strays_cons_left]
      omega
    by_cases closes : k = right
    · subst closes
      rw [strays_cons_right apart]
      cases depth with
      | zero => exact iff_of_false (not_covered_cons_right apart) (Nat.not_succ_le_zero _)
      | succ depth => rw [covered_cons_right apart, ih, Nat.succ_le_succ_iff]
    · rw [covered_cons_other opens closes, ih, strays_cons_other opens closes]

/-- If each opening mark is closed, there are more closing ones by the strays. -/
theorem count_of_closed (apart : left ≠ right)
    (closed : ∀ front back, ks = front ++ left :: back → strays left right back ≠ 0) :
    ks.count left + strays left right ks = ks.count right := by
  induction ks with
  | nil => rfl
  | cons k ks ih =>
    have later := ih fun front back same => closed (k :: front) back (congrArg (k :: ·) same)
    by_cases opens : k = left
    · subst opens
      have taken := closed [] ks rfl
      rw [strays_cons_left, List.count_cons_self, List.count_cons_of_ne apart]
      omega
    by_cases closes : k = right
    · subst closes
      rw [strays_cons_right apart, List.count_cons_self, List.count_cons_of_ne apart.symm]
      omega
    · rw [strays_cons_other opens closes, List.count_cons_of_ne opens, List.count_cons_of_ne closes]
      exact later

/-- Marks nest if and only if none of them is a stray and behind each opening one there is one to close it. -/
theorem nests_iff_strays (apart : left ≠ right) : Nests left right ks ↔ strays left right ks = 0 ∧
    ∀ front back, ks = front ++ left :: back → strays left right back ≠ 0 := by
  rw [nests_iff apart, settles_iff, covered_iff_strays_le apart, Nat.le_zero, Nat.zero_add]
  apply and_congr_right
  intro noStray
  constructor
  · rintro same front back rfl unclosed
    have before := (covered_iff_strays_le apart).2 (Nat.le_of_eq noStray) front.length
    have behind := (covered_iff_strays_le apart).2 (Nat.le_of_eq unclosed) back.length
    rw [List.take_left] at before
    rw [List.take_length] at behind
    rw [List.count_append, List.count_append, List.count_cons_self, List.count_cons_of_ne apart] at same
    omega
  · intro closed
    have counts := count_of_closed apart closed
    omega

end

end Typeahead
