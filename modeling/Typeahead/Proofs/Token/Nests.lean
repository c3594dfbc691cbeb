import Mathlib.Data.List.Count
import Typeahead.Token

/-!
Marks that open and close. They nest if each has its partner; a running depth that never falls below zero and
ends there tells the same, and so does a scan for the first closing mark that no open one is left for.

- `Nests`, `nests_iff`: partners, and the running depth.
- `Settles`: what a running depth says of marks in front of which some are open already.
- `stray?_eq_some_iff`, `stray?_eq_none_iff`: the scan.
-/

namespace Typeahead

section

variable {κ : Type} {left right : κ}

/-- The marks of a list nest: behind each opening mark come marks that nest and then its closing mark, and no other
mark closes anything. -/
inductive Nests (left right : κ) : List κ → Prop
  | nil : Nests left right []
  | other {k : κ} {ks : List κ} (unopened : k ≠ left) (unclosed : k ≠ right) (rest : Nests left right ks) :
    Nests left right (k :: ks)
  | pair {inner rest : List κ} (inside : Nests left right inner) (behind : Nests left right rest) :
    Nests left right (left :: (inner ++ right :: rest))

variable [DecidableEq κ] {k : κ} {ks : List κ} {depth : Nat}

/-- With `depth` marks open before the list, each closing mark of the list finds one that is open. -/
def Covered (left right : κ) (depth : Nat) (ks : List κ) : Prop :=
  ∀ n, (ks.take n).count right ≤ depth + (ks.take n).count left

/-- The same, and at the end of the list none is open any more. -/
structure Settles (left right : κ) (depth : Nat) (ks : List κ) : Prop where
  covered : Covered left right depth ks
  settled : ks.count right = depth + ks.count left

theorem covered_nil : Covered left right depth [] := fun n => by simp

/-- What is asked of a list is asked behind its first mark. -/
theorem covered_cons : Covered left right depth (k :: ks) ↔
    ∀ n, (ks.take n).count right + (if k = right then 1 else 0) ≤
      depth + (ks.take n).count left + (if k = left then 1 else 0) := by
  constructor
  · intro h n
    have later := h (n + 1)
    simp only [List.take_succ_cons, List.count_cons, beq_iff_eq] at later
    omega
  · intro h n
    cases n with
    | zero => simp
    | succ n =>
      have later := h n
      simp only [List.take_succ_cons, List.count_cons, beq_iff_eq]
      omega

theorem covered_cons_left (apart : left ≠ right) :
    Covered left right depth (left :: ks) ↔ Covered left right (depth + 1) ks := by
  rw [covered_cons, if_neg apart, if_pos rfl]
  refine forall_congr' fun n => ?_
  omega

theorem covered_cons_right (apart : left ≠ right) :
    Covered left right (depth + 1) (right :: ks) ↔ Covered left right depth ks := by
  rw [covered_cons, if_pos rfl, if_neg apart.symm]
  refine forall_congr' fun n => ?_
  omega

theorem not_covered_cons_right (apart : left ≠ right) : ¬Covered left right 0 (right :: ks) := by
  intro h
  have first := covered_cons.1 h 0
  simp [apart.symm] at first

theorem covered_cons_other (unopened : k ≠ left) (unclosed : k ≠ right) :
    Covered left right depth (k :: ks) ↔ Covered left right depth ks := by
  rw [covered_cons, if_neg unclosed, if_neg unopened]
  rfl

/-- Marks that open and close nothing change nothing for those behind them. -/
theorem covered_append_other {front : List κ} (other : ∀ k ∈ front, k ≠ left ∧ k ≠ right) :
    Covered left right depth (front ++ ks) ↔ Covered left right depth ks := by
  induction front with
  | nil => rfl
  | cons k front ih =>
    obtain ⟨⟨unopened, unclosed⟩, later⟩ := List.forall_mem_cons.1 other
    rw [List.cons_append, covered_cons_other unopened unclosed, ih later]

theorem settles_nil : Settles left right depth [] ↔ depth = 0 := by
  constructor
  · intro h
    simpa using h.settled.symm
  · rintro rfl
    exact ⟨covered_nil, by simp⟩

theorem settles_iff : Settles left right depth ks ↔
    Covered left right depth ks ∧ ks.count right = depth + ks.count left :=
  ⟨fun h => ⟨h.covered, h.settled⟩, fun h => ⟨h.1, h.2⟩⟩

theorem settles_cons_left (apart : left ≠ right) :
    Settles left right depth (left :: ks) ↔ Settles left right (depth + 1) ks := by
  rw [settles_iff, settles_iff, covered_cons_left apart, List.count_cons_self, List.count_cons_of_ne apart]
  refine and_congr_right' ?_
  omega

theorem settles_cons_right (apart : left ≠ right) :
    Settles left right (depth + 1) (right :: ks) ↔ Settles left right depth ks := by
  rw [settles_iff, settles_iff, covered_cons_right apart, List.count_cons_self, List.count_cons_of_ne apart.symm]
  refine and_congr_right' ?_
  omega

theorem settles_cons_other (unopened : k ≠ left) (unclosed : k ≠ right) :
    Settles left right depth (k :: ks) ↔ Settles left right depth ks := by
  rw [settles_iff, settles_iff, covered_cons_other unopened unclosed, List.count_cons_of_ne unopened,
    List.count_cons_of_ne unclosed]

/-- Marks that nest change nothing for those behind them. -/
theorem Nests.settles_append (apart : left ≠ right) {front : List κ} (h : Nests left right front) (depth : Nat)
    (ks : List κ) : Settles left right depth (front ++ ks) ↔ Settles left right depth ks := by
  induction h generalizing depth ks with
  | nil => rfl
  | other unopened unclosed _ ih => rw [List.cons_append, settles_cons_other unopened unclosed, ih]
  | pair _ _ inside behind =>
    rw [List.cons_append, List.append_assoc, List.cons_append, settles_cons_left apart, inside,
      settles_cons_right apart, behind]

/-- The closing mark of a mark that is open before the list, what stands in between, and what stands behind. The
induction is on the list, with `inside` more marks open. -/
theorem Settles.exists_partner (apart : left ≠ right) (inside depth : Nat)
    (h : Settles left right (inside + depth + 1) ks) :
    ∃ inner rest, ks = inner ++ right :: rest ∧ Settles left right inside inner ∧ Settles left right depth rest := by
  induction ks generalizing inside with
  | nil => cases settles_nil.1 h
  | cons k ks ih =>
    by_cases opens : k = left
    · subst opens
      have deeper : inside + depth + 1 + 1 = inside + 1 + depth + 1 := by omega
      rw [settles_cons_left apart, deeper] at h
      obtain ⟨inner, rest, rfl, settles, later⟩ := ih (inside + 1) h
      exact ⟨k :: inner, rest, rfl, (settles_cons_left apart).2 settles, later⟩
    by_cases closes : k = right
    · subst closes
      rw [settles_cons_right apart] at h
      cases inside with
      | zero => exact ⟨[], ks, rfl, settles_nil.2 rfl, Nat.zero_add depth ▸ h⟩
      | succ inside =>
        rw [Nat.succ_add] at h
        obtain ⟨inner, rest, rfl, settles, later⟩ := ih inside h
        exact ⟨k :: inner, rest, rfl, (settles_cons_right apart).2 settles, later⟩
    · obtain ⟨inner, rest, rfl, settles, later⟩ := ih inside ((settles_cons_other opens closes).1 h)
      exact ⟨k :: inner, rest, rfl, (settles_cons_other opens closes).2 settles, later⟩

/-- Marks nest if and only if a running depth never falls below zero and ends there. -/
theorem nests_iff (apart : left ≠ right) : Nests left right ks ↔ Settles left right 0 ks := by
  constructor
  · intro h
    have whole := h.settles_append apart 0 []
    rw [List.append_nil] at whole
    exact whole.2 (settles_nil.2 rfl)
  · intro h
    induction size : ks.length using Nat.strongRecOn generalizing ks with
    | _ size ih =>
      subst size
      cases ks with
      | nil => exact .nil
      | cons k ks =>
        by_cases opens : k = left
        · subst opens
          obtain ⟨inner, rest, rfl, inside, behind⟩ :=
            Settles.exists_partner apart 0 0 ((settles_cons_left apart).1 h)
          refine .pair (ih inner.length ?_ inside rfl) (ih rest.length ?_ behind rfl)
          · simp only [List.length_cons, List.length_append]
            omega
          · simp only [List.length_cons, List.length_append]
            omega
        by_cases closes : k = right
        · subst closes
          exact absurd h.covered (not_covered_cons_right apart)
        · exact .other opens closes (ih ks.length (Nat.lt_succ_self _) ((settles_cons_other opens closes).1 h) rfl)

end

/-- The first token that closes a mark while none is open, `depth` marks being open before the tokens. -/
def stray? (left right : TokenKind) (depth : Nat) : List Token → Option Token
  | [] => none
  | t :: ts =>
    if t.kind = left then stray? left right (depth + 1) ts
    else if t.kind = right then
      match depth with
      | 0 => some t
      | depth + 1 => stray? left right depth ts
    else stray? left right depth ts

section

variable {left right : TokenKind} {depth : Nat} {t : Token} {ts : List Token}

theorem stray?_cons_left (opens : t.kind = left) :
    stray? left right depth (t :: ts) = stray? left right (depth + 1) ts := by
  rw [stray?.eq_def]
  simp only [opens, if_true]

theorem stray?_zero_right (apart : left ≠ right) (closes : t.kind = right) :
    stray? left right 0 (t :: ts) = some t := by
  simp [stray?, closes, apart.symm]

theorem stray?_succ_right (apart : left ≠ right) (closes : t.kind = right) :
    stray? left right (depth + 1) (t :: ts) = stray? left right depth ts := by
  simp [stray?, closes, apart.symm]

theorem stray?_cons_other (unopened : t.kind ≠ left) (unclosed : t.kind ≠ right) :
    stray? left right depth (t :: ts) = stray? left right depth ts := by
  rw [stray?.eq_def]
  simp only [unopened, unclosed, if_false]

/-- The scan ends at a closing mark in front of which all that were open are closed. -/
theorem stray?_eq_some_iff (apart : left ≠ right) : stray? left right depth ts = some t ↔ ∃ front rest,
    ts = front ++ t :: rest ∧ t.kind = right ∧ Settles left right depth (front.map (·.kind)) := by
  induction ts generalizing depth with
  | nil => simp [stray?]
  | cons u ts ih =>
    -- the token in front of others is the one found, or the front of those behind it goes on with it
    have step {depth' : Nat} (same : ∀ front : List Token, Settles left right depth ((u :: front).map (·.kind)) ↔
        Settles left right depth' (front.map (·.kind))) (other : u.kind = right → 0 < depth) :
        (∃ front rest, ts = front ++ t :: rest ∧ t.kind = right ∧
          Settles left right depth' (front.map (·.kind))) ↔
        ∃ front rest, u :: ts = front ++ t :: rest ∧ t.kind = right ∧
          Settles left right depth (front.map (·.kind)) := by
      constructor
      · rintro ⟨front, rest, rfl, closes, settles⟩
        exact ⟨u :: front, rest, rfl, closes, (same front).2 settles⟩
      · rintro ⟨front, rest, split, closes, settles⟩
        cases front with
        | nil =>
          obtain ⟨rfl, rfl⟩ := List.cons.inj split
          have empty : depth = 0 := settles_nil.1 settles
          exact absurd empty (Nat.ne_of_gt (other closes))
        | cons v front =>
          obtain ⟨rfl, rfl⟩ := List.cons.inj split
          exact ⟨front, rest, rfl, closes, (same front).1 settles⟩
    by_cases opens : u.kind = left
    · rw [stray?_cons_left opens, ih]
      refine step (fun front => ?_) fun closes => absurd (opens.symm.trans closes) apart
      rw [List.map_cons, opens, settles_cons_left apart]
    by_cases closes : u.kind = right
    · cases depth with
      | zero =>
        rw [stray?_zero_right apart closes]
        constructor
        · rintro ⟨⟩
          exact ⟨[], ts, rfl, closes, settles_nil.2 rfl⟩
        · rintro ⟨front, rest, split, -, settles⟩
          cases front with
          | nil => exact congrArg some (List.head_eq_of_cons_eq split)
          | cons v front =>
            obtain ⟨rfl, -⟩ := List.cons.inj split
            rw [List.map_cons, closes] at settles
            exact absurd settles.covered (not_covered_cons_right apart)
      | succ depth =>
        rw [stray?_succ_right apart closes, ih]
        refine step (fun front => ?_) fun _ => Nat.succ_pos depth
        rw [List.map_cons, closes, settles_cons_right apart]
    · rw [stray?_cons_other opens closes, ih]
      refine step (fun front => ?_) fun closes' => absurd closes' closes
      rw [List.map_cons, settles_cons_other opens closes]

/-- The scan finds nothing if every closing mark finds one that is open. -/
theorem stray?_eq_none_iff (apart : left ≠ right) :
    stray? left right depth ts = none ↔ Covered left right depth (ts.map (·.kind)) := by
  induction ts generalizing depth with
  | nil => simp [stray?, covered_nil]
  | cons t ts ih =>
    rw [List.map_cons]
    by_cases opens : t.kind = left
    · rw [stray?_cons_left opens, ih, opens, covered_cons_left apart]
    by_cases closes : t.kind = right
    · cases depth with
      | zero => simp [stray?_zero_right apart closes, closes, not_covered_cons_right apart]
      | succ depth => rw [stray?_succ_right apart closes, ih, closes, covered_cons_right apart]
    · rw [stray?_cons_other opens closes, ih, covered_cons_other opens closes]

end

end Typeahead
