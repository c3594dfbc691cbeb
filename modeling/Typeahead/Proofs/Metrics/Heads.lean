import Mathlib.Data.List.Induction
import Typeahead.Edit
import Typeahead.Proofs.Metrics.Spans
import Typeahead.Proofs.Token.Tiled

/-!
What stands in front of the filter of a line: the aggregator, its colon, and the metric. An aggregator that was
read once is read again in front of another metric, unless it ends with a backslash that the blanks behind it
kept from the colon.

- `Unended`, `metricEnd_of_unended`: where the metric ends.
- `Head`, `head_of_aggregator`: the aggregator of a line, with the lexemes it is read as.
- `ofLine_of_settled`, `ofLine_of_escaped`: what a line is taken apart into that is written with it.
-/

namespace Typeahead.Metrics

open Lexer

/-- The kinds of tokens, and how they are written. -/
def views (ts : List Token) : List (TokenKind × Text) := ts.map fun t => (t.kind, t.written)

/-- Among tokens the metric does not end: there is no opening brace, and no `by` between blanks. -/
structure Unended (vs : List (TokenKind × Text)) : Prop where
  braceless : ∀ v ∈ vs, v.1 ≠ .openBrace
  byless : ∀ s s', ¬ [(.blank, s), (.word, "by".toList), (.blank, s')] <:+: vs

namespace Unended

variable {vs ws : List (TokenKind × Text)}

theorem of_infix (h : Unended vs) (part : ws <:+: vs) : Unended ws := by
  constructor
  · exact fun v mem => h.braceless v (part.subset mem)
  · exact fun s s' found => h.byless s s' (found.trans part)

/-- Nothing ends the metric that is neither a brace nor a blank. -/
theorem append (h : Unended vs) (plain : ∀ w ∈ ws, w.1 ≠ .openBrace ∧ w.1 ≠ .blank) : Unended (vs ++ ws) := by
  constructor
  · intro v mem
    rcases List.mem_append.1 mem with old | new
    · exact h.braceless v old
    · exact (plain v new).1
  · intro s s' found
    induction ws using List.reverseRecOn with
    | nil => exact h.byless s s' (by simpa using found)
    | append_singleton ws w ih =>
      rw [← List.append_assoc, List.infix_concat_iff] at found
      rcases found with ends | inside
      · obtain ⟨front, same⟩ := ends
        have last := congrArg List.getLast? same
        rw [List.getLast?_concat] at last
        have blank : (TokenKind.blank, s') = w := by simpa using last
        exact (plain w (by simp)).2 (by rw [← blank])
      · exact ih (fun v mem => plain v (List.mem_append_left _ mem)) inside

end Unended

variable {ts more : List Token}

@[simp] theorem views_append (ts more : List Token) : views (ts ++ more) = views ts ++ views more :=
  List.map_append

theorem isBy_iff {f : Focus} : isBy f = true ↔ f.token.kind = .word ∧ f.token.written = "by".toList ∧
    f.previous? = some .blank ∧ (f.next? = some .blank ∨ f.next? = none) := by
  simp [isBy, and_assoc]

/-- Where the metric does not end among tokens, none of them ends it, whatever comes behind but blanks. -/
theorem metricEnd?_of_unended (h : Unended (views ts)) {t : Token} {rest : List Token} (inked : t.kind ≠ .blank)
    {f : Focus} (mem : f ∈ focuses ts) : metricEnd? (f.followedBy (t :: rest)) = none := by
  obtain ⟨passed, split, before⟩ := mem_focusesFrom mem
  rw [List.append_nil] at before
  have brace : (f.followedBy (t :: rest)).token.kind ≠ .openBrace :=
    h.braceless (f.token.kind, f.token.written) (List.mem_map_of_mem (token_mem_of_mem_focusesFrom mem))
  have other : ¬ isBy (f.followedBy (t :: rest)) = true := by
    intro found
    obtain ⟨word, written, previous, next⟩ := isBy_iff.1 found
    obtain ⟨b, last, blank⟩ := Option.map_eq_some_iff.1 previous
    obtain ⟨front, rfl⟩ : ∃ front, passed = front ++ [b] := by
      change f.before.head? = some b at last
      rw [before, List.head?_reverse] at last
      exact List.getLast?_eq_some_iff.1 last
    change f.token.kind = .word at word
    change f.token.written = "by".toList at written
    cases after : f.after with
    | nil => simp [Focus.next?, Focus.followedBy, after, inked] at next
    | cons b' back =>
      have blank' : b'.kind = .blank := by simpa [Focus.next?, Focus.followedBy, after] using next
      refine h.byless b.written b'.written ⟨views front, views back, ?_⟩
      rw [split, after]
      simp [views, word, written, blank, blank']
  rw [metricEnd?, if_neg brace, if_neg other]

/-- Tokens none of which ends the metric. -/
theorem unended_of_metricEnd? (none : ∀ f ∈ focuses ts, metricEnd? (f.followedBy more) = none) :
    Unended (views ts) := by
  have focus (p : List Token) (t : Token) (q : List Token) (split : ts = p ++ t :: q) :
      ⟨p.reverse, t, q⟩ ∈ focuses ts := by
    rw [split, focuses, focusesFrom_append, focusesFrom, List.append_nil]
    exact List.mem_append_right _ List.mem_cons_self
  constructor
  · intro v mem brace
    obtain ⟨t, among, rfl⟩ := List.mem_map.1 mem
    obtain ⟨p, q, split⟩ := List.append_of_mem among
    have found := none _ (focus p t q split)
    have own : t.kind = .openBrace := brace
    simp [metricEnd?, Focus.followedBy, own] at found
  · intro s s' found
    obtain ⟨part, ⟨p, q, split⟩, same⟩ := List.infix_map_iff.1 found
    have three : part.length = 3 := by simpa using (congrArg List.length same).symm
    obtain ⟨b, t, b', rfl⟩ := List.length_eq_three.1 three
    simp only [List.map_cons, List.map_nil, List.cons.injEq, Prod.mk.injEq, and_true] at same
    obtain ⟨⟨blank, -⟩, ⟨word, written⟩, blank', -⟩ := same
    have focus := none _ (focus (p ++ [b]) t (b' :: q) (by rw [← split]; simp))
    have by_ : isBy (Focus.followedBy more ⟨(p ++ [b]).reverse, t, b' :: q⟩) = true :=
      isBy_iff.2 ⟨word.symm, written.symm, by simp [Focus.previous?, Focus.followedBy, blank],
        .inl (by simp [Focus.next?, Focus.followedBy, blank'])⟩
    have other : (Focus.followedBy more ⟨(p ++ [b]).reverse, t, b' :: q⟩).token.kind ≠ .openBrace := by
      rw [(isBy_iff.1 by_).1]
      simp
    rw [metricEnd?, if_neg other, if_pos by_] at focus
    simp [Focus.followedBy] at focus

section

variable {line : Text} {rest : List Token} {t : Token}

/-- The metric ends at the first brace behind tokens among which it does not end. -/
theorem metricEnd_of_unended (same : tokens metricsMarks line = ts ++ t :: rest) (h : Unended (views ts))
    (brace : t.kind = .openBrace) : (Reading.of line).metricEnd = t.start := by
  have passed : ((focuses ts).map (·.followedBy (t :: rest))).findSome? metricEnd? = none := by
    apply List.findSome?_eq_none_iff.2
    intro f mem
    obtain ⟨g, there, rfl⟩ := List.mem_map.1 mem
    exact metricEnd?_of_unended h (by simp [brace]) there
  change ((focuses (tokens metricsMarks line)).findSome? metricEnd?).getD line.length = t.start
  rw [focuses] at passed
  rw [same, focuses, focusesFrom_append, List.findSome?_append, passed, Option.none_or]
  simp [focusesFrom, metricEnd?, brace]

/-- The metric does not end among the tokens in front of one that starts before its end. -/
theorem unended_of_le (same : tokens metricsMarks line = ts ++ t :: rest)
    (within : t.start ≤ (Reading.of line).metricEnd) : Unended (views ts) := by
  apply @unended_of_metricEnd? ts (t :: rest)
  by_contra found
  have some_ : ((focuses ts).map (·.followedBy (t :: rest))).findSome? metricEnd? ≠ none := by
    intro none
    refine found fun f mem => ?_
    exact List.findSome?_eq_none_iff.1 none _ (List.mem_map_of_mem mem)
  obtain ⟨e, first⟩ := Option.ne_none_iff_exists'.1 some_
  have ended : (Reading.of line).metricEnd = e := by
    change ((focuses (tokens metricsMarks line)).findSome? metricEnd?).getD line.length = e
    rw [focuses] at first
    rw [same, focuses, focusesFrom_append, List.findSome?_append, first]
    rfl
  -- the metric ends at one of the tokens, or at the blanks in front of it
  obtain ⟨f, mem, here⟩ := List.exists_of_findSome?_eq_some first
  obtain ⟨g, there, rfl⟩ := List.mem_map.1 mem
  obtain ⟨u, among, start⟩ : ∃ u ∈ ts, u.start = e := by
    unfold metricEnd? at here
    split at here
    · exact ⟨g.token, token_mem_of_mem_focusesFrom there, Option.some.inj here⟩
    · split at here
      · obtain ⟨u, last, start⟩ := Option.map_eq_some_iff.1 here
        obtain ⟨passed, split, before⟩ := mem_focusesFrom there
        refine ⟨u, ?_, start⟩
        have own : u ∈ passed := by
          change g.before.head? = some u at last
          rw [before, List.append_nil, List.head?_reverse] at last
          exact List.mem_of_getLast? last
        rw [split]
        exact List.mem_append_left _ own
      · cases here
  have early := start_lt_of_tokens same u among
  omega

end

/-- How lexemes are written depends on the characters that they take only. -/
theorem views_place {a x y : Text} {n n' : Nat} {ls : List Lexeme} (within : (spell ls).length ≤ a.length) :
    views (place n (a ++ x) ls) = views (place n' (a ++ y) ls) := by
  induction ls generalizing a n n' with
  | nil => rfl
  | cons l ls ih =>
    rw [spell_cons, List.length_append] at within
    have taken (z : Text) : (a ++ z).take l.2.length = a.take l.2.length :=
      List.take_append_of_le_length (by omega)
    have left (z : Text) : (a ++ z).drop l.2.length = a.drop l.2.length ++ z :=
      List.drop_append_of_le_length (by omega)
    have later := @ih (a.drop l.2.length) (n + l.2.length) (n' + l.2.length) (by rw [List.length_drop]; omega)
    rw [views, views] at later ⊢
    rw [place, place, List.map_cons, List.map_cons, taken, taken, left, left, later]

/-- A text that is read up to a colon as the same lexemes, whatever comes behind that. -/
structure Settled (a : Text) (ls : List Lexeme) : Prop where
  reads : ∀ rest, scan metricsMarks (Text.mask a ++ ':' :: rest) = ls ++ scan metricsMarks (':' :: rest)
  spelled : spell ls = Text.mask a
  colonless : ∀ l ∈ ls, l.1 ≠ .colon
  unended : Unended (views (place 0 a ls))
  whole : scan metricsMarks (Text.mask a) = ls ∧ ∀ l ∈ ls.getLast?, l.1 ≠ .stray

/-- A text that ends with a backslash, with which goes on what comes behind it. -/
structure Escaped (a : Text) (ls : List Lexeme) (w : Text) : Prop where
  reads : ∀ rest, scan metricsMarks (Text.mask a ++ rest) = ls ++ scan metricsMarks (w ++ '\\' :: rest)
  spelled : Text.mask a = spell ls ++ (w ++ ['\\'])
  units : Units (isPlain metricsMarks) w
  colonless : ∀ l ∈ ls, l.1 ≠ .colon
  unended : Unended (views (place 0 a ls))

/-- A text in a line that neither begins nor ends with a blank. -/
structure Stripped (a : Text) : Prop where
  filled : a ≠ []
  first : ∀ c ∈ a.head?, isBlank c = false
  last : ∀ c ∈ a.getLast?, isBlank c = false
  inside : ∀ c ∈ a, Text.insideLine c = true

/-- An aggregator as it stands in front of its colon. -/
inductive Head (a : Text) : Prop
  | settled {ls : List Lexeme} (h : Settled a ls)
  | escaped {ls : List Lexeme} {w : Text} (h : Escaped a ls w)

/-- The lexemes of a text are those behind the blanks that it begins with. -/
theorem exists_behind_blanks {left t : Text} (blank : ∀ c ∈ left, isBlank c = true)
    (inked : ∀ c ∈ t.head?, isBlank c = false) {ls ls' : List Lexeme} {k : Text}
    (h : scan metricsMarks (left ++ t ++ k) = ls ++ ls') (same : spell ls = left ++ t) (filled : t ≠ []) :
    ∃ pre ls₁, ls = pre ++ ls₁ ∧ spell pre = left ∧ spell ls₁ = t ∧ scan metricsMarks (t ++ k) = ls₁ ++ ls' := by
  by_cases empty : left = []
  · subst empty
    exact ⟨[], ls, rfl, rfl, by simpa using same, by simpa using h⟩
  · have apart : ∀ c ∈ (t ++ k).head?, isBlank c = false := by
      rwa [List.head?_append_of_ne_nil _ filled]
    have run : Ended metricsMarks (.blank, left) := .blanks empty blank
    have cut := run.scan apart
    rw [List.append_assoc] at h
    cases ls with
    | nil => exact absurd (List.append_eq_nil_iff.1 same.symm).1 empty
    | cons l ls =>
      obtain ⟨rfl, later⟩ := List.cons.inj (cut.symm.trans h)
      exact ⟨[(.blank, left)], ls, rfl, by simp, List.append_cancel_left same, later⟩

/-- A colon is a mark of one character. -/
theorem colon_of_scan {t : Text} {ls ls' : List Lexeme} {m : Text}
    (h : scan metricsMarks t = ls ++ (.colon, m) :: ls') :
    m = [':'] := by
  have ended := ended_of_scan h ⟨by simp, by simp, by simp⟩
  cases ended with
  | @mark c _ inked marked =>
    unfold metricsMarks at marked
    split at marked <;> simp_all

/-- The colon of the aggregator, and the lexemes in front of it. -/
theorem exists_colon {line : Text} {k : Nat} (h : (Reading.of line).aggregatorColon? = some k) : ∃ ls ls',
    scan metricsMarks (Text.mask line) = ls ++ (.colon, [':']) :: ls' ∧ spell ls = Text.mask (line.take k) ∧
      (∀ l ∈ ls, l.1 ≠ .colon) ∧ Unended (views (place 0 line ls)) := by
  obtain ⟨t, found, rfl⟩ := Option.map_eq_some_iff.1 h
  obtain ⟨holds, ts, rest, split, others⟩ := List.find?_eq_some_iff_append.1 found
  simp only [Bool.and_eq_true, decide_eq_true_eq] at holds
  have same : tokens metricsMarks line = ts ++ t :: rest := split
  obtain ⟨ls, ls', whole, rfl, later⟩ := place_eq_append same
  obtain ⟨⟨kind, m⟩, ls', rfl⟩ : ∃ l more, ls' = l :: more := by
    cases ls' with
    | nil => cases later
    | cons l more => exact ⟨l, more, rfl⟩
  obtain ⟨rfl, -⟩ := List.cons.inj later
  obtain rfl : kind = .colon := holds.1
  obtain rfl := colon_of_scan whole
  have masked : Text.mask line = spell ls ++ ':' :: spell ls' := by
    rw [← spell_scan metricsMarks (Text.mask line), whole, spell_append, spell_cons]
    rfl
  have length := congrArg List.length masked
  rw [Text.length_mask, List.length_append] at length
  refine ⟨ls, ls', whole, ?_, ?_, unended_of_le same holds.2.le⟩
  · have taken : (line.take (spell ls).length).length = (spell ls).length := by
      rw [List.length_take]
      omega
    have parts : line.take (spell ls).length ++ line.drop (spell ls).length = line := List.take_append_drop ..
    have seam := Text.mask_split (a := line.take (spell ls).length) (b := line.drop (spell ls).length) (c := ':')
      (by decide) (by rw [parts, taken, masked, List.getElem?_append_right (Nat.le_refl _), Nat.sub_self]; rfl)
    rw [parts, masked] at seam
    rw [Nat.zero_add]
    exact List.append_inj_left seam (by rw [Text.length_mask, taken])
  · intro l mem colon
    obtain ⟨before, after, rfl⟩ := List.append_of_mem mem
    have among : ⟨l.1, (spell before).length, (line.drop (spell before).length).take l.2.length, l.2⟩ ∈
        place 0 line (before ++ l :: after) := by
      rw [place_append, place, Nat.zero_add]
      exact List.mem_append_right _ List.mem_cons_self
    have early := start_lt_of_tokens same _ among
    have other := others _ among
    simp only [colon, decide_true, Bool.true_and, Bool.not_eq_true', decide_eq_false_iff_not] at other
    exact other (Nat.lt_trans early holds.2)

theorem exists_stripped {t a : Text} (h : Text.stripped? t = some a) : ∃ left right, t = left ++ a ++ right ∧
    (∀ c ∈ left, isBlank c = true) ∧ (∀ c ∈ right, isBlank c = true) ∧ a ≠ [] ∧
      (∀ c ∈ a.head?, isBlank c = false) ∧ ∀ c ∈ a.getLast?, isBlank c = false := by
  obtain ⟨left, right, parts, blank, blank', first, last⟩ := Text.exists_padding isBlank t
  unfold Text.stripped? Text.strip at h
  cases same : Text.trim isBlank t with
  | nil => simp [same] at h
  | cons c rest =>
    obtain rfl : c :: rest = a := by simpa [same] using h
    rw [same] at parts first last
    exact ⟨left, right, parts, blank, blank', List.cons_ne_nil _ _, first, last⟩

/-- Among the lexemes of a part of a line the metric does not end if it does not among those of the line. -/
theorem unended_of_part {left a behind : Text} {pre xs ys : List Lexeme} (shown : spell pre = left)
    (within : (spell xs).length ≤ a.length)
    (h : Unended (views (place 0 (left ++ (a ++ behind)) (pre ++ (xs ++ ys))))) : Unended (views (place 0 a xs)) := by
  have same : views (place (0 + left.length) (a ++ behind) xs) = views (place 0 (a ++ []) xs) := views_place within
  rw [List.append_nil] at same
  rw [place_append, shown, List.drop_left, place_append, views_append, views_append, same] at h
  exact h.of_infix ⟨_, _, by rw [List.append_assoc]⟩

section

variable {a w behind : Text} {xs ls' : List Lexeme} {l : Lexeme} (inLine : ∀ x ∈ Text.mask a ++ behind, x ≠ '\n')

include inLine

/-- A text is read the same in front of any colon if it stands at the beginning of a line, and its last lexeme is
whole there. -/
theorem settled_of_cut (cut : scan metricsMarks (Text.mask a ++ behind) = xs ++ [l] ++ ls')
    (front : spell (xs ++ [l]) = Text.mask a) (whole : Whole metricsMarks l)
    (colonless : ∀ m ∈ xs ++ [l], m.1 ≠ .colon) (unended : Unended (views (place 0 a (xs ++ [l])))) :
    Settled a (xs ++ [l]) := by
  rw [← front] at inLine cut
  have alone := scan_truncate inLine cut
  refine ⟨?_, front, colonless, unended, front ▸ alone, ?_⟩
  · intro rest
    have apart : Apart metricsMarks l (':' :: rest) := by
      constructor
      · intro _ c first
        obtain rfl : ':' = c := Option.some.inj first
        decide
      · exact fun _ => .cons (by decide) (by decide) rest
    rw [← front]
    exact scan_append proper_metricsMarks (fun x mem => inLine x (List.mem_append_left _ mem)) alone whole apart
  · intro m last
    obtain rfl : l = m := by simpa using last
    exact whole.ne_stray proper_metricsMarks

/-- What comes behind a word with a backslash at its end goes on with the word, at the beginning of any line. -/
theorem escaped_of_cut (cut : scan metricsMarks (Text.mask a ++ behind) = xs ++ ls') (followed : behind ≠ [])
    (front : Text.mask a = spell xs ++ (w ++ ['\\'])) (units : Units (isPlain metricsMarks) w)
    (colonless : ∀ m ∈ xs, m.1 ≠ .colon) (unended : Unended (views (place 0 a xs))) : Escaped a xs w := by
  refine ⟨?_, front, units, colonless, unended⟩
  intro rest
  obtain ⟨d, r, begins⟩ := List.exists_cons_of_ne_nil (l := w ++ ['\\']) (by simp)
  have shape (rest : Text) : Text.mask a ++ rest = spell xs ++ d :: (r ++ rest) := by
    rw [front, begins, List.append_assoc, List.cons_append]
  rw [shape] at inLine cut
  have goesOn := scan_front inLine (by simp [followed]) cut (r ++ rest)
  have word : d :: (r ++ rest) = w ++ '\\' :: rest := by
    rw [← List.cons_append, ← begins, List.append_assoc, List.singleton_append]
  rw [shape, goesOn, word]

end

/-- The aggregator of a line is read again in front of another colon, unless a blank behind it is escaped. -/
theorem head_of_aggregator {line a : Text} (inLine : ∀ c ∈ line, Text.insideLine c = true)
    (found : (Expression.ofLine line).aggregator? = some a) : Stripped a ∧ Head a := by
  obtain ⟨k, colon, stripped⟩ := Option.bind_eq_some_iff.1 found
  obtain ⟨ls, ls', whole, spelled, colonless, unended⟩ := exists_colon colon
  obtain ⟨left, right, parts, blank, blank', filled, first, last⟩ := exists_stripped stripped
  have shape : line = left ++ (a ++ (right ++ line.drop k)) := by
    have cut := List.take_append_drop k line
    rw [parts] at cut
    simpa only [List.append_assoc] using cut.symm
  have stripped : Stripped a := by
    refine ⟨filled, first, last, fun c mem => inLine c ?_⟩
    rw [shape]
    exact List.mem_append_right _ (List.mem_append_left _ mem)
  refine ⟨stripped, ?_⟩
  have padded : spell ls = left ++ Text.mask a ++ right := by
    rw [spelled, parts, Text.mask_padded blank blank']
  have masked : Text.mask line = left ++ Text.mask a ++ right ++ ':' :: spell ls' := by
    rw [← spell_scan metricsMarks (Text.mask line), whole, spell_append, padded]
    rfl
  -- the blanks in front of the aggregator are a lexeme of their own
  obtain ⟨pre, ls, rfl, shown, own, cut⟩ : ∃ pre ls₁, ls = pre ++ ls₁ ∧ spell pre = left ∧
      spell ls₁ = Text.mask a ++ right ∧
      scan metricsMarks (Text.mask a ++ right ++ ':' :: spell ls') = ls₁ ++ (.colon, [':']) :: ls' := by
    apply exists_behind_blanks blank
    · intro c first
      rw [List.head?_append_of_ne_nil _ (Text.mask_ne_nil stripped.filled)] at first
      exact Text.inked_head?_mask stripped.first c first
    · rw [masked] at whole
      simpa only [List.append_assoc] using whole
    · rw [padded, List.append_assoc]
    · simp [(Text.mask_ne_nil stripped.filled)]
  have inside : ∀ x ∈ Text.mask a ++ right ++ ':' :: spell ls', x ≠ '\n' := by
    intro x mem
    apply Text.mask_inLine inLine x
    rw [masked]
    simp only [List.append_assoc] at mem ⊢
    exact List.mem_append_right _ mem
  -- what is true of the lexemes in the line is true of them in the aggregator
  have colonless' : ∀ l ∈ ls, l.1 ≠ .colon := fun l mem => colonless l (List.mem_append_right _ mem)
  rw [shape] at unended
  cases cut_of_blanks proper_metricsMarks inside (Text.inked_getLast?_mask stripped.last)
    (Text.mask_ne_nil stripped.filled) blank' cut own (by simp) (by simp) with
  | inl whole =>
    obtain ⟨xs, l, ys, rfl, front, ends⟩ := whole
    rw [List.append_cons xs l ys] at unended colonless' cut
    rw [List.append_assoc] at inside cut
    rw [List.append_assoc (xs ++ [l])] at cut
    apply Head.settled
    apply settled_of_cut inside cut front ends
    · exact fun m mem => colonless' m (List.mem_append_left _ mem)
    · exact unended_of_part shown (by rw [front, Text.length_mask]) unended
  | inr word =>
    obtain ⟨xs, w, b, ys, rfl, front, units⟩ := word
    have within : (spell xs).length ≤ a.length := by
      rw [← Text.length_mask a, front, List.length_append]
      omega
    rw [List.append_assoc] at inside
    rw [List.append_assoc, List.append_assoc] at cut
    apply Head.escaped
    apply escaped_of_cut inside cut (by simp) front units
    · exact fun m mem => colonless' m (List.mem_append_left _ mem)
    · exact unended_of_part shown within unended

theorem plain_of_isWordPart {c : Char} (part : Edit.isWordPart c = true) : isPlain metricsMarks c = true ∧
    isBlank c = false ∧ Text.insideLine c = true ∧ (c ≠ '$' ∧ c ≠ '[') ∧ c ≠ '}' ∧ c ≠ ']' := by
  have ascii : c.toNat < 128 := by
    simp only [Edit.isWordPart, Bool.or_eq_true, decide_eq_true_eq] at part
    rcases part with ((alphanumeric | rfl) | rfl) | rfl
    · exact toNat_lt_of_isAlphanum alphanumeric
    all_goals decide
  exact holds_of_ascii (P := fun c => Edit.isWordPart c = true → isPlain metricsMarks c = true ∧
    isBlank c = false ∧ Text.insideLine c = true ∧ (c ≠ '$' ∧ c ≠ '[') ∧ c ≠ '}' ∧ c ≠ ']')
    (by decide +kernel) ascii part

/-- A brace is a mark, whatever comes behind it. -/
theorem scan_brace (t : Text) : scan metricsMarks ('{' :: t) = (.openBrace, ['{']) :: scan metricsMarks t :=
  scan_mark rfl (by decide) t

/-- What a line is taken apart into, where its metric ends and its aggregator are known. -/
theorem ofLine_eq {line : Text} {colon? : Option Nat} {stop : Nat} (ends : (Reading.of line).metricEnd = stop)
    (colon : (Reading.of line).aggregatorColon? = colon?) : Expression.ofLine line =
      ⟨colon?.bind fun colon => Text.stripped? (line.take colon),
        Text.stripped? (line.slice ((colon?.map (· + 1)).getD 0) stop), line.drop stop⟩ := by
  subst ends colon
  unfold Expression.ofLine Reading.metric?
  dsimp only
  cases (Reading.of line).aggregatorColon? <;> rfl

theorem stripped?_of_ends {t : Text} (filled : t ≠ []) (first : ∀ c ∈ t.head?, isBlank c = false)
    (last : ∀ c ∈ t.getLast?, isBlank c = false) : Text.stripped? t = some t := by
  obtain ⟨c, rest, same⟩ := List.exists_cons_of_ne_nil filled
  rw [Text.stripped?, Text.strip, Text.trim_of_ends first last, same]

section

variable {a m : Text} (filled : m ≠ []) (parts : ∀ c ∈ m, Edit.isWordPart c = true) (t : Text)

/-- The line of an aggregator and a metric, with what follows them from a brace on. -/
def lineOf (a m t : Text) : Text := a ++ ':' :: (m ++ '{' :: t)

theorem lineOf_eq : lineOf a m t = (a ++ ':' :: m) ++ '{' :: t := by
  simp [lineOf]

theorem length_front (a m : Text) : (a ++ ':' :: m).length = a.length + 1 + m.length := by
  rw [List.length_append, List.length_cons]
  omega

theorem take_lineOf : (lineOf a m t).take (a.length + 1 + m.length) = a ++ ':' :: m := by
  rw [lineOf_eq, ← length_front, List.take_left]

theorem drop_lineOf : (lineOf a m t).drop (a.length + 1 + m.length) = '{' :: t := by
  rw [lineOf_eq, ← length_front, List.drop_left]

include parts

theorem units_metric : Units (isPlain metricsMarks) m := by
  apply Units.of_forall
  intro c mem
  have plain := (plain_of_isWordPart (parts c mem)).1
  refine ⟨plain, ?_⟩
  rintro rfl
  simp [isPlain] at plain

theorem mask_lineOf (a : Text) : Text.mask (lineOf a m t) = lineOf (Text.mask a) m (Text.mask t) := by
  have seam : Text.mask (a ++ ((':' :: m) ++ '{' :: t)) = Text.mask a ++ Text.mask ((':' :: m) ++ '{' :: t) := by
    apply Text.mask_append_word
    · exact .inr fun c first => Option.some.inj first ▸ by decide
    · exact List.cons_ne_nil _ _
    · intro c mem
      rcases List.mem_cons.1 mem with rfl | own
      · decide
      · exact (plain_of_isWordPart (parts c own)).2.2.2.2
    · exact fun c first => .inr (Option.some.inj first).symm
  have brace : Text.mask ('{' :: t) = '{' :: Text.mask t :=
    Text.mask_plain_append (List.forall_mem_singleton.2 (by decide)) t
  have plain : ∀ c ∈ ':' :: m, c ≠ '$' ∧ c ≠ '[' := by
    intro c mem
    rcases List.mem_cons.1 mem with rfl | own
    · decide
    · exact (plain_of_isWordPart (parts c own)).2.2.2.1
  rw [Text.mask_plain_append plain, brace] at seam
  exact seam

include filled

theorem stripped?_metric : Text.stripped? m = some m :=
  stripped?_of_ends filled (fun c first => (plain_of_isWordPart (parts c (List.mem_of_mem_head? first))).2.1)
    fun c last => (plain_of_isWordPart (parts c (List.mem_of_getLast? last))).2.1

/-- The tokens of a line whose aggregator is read again. -/
theorem tokens_lineOf {ls : List Lexeme} (h : Settled a ls) : ∃ rest, tokens metricsMarks (lineOf a m t) =
    place 0 (lineOf a m t) ls ++ (⟨.colon, a.length, [':'], [':']⟩ :: ⟨.word, a.length + 1, m, m⟩ ::
      ⟨.openBrace, a.length + 1 + m.length, ['{'], ['{']⟩ :: rest) := by
  have word : scan metricsMarks (m ++ '{' :: Text.mask t) =
      (.word, m) :: (.openBrace, ['{']) :: scan metricsMarks (Text.mask t) := by
    have reads := Reads.units (unmarked_of_units rfl (units_metric parts)) filled (units_metric parts)
      ('{' :: Text.mask t) (.cons (by decide) (by decide) _)
    rw [reads, scan_brace]
    rfl
  have colon : scan metricsMarks (':' :: (m ++ '{' :: Text.mask t)) = (.colon, [':']) :: _ :=
    scan_mark rfl (by decide) _
  have whole : scan metricsMarks (Text.mask (lineOf a m t)) = ls ++ (.colon, [':']) :: (.word, m) ::
      (.openBrace, ['{']) :: scan metricsMarks (Text.mask t) := by
    rw [mask_lineOf parts, lineOf, h.reads, colon, word]
  have length : (spell ls).length = a.length := by rw [h.spelled, Text.length_mask]
  have behind : (lineOf a m t).drop a.length = ':' :: (m ++ '{' :: t) := List.drop_left
  refine ⟨place (a.length + 1 + m.length + 1) t (scan metricsMarks (Text.mask t)), ?_⟩
  rw [tokens, whole, place_append, length, behind]
  simp [place]

/-- Behind an aggregator that is read again another metric is read as the metric. -/
theorem ofLine_of_settled {ls : List Lexeme} (stripped : Stripped a) (h : Settled a ls) :
    Expression.ofLine (lineOf a m t) = ⟨some a, some m, '{' :: t⟩ := by
  obtain ⟨rest, same⟩ := tokens_lineOf filled parts t h
  have length : (spell ls).length = a.length := by rw [h.spelled, Text.length_mask]
  have written : views (place 0 (lineOf a m t) ls) = views (place 0 (a ++ []) ls) := views_place length.le
  rw [List.append_nil] at written
  have unended : Unended (views (place 0 (lineOf a m t) ls ++
      [⟨.colon, a.length, [':'], [':']⟩, ⟨.word, a.length + 1, m, m⟩])) := by
    rw [views_append, written]
    exact h.unended.append (by simp [views])
  have ends : (Reading.of (lineOf a m t)).metricEnd = a.length + 1 + m.length :=
    metricEnd_of_unended (by rw [same, List.append_assoc]; rfl) unended rfl
  have colon : (Reading.of (lineOf a m t)).aggregatorColon? = some a.length := by
    have none :
        (place 0 (lineOf a m t) ls).find? (fun u => u.kind = .colon && u.start < a.length + 1 + m.length) = none := by
      apply List.find?_eq_none.2
      intro u mem
      have other : u.kind ≠ .colon := kind_of_mem_place (p := (· ≠ .colon)) h.colonless mem
      simp [other]
    unfold Reading.aggregatorColon?
    rw [ends]
    change ((tokens metricsMarks (lineOf a m t)).find? _).map _ = _
    rw [same, List.find?_append, none, Option.none_or]
    have before : a.length < a.length + 1 + m.length := by omega
    simp [before]
  have metric : (lineOf a m t).slice (a.length + 1) (a.length + 1 + m.length) = m := by
    have part := Text.slice_part (a ++ [':']) m ('{' :: t) (Nat.le_refl m.length)
    rw [List.take_length, List.length_append, List.length_singleton] at part
    simpa [lineOf] using part
  have before : (lineOf a m t).take a.length = a := List.take_left
  rw [ofLine_eq ends colon, Option.bind_some, Option.map_some, Option.getD_some, metric, drop_lineOf, before,
    stripped?_metric filled parts, stripped?_of_ends stripped.filled stripped.first stripped.last]

omit filled in
/-- The tokens of a line whose aggregator takes the colon into its last word. -/
theorem tokens_of_escaped {ls : List Lexeme} {w : Text} (h : Escaped a ls w) : ∃ written rest,
    tokens metricsMarks (lineOf a m t) = place 0 (lineOf a m t) ls ++
      (⟨.word, (spell ls).length, written, w ++ '\\' :: ':' :: m⟩ ::
        ⟨.openBrace, a.length + 1 + m.length, ['{'], ['{']⟩ :: rest) ∧
      ∀ u ∈ rest, a.length + 1 + m.length ≤ u.start := by
  have units : Units (isPlain metricsMarks) (w ++ '\\' :: ':' :: m) :=
    h.units.append (.pair (by decide) (units_metric parts))
  have word : scan metricsMarks (w ++ '\\' :: ':' :: (m ++ '{' :: Text.mask t)) =
      (.word, w ++ '\\' :: ':' :: m) :: (.openBrace, ['{']) :: scan metricsMarks (Text.mask t) := by
    have reads := Reads.units (unmarked_of_units rfl units) (by simp) units ('{' :: Text.mask t)
      (.cons (by decide) (by decide) _)
    rw [scan_brace] at reads
    simpa using reads
  have whole : scan metricsMarks (Text.mask (lineOf a m t)) = ls ++ (.word, w ++ '\\' :: ':' :: m) ::
      (.openBrace, ['{']) :: scan metricsMarks (Text.mask t) := by
    rw [mask_lineOf parts, lineOf, h.reads, word]
  have length := congrArg List.length h.spelled
  rw [Text.length_mask, List.length_append, List.length_append, List.length_singleton] at length
  have stop : (spell ls).length + (w ++ '\\' :: ':' :: m).length = a.length + 1 + m.length := by
    simp
    omega
  refine ⟨((lineOf a m t).drop (spell ls).length).take (w ++ '\\' :: ':' :: m).length,
    place (a.length + 1 + m.length + 1) t (scan metricsMarks (Text.mask t)), ?_, ?_⟩
  · rw [tokens, whole, place_append, place, place, List.drop_drop, Nat.zero_add, stop, drop_lineOf]
    rfl
  · intro u mem
    have later := (start_of_mem_place mem).1
    omega

/-- Behind an aggregator that takes the colon into its last word there is no aggregator any more. -/
theorem ofLine_of_escaped {ls : List Lexeme} {w : Text} (stripped : Stripped a) (h : Escaped a ls w) :
    Expression.ofLine (lineOf a m t) = ⟨none, some (a ++ ':' :: m), '{' :: t⟩ := by
  obtain ⟨written, rest, same, beyond⟩ := tokens_of_escaped parts t h
  have within : (spell ls).length ≤ a.length := by
    rw [← Text.length_mask a, h.spelled, List.length_append]
    omega
  have shown : views (place 0 (lineOf a m t) ls) = views (place 0 (a ++ []) ls) := views_place within
  rw [List.append_nil] at shown
  have unended : Unended (views (place 0 (lineOf a m t) ls ++
      [⟨.word, (spell ls).length, written, w ++ '\\' :: ':' :: m⟩])) := by
    rw [views_append, shown]
    exact h.unended.append (by simp [views])
  have ends : (Reading.of (lineOf a m t)).metricEnd = a.length + 1 + m.length :=
    metricEnd_of_unended (by rw [same, List.append_assoc]; rfl) unended rfl
  have colon : (Reading.of (lineOf a m t)).aggregatorColon? = none := by
    unfold Reading.aggregatorColon?
    rw [ends, Option.map_eq_none_iff]
    change (tokens metricsMarks (lineOf a m t)).find? _ = none
    rw [same]
    apply List.find?_eq_none.2
    intro u mem
    rcases List.mem_append.1 mem with front | behind
    · have other : u.kind ≠ .colon := kind_of_mem_place (p := (· ≠ .colon)) h.colonless front
      simp [other]
    · rcases List.mem_cons.1 behind with rfl | behind
      · simp
      · rcases List.mem_cons.1 behind with rfl | behind
        · simp
        · simp [Nat.not_lt.2 (beyond u behind)]
  have metric : (lineOf a m t).slice 0 (a.length + 1 + m.length) = a ++ ':' :: m := by
    rw [Text.slice, List.drop_zero, take_lineOf]
  have whole : Text.stripped? (a ++ ':' :: m) = some (a ++ ':' :: m) := by
    apply stripped?_of_ends (by simp)
    · intro c first
      rw [List.head?_append_of_ne_nil _ stripped.filled] at first
      exact stripped.first c first
    · intro c last
      rw [List.append_cons, List.getLast?_append_of_ne_nil _ filled] at last
      exact (plain_of_isWordPart (parts c (List.mem_of_getLast? last))).2.1
  rw [ofLine_eq ends colon, Option.bind_none, Option.map_none, Option.getD_none, metric, drop_lineOf, whole]

end

/-- A text that ends with a backslash with which whatever comes behind goes on. -/
def EndsOpen (a : Text) : Prop := ((tokens metricsMarks a).getLast?.map (·.kind)) = some .stray

instance (a : Text) : Decidable (EndsOpen a) := inferInstanceAs (Decidable (_ = _))

theorem endsOpen_iff {a : Text} :
    EndsOpen a ↔ ∃ l ∈ (scan metricsMarks (Text.mask a)).getLast?, l.1 = .stray := by
  rw [← getLast?_tokens, EndsOpen, Option.map_eq_some_iff]
  simp

theorem Settled.not_endsOpen {a : Text} {ls : List Lexeme} (h : Settled a ls) : ¬ EndsOpen a := by
  intro open_
  obtain ⟨l, last, stray⟩ := endsOpen_iff.1 open_
  rw [h.whole.1] at last
  exact h.whole.2 l last stray

theorem Escaped.endsOpen {a w : Text} {ls : List Lexeme} (h : Escaped a ls w) : EndsOpen a := by
  have cut := h.reads []
  obtain ⟨front, lone⟩ := scan_lone proper_metricsMarks h.units
  rw [List.append_nil, lone, ← List.append_assoc] at cut
  refine endsOpen_iff.2 ⟨(.stray, ['\\']), ?_, rfl⟩
  rw [cut]
  exact List.getLast?_concat

end Typeahead.Metrics
