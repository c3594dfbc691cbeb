import Typeahead.Proofs.Logs.Groups
import Typeahead.Proofs.Metrics.Braces

/-!
The partners of brackets in a line of either language, whether its brackets nest or not. In a metrics line the stretch
of an opening brace ends with its partner; in a logs line a position is in the last group that is open there.

- `stop_spanFrom_of_closedBy`, `stop_spanFrom_of_unclosed`: where the stretch of an opening brace ends.
- `scans_find_partners`: what the scans of both languages find.
-/

namespace Typeahead

namespace Metrics

variable {r : Reading} {f : Focus} {t : Token}

theorem stop_spanFrom_of_closedBy (closed : ClosedBy .openBrace .closeBrace f t) :
    (r.spanFrom f.token f.after).stop = t.start := by
  have found := (closedBy_iff (by decide) closed.opens).1 closed
  simp only [Reading.spanFrom, closingBrace?_eq_stray?, found, Option.map_some, Option.getD_some]

theorem stop_spanFrom_of_unclosed (opens : f.token.kind = .openBrace)
    (unclosed : ∀ t, ¬ClosedBy .openBrace .closeBrace f t) :
    (r.spanFrom f.token f.after).stop = r.text.length := by
  have passed : stray? .openBrace .closeBrace 0 f.after = none := by
    apply Option.eq_none_iff_forall_ne_some.2
    intro t found
    exact unclosed t ((closedBy_iff (by decide) opens).2 found)
  simp only [Reading.spanFrom, closingBrace?_eq_stray?, passed, Option.map_none, Option.getD_none]

end Metrics

/-- Both scans find the right partner in every line. The stretch of an opening brace ends with the brace that closes it,
or with the line if none does. At every position the group that is found is the last one open there, if any is. For a
closing parenthesis that is the group it closes, and it closes nothing where none is open. -/
theorem scans_find_partners (line : Text) :
    (∀ f ∈ focuses (Metrics.Reading.of line).tokens, f.token.kind = .openBrace →
      let s := (Metrics.Reading.of line).spanFrom f.token f.after
      s.start = f.token.start ∧
      (∀ t, ClosedBy .openBrace .closeBrace f t → s.stop = t.start) ∧
      ((∀ t, ¬ClosedBy .openBrace .closeBrace f t) → s.stop = line.length)) ∧
    (∀ position,
      (∀ f, (Logs.Reading.of line).openGroup? position = some f ↔
        Logs.LastOpen (Logs.Reading.of line).tokens position f) ∧
      ((Logs.Reading.of line).openGroup? position = none ↔
        ∀ f ∈ focuses (Logs.Reading.of line).tokens, ¬Logs.OpenAt position f)) ∧
    ∀ f ∈ focuses (Logs.Reading.of line).tokens, ∀ t ∈ (Logs.Reading.of line).tokens, t.kind = .closeParen →
      (ClosedBy .openParen .closeParen f t ↔ (Logs.Reading.of line).openGroup? t.start = some f) := by
  refine ⟨?_, ?_, ?_⟩
  · intro f _ opens
    exact ⟨rfl, fun t => Metrics.stop_spanFrom_of_closedBy, Metrics.stop_spanFrom_of_unclosed opens⟩
  · intro position
    exact ⟨fun f => Logs.openGroup?_eq_some_iff, Logs.openGroup?_eq_none_iff⟩
  · intro f mem t among closes
    exact Logs.closedBy_iff_openGroup? mem among closes

/-- A brace in braces, a brace that is left open, a parenthesis that closes nothing, and one that closes the inner of
two groups. -/
theorem scans_find_partners_unbalanced :
    let line := "m\x7bk:\x7ba\x7d\x7d) ((b) \x7bc".toList
    let metrics := Metrics.Reading.of line
    let logs := Logs.Reading.of line
    (∃ f ∈ focuses metrics.tokens, f.token.kind = .openBrace ∧ f.token.start = 1 ∧
      (∃ t, ClosedBy .openBrace .closeBrace f t) ∧ (metrics.spanFrom f.token f.after).stop = 7) ∧
    (∃ f ∈ focuses metrics.tokens, f.token.kind = .openBrace ∧ f.token.start = 15 ∧
      (∀ t, ¬ClosedBy .openBrace .closeBrace f t) ∧ (metrics.spanFrom f.token f.after).stop = 17) ∧
    (∃ f, f.token.start = 10 ∧ Logs.LastOpen logs.tokens 17 f) ∧
    (∀ f ∈ focuses logs.tokens, ¬Logs.OpenAt 8 f) ∧
    ∃ f ∈ focuses logs.tokens, ∃ t ∈ logs.tokens, t.kind = .closeParen ∧ f.token.start = 11 ∧ t.start = 13 ∧
      ClosedBy .openParen .closeParen f t := by
  intro line metrics logs
  obtain ⟨braces, groups, parens⟩ := scans_find_partners line
  have apart : TokenKind.openBrace ≠ .closeBrace := by decide
  refine ⟨?_, ?_, ?_, (groups 8).2.1 (by decide +kernel), ?_⟩
  · obtain ⟨f, mem, opens, start, scanned⟩ : ∃ f ∈ focuses metrics.tokens, f.token.kind = .openBrace ∧
        f.token.start = 1 ∧ (stray? .openBrace .closeBrace 0 f.after).map (·.start) = some 7 := by decide +kernel
    obtain ⟨t, found, stop⟩ := Option.map_eq_some_iff.1 scanned
    have closed := (closedBy_iff apart opens).2 found
    exact ⟨f, mem, opens, start, ⟨t, closed⟩, ((braces f mem opens).2.1 t closed).trans stop⟩
  · obtain ⟨f, mem, opens, start, scanned⟩ : ∃ f ∈ focuses metrics.tokens, f.token.kind = .openBrace ∧
        f.token.start = 15 ∧ stray? .openBrace .closeBrace 0 f.after = none := by decide +kernel
    have unclosed : ∀ t, ¬ClosedBy .openBrace .closeBrace f t := by
      intro t closed
      cases scanned.symm.trans ((closedBy_iff apart opens).1 closed)
    exact ⟨f, mem, opens, start, unclosed, (braces f mem opens).2.2 unclosed⟩
  · have found : (logs.openGroup? 17).map (·.token.start) = some 10 := by decide +kernel
    obtain ⟨f, found, start⟩ := Option.map_eq_some_iff.1 found
    exact ⟨f, start, ((groups 17).1 f).1 found⟩
  · have found : (logs.openGroup? 13).map (·.token.start) = some 11 := by decide +kernel
    obtain ⟨f, found, start⟩ := Option.map_eq_some_iff.1 found
    obtain ⟨t, among, closes, here⟩ : ∃ t ∈ logs.tokens, t.kind = .closeParen ∧ t.start = 13 := by decide +kernel
    obtain ⟨passed, later, split, -⟩ := ((groups 13).1 f).1 found
    have mem : f ∈ focuses logs.tokens := split ▸ List.mem_append_right passed List.mem_cons_self
    exact ⟨f, mem, t, among, closes, start, here, (parens f mem t among closes).2 (here ▸ found)⟩

end Typeahead
