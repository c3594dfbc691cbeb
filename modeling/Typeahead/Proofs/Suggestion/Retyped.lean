import Typeahead.Proofs.Logs.Quoted
import Typeahead.Proofs.Metrics.Tags
import Typeahead.Proofs.Suggestion.Ranked
import Typeahead.Proofs.Text.Lower

/-!
Whether a value goes on being offered while it is typed in the form in which it would be inserted. What is typed is
looked for in the value with its backslashes, so that a mark of the query's language makes the value disappear.

- `offers_tagValue_iff`, `offers_facetValue_iff`: a value is offered if and only if what is typed stands in it.
- `offers_retyped`: values that are typed with their backslashes.
- `typed_marks_hide_values`: values that disappear while they are typed.
-/

namespace Typeahead

namespace Suggestion

open Logs (FacetName)
open Metrics (TagName)

/-- Some item is labelled with the value. -/
def Offers (items : List Item) (value : Text) : Prop := ∃ item ∈ items, item.label = value

variable {c : Context} {names : Candidates} {limit : Int} {value : Text}

/-- A value of a tag is offered if and only if what is typed stands in it, quotes around that left out. -/
theorem offers_tagValue_iff (place : c.place = .filterValue) (among : value ∈ names .tagValues)
    (room : ((names .tagValues).eraseDups.length : Int) < limit) : Offers (suggest c names limit) value ↔
      Text.occurs (Text.trim (· = '"') c.token).lower value.lower = true := by
  have items : fitting c names = valueItems c (names .tagValues) := by simp only [fitting, place]
  constructor
  · rintro ⟨item, offered, rfl⟩
    have fits := mem_fitting_of_offered offered
    rw [items] at fits
    obtain ⟨v, -, found⟩ := List.mem_filterMap.1 fits
    obtain ⟨-, label, -, holds⟩ := Proposal.of_fitting? found
    exact label ▸ holds
  · intro holds
    obtain ⟨fit, found⟩ := Option.isSome_iff_exists.1 (isSome_of?_iff.2 holds)
    let own : Proposal := ⟨.filterValue, value, escapeTagValue value, some ("Value for tag " ++ keyText c.key?), .usual⟩
    have fits : own.item fit ∈ fitting c names := by
      rw [items]
      exact List.mem_filterMap.2 ⟨value, among, by simp [Proposal.fitting?, found, own]⟩
    apply offered_of_fitting fits (List.mem_eraseDups.2 among) _ (Int.le_of_lt room)
    intro a mem _
    rw [items] at mem
    obtain ⟨v, there, shown⟩ := List.mem_filterMap.1 mem
    obtain ⟨-, label, -⟩ := Proposal.of_fitting? shown
    exact List.mem_eraseDups.2 (label ▸ there)

/-- At most one group of levels is what is typed. -/
theorem length_typedCombinations (typed : Text) :
    (levelCombinations.filter fun p => p.1.lower = typed).length ≤ 1 := by
  have apart : (levelCombinations.map (·.1.lower)).Nodup := by decide +kernel
  have once := List.nodup_iff_count.1 apart typed
  rw [List.count, List.countP_map, List.countP_eq_length_filter] at once
  simpa only [Function.comp_def, beq_eq_decide] using once

/-- A value of a facet is offered if and only if what is typed stands in it, if it begins with that whenever a group
of levels is offered too. -/
theorem offers_facetValue_iff (place : c.place = .facetValue) (among : value ∈ names (valueSource c.facet?).2)
    (room : ((names (valueSource c.facet?).2).eraseDups.length : Int) < limit)
    (begins : ∀ p ∈ levelCombinations, Text.occurs c.token.lower p.1.lower = true → c.token.lower <+: value.lower) :
    Offers (suggest c names limit) value ↔ Text.occurs c.token.lower value.lower = true := by
  have items : fitting c names = facetValueItems c names := by simp only [fitting, place]
  constructor
  · rintro ⟨item, offered, rfl⟩
    have fits := mem_fitting_of_offered offered
    rw [items] at fits
    rcases of_mem_facetValueItems fits with ⟨v, -, found⟩ | ⟨p, -, found⟩
    · obtain ⟨-, label, -, holds⟩ := Proposal.of_fitting? found
      exact label ▸ holds
    · obtain ⟨-, label, -, holds⟩ := Proposal.of_fitting? found
      exact label ▸ holds
  · intro holds
    obtain ⟨fit, found⟩ := Option.isSome_iff_exists.1 (isSome_of?_iff.2 holds)
    have own : (facetValueProposal c value).fitting? c.token = some ((facetValueProposal c value).item fit) := by
      rw [Proposal.fitting?]
      exact congrArg (Option.map _) found
    let combinations := levelCombinations.filter fun p => p.1.lower = c.token.lower
    have listed : value ∈ (names (valueSource c.facet?).2).eraseDups ++ combinations.map (·.1) :=
      List.mem_append_left _ (List.mem_eraseDups.2 among)
    refine offered_of_fitting (items ▸ mem_facetValueItems among own) listed ?_ ?_
    · intro a mem first
      rw [items] at mem
      rcases of_mem_facetValueItems mem with ⟨v, there, shown⟩ | ⟨p, there, shown⟩
      · obtain ⟨-, label, -⟩ := Proposal.of_fitting? shown
        exact List.mem_append_left _ (List.mem_eraseDups.2 (label ▸ there))
      · -- a group of levels comes first only if it is what is typed
        obtain ⟨fit', found', rfl⟩ := Option.map_eq_some_iff.1 shown
        have less := Item.digit_lt_of_le rfl rfl first
        have holds' := occurs_of_fits (Option.isSome_iff_exists.2 ⟨fit', found'⟩)
        have outside := Fit.ne_inside (begins p there holds')
        have equal : fit' = .equal := by
          cases fit <;> cases fit' <;> first | rfl | exact absurd less (by decide) | exact absurd found outside
        have typed := Fit.lower_eq_of_equal (equal ▸ found')
        exact List.mem_append_right _ (List.mem_map_of_mem (List.mem_filter.2 ⟨there, decide_eq_true typed⟩))
    · have few : combinations.length ≤ 1 := length_typedCombinations c.token.lower
      rw [List.length_append, List.length_map]
      omega

/-- A text with a backslash stands in no text without one, in any case. -/
theorem not_occurs_of_backslash {typed : Text} (escaped : '\\' ∈ typed) (plain : '\\' ∉ value) :
    ¬ Text.occurs typed.lower value.lower = true := by
  intro holds
  have inside := (Text.occurs_iff.1 holds).subset (Text.backslash_mem_lower.2 escaped)
  exact plain (Text.backslash_mem_lower.1 inside)

variable {before after : Text}

/-- The groups of levels are plain: there are no backslashes and no sigmas in them. -/
theorem plain_of_combination {p : Text × String} (mem : p ∈ levelCombinations) {c : Char} (own : c ∈ p.1.lower) :
    c ≠ '\\' ∧ c ≠ Char.ofNat 0x3C3 ∧ c ≠ Char.ofNat 0x3C2 := by
  have plain : levelCombinations.all (fun p => p.1.lower.all fun c =>
      c ≠ '\\' && c ≠ Char.ofNat 0x3C3 && c ≠ Char.ofNat 0x3C2) = true := by decide +kernel
  simpa [and_assoc] using List.all_eq_true.1 (List.all_eq_true.1 plain p mem) c own

/-- What stands in a group of levels is no escaped mark and no half of a word, so the value that it was typed of
begins with it. -/
theorem begins_of_combination {p : Text × String} (mem : p ∈ levelCombinations)
    (holds : Text.occurs (escapeQuoted before).lower p.1.lower = true) :
    (escapeQuoted before).lower <+: (before ++ after).lower := by
  have within : ∀ c ∈ (escapeQuoted before).lower, c ∈ p.1.lower := (Text.occurs_iff.1 holds).subset
  have unmarked : before.any (fun c => c = '\\' || c = '"') = false := by
    by_contra marked
    have escaped := backslash_mem_escapeWith ((Bool.not_eq_false _).mp marked)
    exact (plain_of_combination mem (within _ (Text.backslash_mem_lower.2 escaped))).1 rfl
  have same : escapeQuoted before = before := escapeWith_of_unmarked unmarked
  rw [same] at within ⊢
  apply Text.lower_prefix
  by_contra split
  obtain ⟨c, among, sigma⟩ : ∃ c ∈ before, c.toNat = 0x3A3 := by
    simp only [Text.splitsSigma, Bool.not_eq_false, Bool.and_eq_true] at split
    exact Text.exists_sigma split.1
  obtain rfl : c = 'Σ' := Char.toNat_inj.1 (sigma.trans (by decide))
  have small : Char.ofNat 0x3C3 ∈ lowerChar 'Σ' := by decide +kernel
  rcases Text.mem_lowerFrom among small false with inner | ⟨-, final⟩
  · exact (plain_of_combination mem (within _ inner)).2.1 rfl
  · exact (plain_of_combination mem (within _ final)).2.2 rfl

/-- When a value is offered, of which the beginning `before` is typed with a backslash before its marks. -/
structure Retyped (offered : Prop) (typed before after : Text) (isMark : Char → Bool) : Prop where
  iff : offered ↔ Text.occurs typed.lower (before ++ after).lower = true
  of_unmarked : before.any isMark = false → Text.splitsSigma before after = false → offered
  of_marked : before.any isMark = true → '\\' ∉ before ++ after → ¬ offered

variable {offered : Prop} {isMark : Char → Bool}

theorem Retyped.of_iff {typed : Text} (holds : offered ↔ Text.occurs typed.lower (before ++ after).lower = true)
    (same : before.any isMark = false → typed = before) (escaped : before.any isMark = true → '\\' ∈ typed) :
    Retyped offered typed before after isMark where
  iff := holds
  of_unmarked unmarked whole := by
    rw [holds, same unmarked]
    exact Text.occurs_iff.2 (Text.lower_prefix whole).isInfix
  of_marked marked plain found := not_occurs_of_backslash (escaped marked) plain (holds.1 found)

variable (inLine : ∀ c ∈ before, Text.insideLine c = true)

include inLine

/-- A value of a tag, of which the beginning is typed at the end of the line. -/
theorem offers_openValue (metric key : TagName) (among : before ++ after ∈ names .tagValues)
    (room : ((names .tagValues).eraseDups.length : Int) < limit) :
    let line := metric.text ++ '{' :: (key.text ++ ':' :: escapeTagValue before)
    Retyped (Offers (suggest (Metrics.contextOf line line.length) names limit) (before ++ after))
      (Text.trim (· = '"') (escapeTagValue before)) before after isFilterMark := by
  intro line
  obtain ⟨place, token⟩ := Metrics.contextOf_openValue metric key inLine
  have offers := offers_tagValue_iff place among room
  rw [token] at offers
  apply Retyped.of_iff offers
  · intro unmarked
    have unquoted : ∀ c ∈ before, decide (c = '"') = false := by
      intro c mem
      have plain := List.any_eq_false.1 unmarked c mem
      simp only [isFilterMark, Bool.or_eq_true, not_or] at plain
      exact (Bool.not_eq_true _).mp plain.1.2
    rw [show escapeTagValue before = before from escapeWith_of_unmarked unmarked, Text.trim_of_forall unquoted]
  · intro marked
    exact Text.mem_trim (backslash_mem_escapeWith marked) (by decide)

/-- A value of a facet, of which the beginning is typed behind a quote. -/
theorem offers_openQuote (f : FacetName) (among : before ++ after ∈ names (valueSource (Facet.named? f.text)).2)
    (room : ((names (valueSource (Facet.named? f.text)).2).eraseDups.length : Int) < limit) :
    let line := f.lineWith ('"' :: escapeQuoted before)
    Retyped (Offers (suggest (Logs.contextOf line line.length) names limit) (before ++ after))
      (escapeQuoted before) before after fun c => c = '\\' || c = '"' := by
  intro line
  have asks := f.contextOf_openQuote inLine
  rw [← asks.facet] at among room
  have offers := offers_facetValue_iff asks.place among room fun p mem found => by
    rw [asks.token] at found ⊢
    exact begins_of_combination mem found
  rw [asks.token] at offers
  exact .of_iff offers escapeWith_of_unmarked backslash_mem_escapeWith

omit inLine

/-- A value that is typed as it would be inserted is offered if and only if it holds what is typed, backslashes
included: in a filter of a metric, and behind an open quote at a facet. As long as no mark is typed it is offered,
unless the cursor cuts a word behind a capital sigma. Once a mark of a value without backslashes is typed it is not
offered anymore. -/
theorem offers_retyped {before after : Text} (inLine : ∀ c ∈ before ++ after, Text.insideLine c = true)
    (names : Candidates) (limit : Int) :
    (∀ metric key : TagName,
      let line := metric.text ++ '{' :: (key.text ++ ':' :: escapeTagValue before)
      before ++ after ∈ names .tagValues → ((names .tagValues).eraseDups.length : Int) < limit →
      Retyped (Offers (suggest (Metrics.contextOf line line.length) names limit) (before ++ after))
        (Text.trim (· = '"') (escapeTagValue before)) before after isFilterMark) ∧
    ∀ f : FacetName,
      let line := f.lineWith ('"' :: escapeQuoted before)
      let values := names (valueSource (Facet.named? f.text)).2
      before ++ after ∈ values → (values.eraseDups.length : Int) < limit →
      Retyped (Offers (suggest (Logs.contextOf line line.length) names limit) (before ++ after))
        (escapeQuoted before) before after fun c => c = '\\' || c = '"' := by
  have typed : ∀ c ∈ before, Text.insideLine c = true := fun c mem => inLine c (List.mem_append_left _ mem)
  exact ⟨fun metric key among room => offers_openValue typed metric key among room,
    fun f among room => offers_openQuote typed f among room⟩

theorem offers_retyped_comma :
    let names : Candidates := fun _ => ["a,b".toList]
    ¬ Offers (suggest (Metrics.contextOf "m\x7bk:a\\,".toList 7) names 10) "a,b".toList ∧
    Offers (suggest (Logs.contextOf "service:\"a,".toList 11) names 10) "a,b".toList := by
  intro names
  have inLine : ∀ c ∈ "a,".toList ++ "b".toList, Text.insideLine c = true := List.all_eq_true.1 (by decide)
  obtain ⟨filter, facet⟩ := offers_retyped inLine names 10
  have lost := (filter ⟨"m".toList, by decide, by decide⟩ ⟨"k".toList, by decide, by decide⟩ (by decide)
    (by decide)).of_marked (by decide) (by decide)
  have kept := (facet FacetName.service (by decide) (by decide)).of_unmarked (by decide) (by decide)
  exact ⟨lost, kept⟩

/-- Values that disappear once a comma, a quote, or a capital sigma within a word is typed. -/
theorem typed_marks_hide_values :
    let names : Candidates := fun _ => ["a,b".toList, "a\"b".toList, "ΑΣΑ".toList]
    ¬ Offers (suggest (Metrics.contextOf "m\x7bk:a\\,".toList 7) names 10) "a,b".toList ∧
    ¬ Offers (suggest (Logs.contextOf "service:\"a\\\"".toList 12) names 10) "a\"b".toList ∧
    ¬ Offers (suggest (Metrics.contextOf "m\x7bk:ΑΣ".toList 6) names 10) "ΑΣΑ".toList := by
  unfold Offers
  decide +kernel

end Suggestion

end Typeahead
