import Typeahead.Proofs.Metrics.Listed

/-!
What every cursor in a metrics query types, if the query is written out in full.

- `Query.exists_entry`: a cursor between the braces of a filter stands in one of its entries.
- `Query.contextOf_written`: what is typed at a cursor.
-/

namespace Typeahead.Metrics

namespace Query

/-- A cursor between the braces of a filter stands in an entry. -/
theorem exists_entry (q : Query) {e : Entry} {more : List Entry} (filter : q.filter? = some (e :: more))
    {cursor : Nat} (opened : q.head.length < cursor) (closed : cursor < (q.head ++ q.filterText).length) :
    ∃ before here after n, e :: more = before ++ here :: after ∧ n ≤ here.text.length ∧
      cursor = (q.upTo before).length + n := by
  have length : (q.head ++ q.filterText).length =
      q.head.length + 1 + (Text.joinWith [','] ((e :: more).map Entry.text)).length + 1 := by
    simp [filterText, filter]
    omega
  obtain ⟨before, here, after, n, same, within, position⟩ :=
    Text.exists_piece Entry.text ',' e more (n := cursor - (q.head.length + 1)) (by omega)
  refine ⟨before, here, after, n, same, within, ?_⟩
  simp only [upTo, List.length_append, List.length_cons]
  omega

/-- What a cursor in a query types. Everywhere the metric is known. The aggregator is typed up to its end,
and the metric behind its colon. Between the braces of the filter every cursor stands in an entry: it types
the key up to its end, a value behind the colon of its key, and between the parentheses of a list the item
that it has reached. -/
theorem contextOf_written (q : Query) :
    (∀ cursor, (contextOf q.text cursor).metric? = some q.metric.text) ∧
    (∀ a, q.aggregator? = some a → ∀ n ≤ a.text.length,
      q.typedAt n = (.aggregatorPrefix, a.text.take n, none)) ∧
    (∀ n ≤ q.metric.text.length,
      q.typedAt (q.prefixText.length + n) = (.metricName, q.metric.text.take n, none)) ∧
    (∀ e more, q.filter? = some (e :: more) → ∀ cursor, q.head.length < cursor →
      cursor < (q.head ++ q.filterText).length → ∃ before here after n,
        e :: more = before ++ here :: after ∧ n ≤ here.text.length ∧
          cursor = (q.upTo before).length + n) ∧
    (∀ before key value after, q.filter? = some (before ++ .pair key value :: after) →
      (∀ n ≤ key.text.length,
        q.typedAt ((q.upTo before).length + n) = (.filterKey, key.text.take n, none)) ∧
      ∀ n ≤ value.text.length, q.typedAt ((q.upTo before ++ key.text ++ [':']).length + n) =
        (.filterValue, value.text.take n, some key.text)) ∧
    ∀ before key negated first more after,
      q.filter? = some (before ++ .list key negated first more :: after) →
      (∀ n ≤ key.text.length,
        q.typedAt ((q.upTo before).length + n) = (.filterKey, key.text.take n, none)) ∧
      ∀ n ≤ (Entry.inside first more).length,
        q.typedAt ((q.upTo before ++ key.text ++ Entry.operator negated).length + n) =
          (.filterValue, Text.trailing isNameChar ((Entry.inside first more).take n), some key.text) := by
  have metric (cursor : Int) : (contextOf q.text cursor).metric? = some q.metric.text := by
    rw [q.contextOf_eq]
    exact (metric?_contextAt _ _).trans q.metric?_eq
  exact ⟨metric, fun a aggregator n => q.typedAt_aggregator aggregator, fun n => q.typedAt_metric,
    fun e more filter cursor => q.exists_entry filter,
    fun before key value after filter => ⟨fun n => q.typedAt_key filter, fun n => q.typedAt_value filter⟩,
    fun before key negated first more after filter =>
      ⟨fun n => q.typedAt_key filter, fun n => q.typedAt_listed filter⟩⟩

/-- A query with a pair, a list with an operator of two words, and a grouping. -/
def hosts : Query where
  aggregator? := some ⟨"avg".toList, by decide, by decide⟩
  metric := ⟨"system.cpu".toList, by decide, by decide, by decide, by decide⟩
  filter? := some [
    .pair ⟨"host".toList, by decide, by decide, by decide, by decide⟩
      ⟨"web-1".toList, by decide, by decide, by decide, by decide⟩,
    .list ⟨"env".toList, by decide, by decide, by decide, by decide⟩ true
      ⟨"prod".toList, by decide, by decide, by decide, by decide⟩
      [⟨true, ⟨"dev".toList, by decide, by decide, by decide, by decide⟩⟩]]
  grouping? := some [⟨"zone".toList, by decide, by decide, by decide, by decide⟩]

theorem contextOf_written_hosts :
    hosts.text = "avg:system.cpu\x7bhost:web-1,env NOT IN (prod, dev)\x7d by \x7bzone\x7d".toList ∧
    (contextOf hosts.text 99).metric? = some "system.cpu".toList ∧
    hosts.typedAt 2 = (.aggregatorPrefix, "av".toList, none) ∧
    hosts.typedAt 10 = (.metricName, "system".toList, none) ∧
    hosts.typedAt 17 = (.filterKey, "ho".toList, none) ∧
    hosts.typedAt 23 = (.filterValue, "web".toList, some "host".toList) ∧
    hosts.typedAt 46 = (.filterValue, "de".toList, some "env".toList) := by
  obtain ⟨metric, aggregator, name, -, pair, list⟩ := hosts.contextOf_written
  obtain ⟨key, value⟩ := pair [] _ _ _ rfl
  obtain ⟨-, item⟩ := list [_] _ _ _ _ [] rfl
  exact ⟨by decide, metric 99, aggregator _ rfl 2 (by decide), name 6 (by decide), key 2 (by decide),
    value 3 (by decide), item 8 (by decide)⟩

end Query

end Typeahead.Metrics
