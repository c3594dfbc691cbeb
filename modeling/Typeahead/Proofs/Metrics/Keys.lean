import Typeahead.Proofs.Metrics.Tags
import Typeahead.Proofs.Metrics.Typed
import Typeahead.Proofs.Token.Seams

/-!
Which keys a filter has, if it gives escaped values to simple names: those names, and nothing that stands in a
value.

- `filterWords_eq`: without parentheses every word is judged for itself.
- `Pair.keysAmong_pair`: of the words of a pair only its key is a key.
- `Paired.contextOf_stop`: what is typed at the end of a filter, and the keys of the line.
- `contextOf_escapedValue`: what is typed in a value that is inserted.
-/

namespace Typeahead.Metrics

open Lexer

/-- Whether a token is a key outside of parentheses and away from the cursor. -/
def isKeyAt (position : Nat) (f : Focus) : Bool :=
  f.token.kind = .word && (!f.token.touches position && Reading.isFilterKey 0 f)

/-- Without parentheses the keys are those tokens that are keys for themselves. -/
theorem filterWords_eq {position : Nat} {fs : List Focus}
    (neutral : ∀ f ∈ fs, f.token.kind ≠ .openParen ∧ f.token.kind ≠ .closeParen) :
    Reading.filterWords position 0 fs = (fs.filter (isKeyAt position)).map (·.token.written) := by
  induction fs with
  | nil => rfl
  | cons f fs ih =>
    obtain ⟨⟨opens, closes⟩, later⟩ := List.forall_mem_cons.1 neutral
    rw [Reading.filterWords, List.filter_cons]
    split
    · next kind => exact absurd kind opens
    · next kind => exact absurd kind closes
    · next kind =>
      by_cases key : (!f.token.touches position && Reading.isFilterKey 0 f) = true
      · have found : isKeyAt position f = true := by rw [isKeyAt, kind, key]; rfl
        rw [if_pos key, if_pos found, ih later, List.map_cons]
      · have missed : ¬ isKeyAt position f = true := by
          rw [isKeyAt, kind, (Bool.not_eq_true _).mp key]
          simp
        rw [if_neg key, if_neg missed, ih later]
    · next word =>
      have missed : ¬ isKeyAt position f = true := by
        rw [isKeyAt, Bool.and_eq_true]
        exact fun held => word (of_decide_eq_true held.1)
      rw [if_neg missed, ih later]

theorem metricsMarks_ne_word (c : Char) : metricsMarks c ≠ some .word := by
  unfold metricsMarks
  split <;> simp

/-- What stands behind a word that no blank follows. -/
theorem following?_eq {f : Focus} (unblank : ∀ t ∈ f.after.head?, t.kind ≠ .blank) :
    f.following?.map (·.token) = f.after.head? := by
  unfold Focus.following?
  cases same : f.after with
  | nil => rfl
  | cons t after =>
    have kind : t.kind ≠ .blank := unblank t (by simp [same])
    simp [Focus.seekRight, kind]

/-- What stands before a word that follows no blank. -/
theorem preceding?_eq {f : Focus} (unblank : ∀ t ∈ f.before.head?, t.kind ≠ .blank) :
    f.preceding?.map (·.token) = f.before.head? := by
  unfold Focus.preceding?
  cases same : f.before with
  | nil => rfl
  | cons t before =>
    have kind : t.kind ≠ .blank := unblank t (by simp [same])
    simp [Focus.seekLeft, kind]

/-- A word behind a colon is no key, if no word and no blank follows it. -/
theorem isFilterKey_of_colon {f : Focus} {colon : Token} (first : f.before.head? = some colon)
    (kind : colon.kind = .colon) (next : ∀ t ∈ f.after.head?, t.kind ≠ .word ∧ t.kind ≠ .blank) :
    Reading.isFilterKey 0 f = false := by
  have previous : f.previous? = some .colon := by rw [Focus.previous?, first, Option.map_some, kind]
  have before : f.preceding?.map (·.token) = some colon := by
    rw [preceding?_eq, first]
    intro t mem
    obtain rfl : colon = t := by simpa [first] using mem
    simp [kind]
  have behind : f.following?.map (·.token) = f.after.head? := following?_eq fun t mem => (next t mem).2
  have unlisted : f.following?.any isIn = false ∧
      (f.following?.any fun n => isNot n && n.following?.any isIn) = false := by
    cases found : f.following? with
    | none => exact ⟨rfl, rfl⟩
    | some n =>
      rw [found, Option.map_some] at behind
      have word := (next n.token behind.symm).1
      simp [isIn, isNot, word]
  have bound : (f.preceding?.any fun p => p.token.kind = .openBrace || p.token.kind = .comma) = false := by
    cases found : f.preceding? with
    | none => rfl
    | some p =>
      rw [found, Option.map_some] at before
      obtain rfl := Option.some.inj before
      simp [kind]
  simp [Reading.isFilterKey, previous, unlisted.1, unlisted.2, bound]

/-- The keys among some tokens that stand between others. -/
def keysAmong (position : Nat) (before ts more : List Token) : List Text :=
  (((focusesFrom before ts).map (·.followedBy more)).filter (isKeyAt position)).map (·.token.written)

theorem keysAmong_cons (position : Nat) (before : List Token) (t : Token) (ts more : List Token) :
    keysAmong position before (t :: ts) more =
      (if isKeyAt position ⟨before, t, ts ++ more⟩ then [t.written] else []) ++
        keysAmong position (t :: before) ts more := by
  simp only [keysAmong, focusesFrom, List.map_cons, List.filter_cons, Focus.followedBy]
  split <;> rfl

theorem keysAmong_append (position : Nat) (before us ts more : List Token) :
    keysAmong position before (us ++ ts) more =
      keysAmong position before us (ts ++ more) ++ keysAmong position (us.reverse ++ before) ts more := by
  induction us generalizing before with
  | nil => rfl
  | cons u us ih =>
    rw [List.cons_append, keysAmong_cons, keysAmong_cons, ih, List.reverse_cons, List.append_assoc, List.append_assoc,
      List.append_assoc, List.singleton_append]

/-- Behind the colon of a pair no key is found. -/
theorem keysAmong_value {position : Nat} {colon : Token} {us before more : List Token} (kind : colon.kind = .colon)
    (kinds : ∀ t ∈ us, t.kind = .word ∨ t.kind = .colon)
    (apart : ∀ xs t u ys, colon :: us = xs ++ t :: u :: ys → t.kind = .word → u.kind ≠ .word)
    (ends : ∀ t ∈ more.head?, t.kind = .comma ∨ t.kind = .closeBrace) :
    keysAmong position (colon :: before) us more = [] := by
  apply List.map_eq_nil_iff.2
  apply List.filter_eq_nil_iff.2
  intro f mem
  obtain ⟨g, there, rfl⟩ := List.mem_map.1 mem
  obtain ⟨passed, same, front⟩ := mem_focusesFrom there
  by_cases word : g.token.kind = .word
  · obtain ⟨t, first, behind⟩ : ∃ t, g.before.head? = some t ∧ t.kind = .colon := by
      rcases List.eq_nil_or_concat' passed with rfl | ⟨xs, t, rfl⟩
      · exact ⟨colon, by simp [front], kind⟩
      · have unword : t.kind ≠ .word := by
          intro own
          exact apart (colon :: xs) t g.token g.after (by simp [same]) own word
        exact ⟨t, by simp [front], (kinds t (by simp [same])).resolve_left unword⟩
    have next : ∀ u ∈ (g.after ++ more).head?, u.kind ≠ .word ∧ u.kind ≠ .blank := by
      intro u mem
      cases after : g.after with
      | nil => rcases ends u (by simpa [after] using mem) with kind | kind <;> simp [kind]
      | cons u' ys =>
        obtain rfl : u' = u := by simpa [after] using mem
        have unword := apart (colon :: passed) g.token u' ys (by simp [same, after]) word
        simp [(kinds u' (by simp [same, after])).resolve_left unword]
    have other := isFilterKey_of_colon (f := g.followedBy more) first behind next
    simp [isKeyAt, other]
  · have kind : (g.followedBy more).token.kind ≠ .word := word
    simp [isKeyAt, kind]

namespace Pair

variable (p : Pair)

/-- The tokens of a pair: its key, its colon, and words and colons of its value, no two words side by side. -/
theorem exists_tokens (named : p.key ≠ []) {n : Nat} {line : Text} (written : line.take p.key.length = p.key) :
    ∃ colon us, place n line p.lexemes = ⟨.word, n, p.key, p.key⟩ :: colon :: us ∧ colon.kind = .colon ∧
      (∀ t ∈ us, t.kind = .word ∨ t.kind = .colon) ∧
      ∀ xs t u ys, colon :: us = xs ++ t :: u :: ys → t.kind = .word → u.kind ≠ .word := by
  have key : scan metricsMarks p.key = [(.word, p.key)] :=
    scan_of_reads (.word named fun c mem => (p.plain c mem).1)
  let colon : Token := ⟨.colon, n + p.key.length, (line.drop p.key.length).take 1, [':']⟩
  let us := place (n + p.key.length + 1) ((line.drop p.key.length).drop 1) (scan metricsMarks (Text.mask p.value))
  have tokens : place n line p.lexemes = ⟨.word, n, p.key, p.key⟩ :: colon :: us := by
    simp [lexemes, key, place, written, colon, us]
  refine ⟨colon, us, tokens, rfl, fun t => kind_of_mem_place (p := fun k => k = .word ∨ k = .colon)
    p.reads_value.2, fun xs t u ys same => ?_⟩
  have whole : place n line p.lexemes = (⟨.word, n, p.key, p.key⟩ :: xs) ++ t :: u :: ys := by
    rw [tokens, same, List.cons_append]
  exact kind_ne_word_of_word metricsMarks_ne_word (scan_of_reads p.reads) whole

/-- The key of a pair is found, and nothing of its value. -/
theorem keysAmong_pair (named : p.key ≠ []) {n position : Nat} {line : Text} {before more : List Token}
    (written : line.take p.key.length = p.key) (passed : n + p.text.length ≤ position)
    (fresh : ∀ t ∈ before.head?, t.kind ≠ .colon)
    (ends : ∀ t ∈ more.head?, t.kind = .comma ∨ t.kind = .closeBrace) :
    keysAmong position before (place n line p.lexemes) more = [p.key] := by
  obtain ⟨colon, us, tokens, kind, kinds, apart⟩ := p.exists_tokens named (n := n) written
  have untouched : (Token.touches ⟨.word, n, p.key, p.key⟩ position) = false := by
    have length : p.text.length = p.key.length + 1 + p.value.length := by
      simp [text]
      omega
    have beyond : ¬ position ≤ n + p.key.length := by omega
    simp [Token.touches, Token.stop, beyond]
  have found : isKeyAt position ⟨before, ⟨.word, n, p.key, p.key⟩, colon :: (us ++ more)⟩ = true := by
    have previous : before.head?.map (·.kind) ≠ some .colon := by
      intro colon
      obtain ⟨t, mem, kind⟩ := Option.map_eq_some_iff.1 colon
      exact fresh t mem kind
    simp [isKeyAt, untouched, Reading.isFilterKey, Focus.next?, Focus.previous?, kind, previous]
  have skipped : isKeyAt position ⟨⟨.word, n, p.key, p.key⟩ :: before, colon, us ++ more⟩ = false := by
    simp [isKeyAt, kind]
  rw [tokens, keysAmong_cons, List.cons_append, found, keysAmong_cons, skipped,
    keysAmong_value kind kinds apart ends]
  rfl

theorem length_spell : (spell p.lexemes).length = p.text.length := by
  rw [spell_of_reads p.reads, p.length_masked]

end Pair

theorem length_separated (pairs : List Pair) : (spell (separated (pairs.map Pair.lexemes))).length =
    (Text.joinWith [','] (pairs.map Pair.text)).length := by
  induction pairs with
  | nil => rfl
  | cons p pairs ih =>
    cases pairs with
    | nil => exact p.length_spell
    | cons p' pairs =>
      simp only [List.map_cons, separated, Text.joinWith, spell_append, spell_cons, List.length_append,
        p.length_spell] at ih ⊢
      rw [ih]
      omega

/-- The keys of pairs with commas between them. -/
theorem keysAmong_separated {position : Nat} {pairs : List Pair} (named : ∀ p ∈ pairs, p.key ≠ []) {n : Nat}
    {line rest : Text} {before more : List Token}
    (written : line = Text.joinWith [','] (pairs.map Pair.text) ++ rest)
    (passed : n + (Text.joinWith [','] (pairs.map Pair.text)).length ≤ position)
    (fresh : ∀ t ∈ before.head?, t.kind ≠ .colon) (ends : ∀ t ∈ more.head?, t.kind = .closeBrace) :
    keysAmong position before (place n line (separated (pairs.map Pair.lexemes))) more = pairs.map Pair.key := by
  induction pairs generalizing n line before with
  | nil => rfl
  | cons p pairs ih =>
    obtain ⟨first, later⟩ := List.forall_mem_cons.1 named
    have key (t : Text) : (p.text ++ t).take p.key.length = p.key := by
      rw [Pair.text, List.append_assoc, List.take_left]
    cases pairs with
    | nil =>
      rw [written, List.map_singleton, List.map_singleton, separated]
      exact p.keysAmong_pair first (key rest) passed fresh fun t mem => .inr (ends t mem)
    | cons p' pairs =>
      let comma : Token := ⟨.comma, n + p.text.length, [','], [',']⟩
      let behind := Text.joinWith [','] ((p' :: pairs).map Pair.text) ++ rest
      let tokens := place (n + p.text.length + 1) behind (separated ((p' :: pairs).map Pair.lexemes))
      have parts : line = p.text ++ ',' :: behind := by
        rw [written]
        simp [Text.joinWith, behind]
      have split : place n line (separated ((p :: p' :: pairs).map Pair.lexemes)) =
          place n line p.lexemes ++ comma :: tokens := by
        have lexemes : separated ((p :: p' :: pairs).map Pair.lexemes) =
            p.lexemes ++ (.comma, [',']) :: separated ((p' :: pairs).map Pair.lexemes) := rfl
        rw [lexemes, place_append, p.length_spell, parts, List.drop_left, place]
        rfl
      have length : (Text.joinWith [','] ((p :: p' :: pairs).map Pair.text)).length =
          p.text.length + 1 + (Text.joinWith [','] ((p' :: pairs).map Pair.text)).length := by
        simp [Text.joinWith]
        omega
      rw [length] at passed
      have own : keysAmong position before (place n line p.lexemes) (comma :: (tokens ++ more)) = [p.key] :=
        p.keysAmong_pair first (parts ▸ key _) (by omega) fresh (by simp [comma])
      have others : keysAmong position (comma :: ((place n line p.lexemes).reverse ++ before)) tokens more =
          (p' :: pairs).map Pair.key := ih later rfl (by omega) (by simp [comma])
      have skipped : isKeyAt position ⟨(place n line p.lexemes).reverse ++ before, comma, tokens ++ more⟩ = false :=
        rfl
      rw [split, keysAmong_append, List.cons_append, own, keysAmong_cons, skipped, others]
      rfl

theorem usedKeys_filterContext (r : Reading) (s : Span) (position : Nat) :
    (r.filterContext s position).usedKeys = r.filterKeys s position := by
  unfold Reading.filterContext
  dsimp only
  split
  · rfl
  · split <;> rfl

theorem mem_sorted {t : Text} {ts : List Text} : t ∈ Text.sorted ts ↔ t ∈ ts := by
  rw [Text.sorted, List.mem_eraseDups, List.mem_mergeSort]

namespace Paired

variable (q : Paired)

/-- Where the filter ends: at its closing brace, or at the end of the line. -/
def stop : Nat := q.head.length + 1 + (Text.joinWith [','] (q.pairs.map Pair.text)).length

theorem length_text : q.text.length = q.stop + (closingLexemes q.closed).length := by
  rw [length_closingLexemes, text, listing, stop]
  cases q.closed <;> simp <;> omega

/-- The last value ends where the filter does. -/
theorem stop_eq {before : List Pair} {p : Pair} (last : q.pairs = before ++ [p]) :
    q.stop = (q.upTo before ++ p.key ++ [':']).length + p.value.length := by
  have length := congrArg List.length (q.text_split last)
  have closing : (q.behind []).length = (closingLexemes q.closed).length := by
    rw [behind, listingBehind]
    cases q.closed <;> rfl
  rw [q.length_text, Pair.text] at length
  simp only [List.length_append, List.length_cons, List.length_nil] at length ⊢
  omega

/-- The tokens up to the brace of the filter. -/
def frontTokens : List Token := place 0 q.text (scan metricsMarks q.head ++ [(.openBrace, ['{'])])

/-- The tokens between the braces. -/
def pairTokens : List Token :=
  place (q.head.length + 1) (q.text.drop (q.head.length + 1)) (separated (q.pairs.map Pair.lexemes))

/-- The token of the closing brace, if there is one. -/
def closeTokens : List Token := place q.stop (q.text.drop q.stop) (closingLexemes q.closed)

theorem spell_front : spell (scan metricsMarks q.head ++ [(.openBrace, ['{'])]) = q.head ++ ['{'] := by
  have head : spell (scan metricsMarks q.head) = q.head := flatten_scan metricsMarks q.head
  simp [head]

section

variable (filled : q.pairs ≠ [])

include filled

/-- The lexemes of a line. -/
theorem scanned : scan metricsMarks (Text.mask q.text) = (scan metricsMarks q.head ++ [(.openBrace, ['{'])]) ++
    (separated (q.pairs.map Pair.lexemes) ++ closingLexemes q.closed) := by
  obtain ⟨p, pairs, same⟩ := List.exists_cons_of_ne_nil filled
  have split := separated_split Pair.lexemes [] p pairs
  rw [List.nil_append] at split
  rw [(q.segment (show q.pairs = [] ++ p :: pairs from same)).1.scanned, same, split]
  simp

theorem tokens_eq : (Reading.of q.text).tokens = q.frontTokens ++ q.pairTokens ++ q.closeTokens := by
  change place 0 q.text (scan metricsMarks (Text.mask q.text)) = _
  rw [q.scanned filled, place_append 0 q.text (_ ++ [_]), place_append _ _ (separated _), q.spell_front,
    length_separated, List.length_append, List.length_singleton, Nat.zero_add, List.drop_drop, List.append_assoc]
  rfl

theorem start_of_mem_front {t : Token} (mem : t ∈ q.frontTokens) : t.start ≤ q.head.length := by
  have inked : ∀ l ∈ scan metricsMarks q.head ++ [(.openBrace, ['{'])], l.2 ≠ [] := by
    intro l among
    have there : l ∈ scan metricsMarks (Text.mask q.text) := by
      rw [q.scanned filled]
      exact List.mem_append_left _ among
    exact scan_ne_nil there
  have before := start_lt_of_mem_place inked mem
  rw [q.spell_front, List.length_append, List.length_singleton] at before
  omega

theorem start_of_mem_pairs {t : Token} (mem : t ∈ q.pairTokens) : q.head.length < t.start ∧ t.start < q.stop := by
  have inked : ∀ l ∈ separated (q.pairs.map Pair.lexemes), l.2 ≠ [] := by
    intro l among
    have there : l ∈ scan metricsMarks (Text.mask q.text) := by
      rw [q.scanned filled]
      exact List.mem_append_right _ (List.mem_append_left _ among)
    exact scan_ne_nil there
  have before := start_lt_of_mem_place inked mem
  rw [length_separated] at before
  exact ⟨(start_of_mem_place mem).1, before⟩

/-- The tokens of the filter, seen with their neighbours. -/
theorem within_stop : (Reading.of q.text).within ⟨q.head.length, q.stop⟩ =
    (focusesFrom q.frontTokens.reverse q.pairTokens).map (·.followedBy q.closeTokens) := by
  have cut : Cut (Reading.of q.text) q.stop (q.frontTokens ++ q.pairTokens) q.closeTokens := by
    constructor
    · exact q.tokens_eq filled
    · intro t mem
      rcases List.mem_append.1 mem with front | inside
      · have := q.start_of_mem_front filled front
        rw [stop]
        omega
      · exact (q.start_of_mem_pairs filled inside).2
    · intro t mem
      exact (start_of_mem_place mem).1
  exact cut.within (fun t => q.start_of_mem_front filled) fun t mem => (q.start_of_mem_pairs filled mem).1

/-- The line as one with a filter between the braces. -/
theorem filtered : ∃ brace inner,
    Filtered (Reading.of q.text) (place 0 q.text (scan metricsMarks q.head)) brace inner ∧
      (Reading.of q.text).spanFrom brace inner = ⟨q.head.length, q.stop⟩ ∧
      brace.start = q.head.length ∧ ∀ t ∈ inner, brace.start ≤ t.start := by
  obtain ⟨p, pairs, same⟩ := List.exists_cons_of_ne_nil filled
  obtain ⟨segment, -⟩ := q.segment (show q.pairs = [] ++ p :: pairs from same)
  have head : (spell (scan metricsMarks q.head)).length = q.head.length :=
    congrArg List.length (flatten_scan metricsMarks q.head)
  have stop := segment.stop_eq
  rw [q.length_text, Nat.add_right_cancel_iff] at stop
  refine ⟨_, _, segment.filtered, ?_, head, ?_⟩
  · rw [← head, ← stop]
    rfl
  · intro t mem
    have later : (spell (scan metricsMarks q.head)).length + 1 ≤ t.start := (start_of_mem_place mem).1
    exact Nat.le_of_succ_le later

theorem filter?_eq : (Reading.of q.text).filter? = some ⟨q.head.length, q.stop⟩ := by
  obtain ⟨brace, inner, filtered, span, -⟩ := q.filtered filled
  rw [filtered.filter?_eq, span]

theorem metric?_eq : (Reading.of q.text).metric? = Text.stripped? q.head := by
  obtain ⟨brace, inner, filtered, -, start, later⟩ := q.filtered filled
  have words : ∀ t ∈ place 0 q.text (scan metricsMarks q.head), t.kind = .word :=
    fun t => kind_of_mem_place (p := (· = .word)) q.reads_head.2
  have head : q.text.slice 0 q.head.length = q.head := by
    have part := Text.slice_part [] q.head ('{' :: (Text.joinWith [','] (q.pairs.map Pair.text) ++
      if q.closed then ['}'] else [])) (Nat.le_refl _)
    rw [List.take_length, List.length_nil, Nat.zero_add] at part
    exact part
  rw [filtered.metric?_eq words later, start]
  exact congrArg Text.stripped? head

/-- The keys of a line are those of its pairs, if the cursor has passed them. -/
theorem filterKeys_eq (named : ∀ p ∈ q.pairs, p.key ≠ []) :
    (Reading.of q.text).filterKeys ⟨q.head.length, q.stop⟩ q.stop =
      Text.sorted (((q.pairs.map Pair.key).map bareKey).filter (!·.isEmpty)) := by
  obtain ⟨brace, inner, filtered, -⟩ := q.filtered filled
  have neutral : ∀ f ∈ (Reading.of q.text).within ⟨q.head.length, q.stop⟩,
      f.token.kind ≠ .openParen ∧ f.token.kind ≠ .closeParen := by
    intro f mem
    exact filtered.neutral_of_mem (token_mem_of_mem_focusesFrom (List.mem_filter.1 mem).1)
  have written : q.text.drop (q.head.length + 1) =
      Text.joinWith [','] (q.pairs.map Pair.text) ++ if q.closed then ['}'] else [] := by
    simp [text, listing]
  have fresh : ∀ t ∈ q.frontTokens.reverse.head?, t.kind ≠ .colon := by
    intro t mem
    rw [frontTokens, place_append, place, place, List.reverse_append] at mem
    obtain rfl := Option.some.inj mem
    simp
  have ends : ∀ t ∈ q.closeTokens.head?, t.kind = .closeBrace := by
    intro t mem
    have among := List.mem_of_mem_head? mem
    refine kind_of_mem_place (p := (· = .closeBrace)) ?_ among
    cases q.closed <;> simp [closingLexemes]
  have keys := keysAmong_separated named written (show _ ≤ q.stop from Nat.le_refl _) fresh ends
  rw [Reading.filterKeys, filterWords_eq neutral, q.within_stop filled]
  exact congrArg (fun ks => Text.sorted ((ks.map bareKey).filter (!·.isEmpty))) keys

/-- At the end of its last value everything is known of a line: the metric, the key and the value that is typed, the
other keys, and where the filter stands. -/
theorem contextOf_stop (named : ∀ p ∈ q.pairs, p.key ≠ []) {before : List Pair} {p : Pair}
    (last : q.pairs = before ++ [p]) :
    let c := contextOf q.text q.stop
    let key := bareKey (Text.strip p.key)
    c.place = .filterValue ∧ c.token = p.value ∧ (c.key? = if key.isEmpty then none else some key) ∧
      c.metric? = Text.stripped? q.head ∧
      c.usedKeys = Text.sorted (((q.pairs.map Pair.key).map bareKey).filter (!·.isEmpty)) ∧
      (Reading.of q.text).filter? = some ⟨q.head.length, q.stop⟩ := by
  intro c key
  obtain ⟨brace, inner, filtered, span, -⟩ := q.filtered filled
  have position := q.stop_eq last
  have bound : q.stop ≤ q.text.length := by
    rw [q.length_text]
    exact Nat.le_add_right ..
  have inside : ((Reading.of q.text).spanFrom brace inner).contains q.stop = true := by
    have opened : q.head.length < q.stop := by
      rw [stop]
      omega
    rw [span]
    exact Span.contains_iff.2 ⟨opened, Nat.le_refl _⟩
  have typed := q.contextOf_value last (Nat.le_refl p.value.length)
  rw [← position, List.take_length] at typed
  refine ⟨typed.1, typed.2.1, typed.2.2, ?_, ?_, ?_⟩
  · rw [← q.metric?_eq filled, show c = _ from q.contextOf_eq bound]
    exact metric?_contextAt _ _
  · have keys : c.usedKeys = (Reading.of q.text).filterKeys ⟨q.head.length, q.stop⟩ q.stop := by
      rw [show c = _ from q.contextOf_eq bound, ← span, ← usedKeys_filterContext, ← filtered.contextAt_eq inside]
      rfl
    rw [keys, q.filterKeys_eq filled named]
  · exact q.filter?_eq filled

end

end Paired

/-- The keys of escaped pairs, as the line shows them. -/
theorem bareKeys_eq (pairs : List TagPair) : ((((pairs.map TagPair.pair).map Pair.key).map bareKey).filter
    (!·.isEmpty)) = pairs.map (·.key.text) := by
  induction pairs with
  | nil => rfl
  | cons p pairs ih =>
    have key : bareKey p.pair.key = p.key.text := p.key.bareKey_eq
    have kept : (!p.key.text.isEmpty) = true := by simp [p.key.nonempty]
    rw [List.map_cons, List.map_cons, List.map_cons, key, List.filter_cons, if_pos kept, ih, List.map_cons]

/-- A value cannot break out of its place in a filter. Whatever is in it, marks and placeholders included: behind its
last character that value is typed, no more and no less, for its own key; the keys are those of the pairs; the
filter ends with the brace behind the value; and without its backslashes it is the value again, so that different
values are written differently. -/
theorem contextOf_escapedValue (metric : TagName) (before : List TagPair) (key : TagName) {value : Text}
    (inLine : ∀ c ∈ value, Text.insideLine c = true) :
    let front := listingUpTo metric.text (before.map TagPair.text) ++ key.text ++ [':']
    let line := front ++ escapeTagValue value ++ ['}']
    let cursor := (front ++ escapeTagValue value).length
    let c := contextOf line cursor
    c.place = .filterValue ∧ c.key? = some key.text ∧ c.token = escapeTagValue value ∧
      c.metric? = some metric.text ∧
      (∀ k, k ∈ c.usedKeys ↔ k ∈ before.map (·.key.text) ++ [key.text]) ∧
      (Reading.of line).filter? = some ⟨metric.text.length, cursor⟩ ∧
      unescape (escapeTagValue value) = value ∧ Function.Injective escapeTagValue := by
  intro front line cursor c
  let own := TagPair.escaped key value inLine
  let q : Paired := ⟨metric.text, metric.plain, (before ++ [own]).map TagPair.pair, true⟩
  have last : q.pairs = before.map TagPair.pair ++ [own.pair] := by simp [q]
  have filled : q.pairs ≠ [] := by simp [last]
  have upTo : q.upTo (before.map TagPair.pair) ++ key.text ++ [':'] = front := by
    rw [Paired.upTo, List.map_map]
    rfl
  have text : q.text = line := by
    have ends : q.behind [] = ['}'] := rfl
    rw [q.text_split last, ends, Pair.text]
    change _ ++ (key.text ++ ':' :: escapeTagValue value) ++ ['}'] = _
    simp only [line, ← upTo, List.append_assoc, List.cons_append, List.nil_append]
  have stop : q.stop = cursor := by
    rw [q.stop_eq last]
    change (q.upTo (before.map TagPair.pair) ++ key.text ++ [':']).length + (escapeTagValue value).length = _
    rw [upTo, ← List.length_append]
  have named : ∀ p ∈ q.pairs, p.key ≠ [] := by
    intro p mem
    obtain ⟨own, -, rfl⟩ := List.mem_map.1 mem
    exact own.key.nonempty
  have typed := q.contextOf_stop filled named last
  rw [text, stop, bareKeys_eq] at typed
  obtain ⟨place, token, bare, name, keys, filter⟩ := typed
  have unsigned : bareKey (Text.strip own.pair.key) = key.text := by
    change bareKey (Text.strip key.text) = _
    rw [key.strip_eq, key.bareKey_eq]
  refine ⟨place, ?_, token, name.trans metric.stripped?_eq, ?_, filter, unescape_escapeTagValue value,
    Function.LeftInverse.injective unescape_escapeTagValue⟩
  · rw [bare, unsigned, if_neg (by simp [key.nonempty])]
  · intro k
    rw [keys, mem_sorted, List.map_append]
    rfl

theorem contextOf_escapedValue_marks :
    let value := "a,k:b\x7d \\".toList
    let m : TagName := ⟨"m".toList, by decide, by decide⟩
    let env : TagName := ⟨"env".toList, by decide, by decide⟩
    let host : TagPair := .escaped ⟨"host".toList, by decide, by decide⟩ [] (by simp)
    let front := listingUpTo m.text [host.text] ++ env.text ++ [':']
    let line := front ++ escapeTagValue value ++ ['}']
    let c := contextOf line (front ++ escapeTagValue value).length
    (∀ c ∈ value, Text.insideLine c = true) ∧
    line = "m\x7bhost:,env:a\\,k:b\\\x7d\\ \\\\\x7d".toList ∧
    c.token = escapeTagValue value ∧ c.key? = some env.text ∧
    ∀ k, k ∈ c.usedKeys ↔ k ∈ ["host".toList, env.text] := by
  intro value m env host front line c
  have inLine : ∀ c ∈ value, Text.insideLine c = true := List.all_eq_true.1 (by decide)
  obtain ⟨-, key, token, -, keys, -⟩ := contextOf_escapedValue m [host] env inLine
  exact ⟨inLine, by decide, token, key, keys⟩

end Typeahead.Metrics
