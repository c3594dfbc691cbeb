import Typeahead.Catalog.Path
import Typeahead.Proofs.Text.Percent
import Typeahead.Proofs.Text.Pieces

/-!
How names become segments of paths. A name that has no slash in it and is neither `.` nor `..` becomes one
segment, which reads as the name again. Whatever other names are put after a path, what is left of it
afterwards is a front of it, followed by segments of that kind.

- `join_of_pieces`: what a name becomes none of whose pieces is resolved.
- `Grown.join`: what any name may do to a path.
- `joinAll_eq_error_iff`: which names fit no path.
-/

namespace Typeahead

/-- A segment that is resolved instead of being asked for. -/
def IsDots (s : Text) : Prop := s = ['.'] ∨ s = ['.', '.']

instance : DecidablePred IsDots := fun _ => inferInstanceAs (Decidable (_ ∨ _))

theorem IsDots.dot_mem {s : Text} (h : IsDots s) : '.' ∈ s := by
  rcases h with rfl | rfl
  · exact List.mem_cons_self
  · exact List.mem_cons_self

/-- A name that becomes one segment of a path. -/
structure IsSegment (name : Text) : Prop where
  slashless : '/' ∉ name
  undotted : ¬IsDots name

/-- The fixed segments in the path of a dataset. -/
def Dataset.steps (d : Dataset) : List Text := d.pathNames.flatMap (Text.splitOn '/')

namespace Path

/-- The segments of a path as they read. -/
def names (p : Path) : List Text := p.segments.map Text.percentDecode

/-- What names are put after: the segments of a path but for an empty one at its end. -/
def stem (p : Path) : List Text :=
  if p.segments.getLast? = some [] then p.segments.dropLast else p.segments

/-- A name as it stands in a path. -/
abbrev encode (name : Text) : Text := Text.percentEncode keeps name

theorem decode_encode (name : Text) : Text.percentDecode (encode name) = name :=
  Text.percentDecode_percentEncode (by decide) name

theorem encode_inj {name other : Text} (h : encode name = encode other) : name = other := by
  rw [← decode_encode name, h, decode_encode]

/-- Only a name of dots is written as dots. -/
theorem isDots_encode {name : Text} : IsDots (encode name) ↔ IsDots name := by
  have one : encode ['.'] = ['.'] := by decide
  have two : encode ['.', '.'] = ['.', '.'] := by decide
  constructor
  · rintro (same | same)
    · exact .inl (encode_inj (same.trans one.symm))
    · exact .inr (encode_inj (same.trans two.symm))
  · rintro (rfl | rfl)
    · exact .inl one
    · exact .inr two

theorem percentByte_slashless (b : UInt8) : '/' ∉ Text.percentByte b := by
  have low : b.toNat < 256 := b.toNat_lt
  have first : Text.hexDigit (b.toNat / 16) ≠ '/' := Text.hexDigit_ne (by omega) (by decide)
  have second : Text.hexDigit (b.toNat % 16) ≠ '/' := Text.hexDigit_ne (by omega) (by decide)
  simp [Text.percentByte, Ne.symm first, Ne.symm second]

/-- The pieces of a name are encoded one by one. -/
theorem splitOn_encode (name : Text) :
    (encode name).splitOn '/' = (name.splitOn '/').map encode := by
  apply Text.splitOn_flatMap (by decide)
  intro c other
  split
  · simpa using Ne.symm other
  · intro mem
    obtain ⟨b, -, there⟩ := List.mem_flatMap.1 mem
    exact percentByte_slashless b there

theorem slash_not_mem_encode {name : Text} (slashless : '/' ∉ name) : '/' ∉ encode name := by
  apply Text.not_mem_of_mem_splitOn (t := encode name)
  rw [splitOn_encode, Text.splitOn_of_not_mem slashless]
  exact List.mem_singleton_self _

/-- Segments that are not resolved are kept. -/
theorem resolveFrom_append {segments : List Text} (undotted : ∀ s ∈ segments, ¬IsDots s)
    (done rest : List Text) :
    resolveFrom done (segments ++ rest) = resolveFrom (segments.reverse ++ done) rest := by
  induction segments generalizing done with
  | nil => rfl
  | cons s segments ih =>
    obtain ⟨first, later⟩ := List.forall_mem_cons.1 undotted
    have up : s ≠ ['.', '.'] := fun same => first (.inr same)
    have here : s ≠ ['.'] := fun same => first (.inl same)
    rw [List.cons_append, resolveFrom, if_neg up, if_neg here, ih later, List.reverse_cons,
      List.append_assoc]
    rfl

theorem ended_eq_false {segments : List Text} (undotted : ∀ s ∈ segments, ¬IsDots s) :
    (segments.getLast?.any fun s => s = ['.'] || s = ['.', '.']) = false := by
  cases last : segments.getLast? with
  | none => rfl
  | some s =>
    have dots := undotted s (List.mem_of_getLast? last)
    simpa [IsDots] using dots

/-- There is nothing to resolve where no segment is one of dots. -/
theorem resolve_of_undotted {segments : List Text} (undotted : ∀ s ∈ segments, ¬IsDots s)
    (filled : segments ≠ []) : resolve segments = segments := by
  have all : ∀ s ∈ [] :: segments, ¬IsDots s :=
    List.forall_mem_cons.2 ⟨by simp [IsDots], undotted⟩
  have whole := resolveFrom_append all [] []
  rw [List.append_nil, List.append_nil, resolveFrom, List.reverse_reverse] at whole
  simp [resolve, resolveAll, whole, ended_eq_false all, filled]

theorem stem_undotted {p : Path} (undotted : ∀ s ∈ p.segments, ¬IsDots s) : ∀ s ∈ p.stem, ¬IsDots s := by
  unfold stem
  split
  · exact fun s mem => undotted s ((List.dropLast_sublist _).subset mem)
  · exact undotted

/-- A name is refused if it begins with a slash; else its pieces are put after the path. -/
theorem join_eq (p : Path) (name : Text) :
    p.join name = if name.head? = some '/' then .error ⟨name⟩
      else .ok ⟨if name.contains '.' then resolve (p.stem ++ (name.splitOn '/').map encode)
        else p.stem ++ (name.splitOn '/').map encode⟩ := by
  unfold join stem
  rw [splitOn_encode]

/-- A name none of whose pieces is resolved is put after a path piece by piece. -/
theorem join_of_pieces {p : Path} (undotted : ∀ s ∈ p.segments, ¬IsDots s) {name : Text}
    (relative : name.head? ≠ some '/') (pieces : ∀ s ∈ name.splitOn '/', ¬IsDots s) :
    p.join name = .ok ⟨p.stem ++ (name.splitOn '/').map encode⟩ := by
  have all : ∀ s ∈ p.stem ++ (name.splitOn '/').map encode, ¬IsDots s := by
    intro s mem
    rcases List.mem_append.1 mem with old | new
    · exact stem_undotted undotted s old
    · obtain ⟨piece, there, rfl⟩ := List.mem_map.1 new
      exact fun dots => pieces piece there (isDots_encode.1 dots)
  have filled : p.stem ++ (name.splitOn '/').map encode ≠ [] := by
    simp [Text.splitOn_ne_nil]
  rw [join_eq, if_neg relative, resolve_of_undotted all filled, ite_self]

/-- The first name that begins with a slash is refused, and no other. -/
theorem joinAll_eq_error_iff {p : Path} {names : List Text} {e : SlashName} :
    p.joinAll names = .error e ↔ names.find? (fun name => name.head? = some '/') = some e.name := by
  unfold joinAll
  induction names generalizing p with
  | nil => simp [pure, Except.pure]
  | cons name names ih =>
    rw [List.foldlM_cons, join_eq]
    by_cases slash : name.head? = some '/'
    · have found : (name :: names).find? (fun name => name.head? = some '/') = some name := by
        simp [slash]
      rw [if_pos slash, found]
      constructor
      · intro refused
        cases refused
        rfl
      · intro same
        obtain rfl : name = e.name := Option.some.inj same
        rfl
    · have missed : (name :: names).find? (fun name => name.head? = some '/') =
          names.find? fun name => name.head? = some '/' := by simp [slash]
      rw [if_neg slash, missed]
      exact ih

/-- A path that nothing is resolved in, and that other segments are put after as it is. -/
structure Firm (p : Path) : Prop where
  undotted : ∀ s ∈ p.segments, ¬IsDots s
  stem : p.stem = p.segments

/-- A name of which nothing is resolved, and which does not end in a slash. -/
structure Sound (name : Text) : Prop where
  relative : name.head? ≠ some '/'
  undotted : ∀ s ∈ name.splitOn '/', ¬IsDots s
  last : (name.splitOn '/').getLast? ≠ some []

/-- A segment is put after a path as it is. -/
theorem sound_of_isSegment {name : Text} (h : IsSegment name) (filled : name ≠ []) : Sound name := by
  have alone : name.splitOn '/' = [name] := Text.splitOn_of_not_mem h.slashless
  constructor
  · exact fun slash => h.slashless (List.mem_of_mem_head? slash)
  · simpa [alone] using h.undotted
  · simpa [alone] using filled

/-- A sound name is put after a path piece by piece, and others can be put after it. -/
theorem join_of_sound {p : Path} (undotted : ∀ s ∈ p.segments, ¬IsDots s) {name : Text} (h : Sound name) :
    p.join name = .ok ⟨p.stem ++ (name.splitOn '/').map encode⟩ ∧
      Firm ⟨p.stem ++ (name.splitOn '/').map encode⟩ := by
  refine ⟨join_of_pieces undotted h.relative h.undotted, fun s mem => ?_, ?_⟩
  · rcases List.mem_append.1 mem with old | new
    · exact stem_undotted undotted s old
    · obtain ⟨piece, there, rfl⟩ := List.mem_map.1 new
      exact fun dots => h.undotted piece there (isDots_encode.1 dots)
  · have last : (p.stem ++ (name.splitOn '/').map encode).getLast? ≠ some [] := by
      rw [List.getLast?_append_of_ne_nil _ (by simp [Text.splitOn_ne_nil]), List.getLast?_map]
      intro ends
      obtain ⟨piece, found, empty⟩ := Option.map_eq_some_iff.1 ends
      have none : piece = [] := encode_inj empty
      exact h.last (none ▸ found)
    exact if_neg last

/-- Sound names are put after a path piece by piece. -/
theorem joinAll_of_sound {p : Path} (firm : p.Firm) {names : List Text} (all : ∀ n ∈ names, Sound n) :
    p.joinAll names = .ok ⟨p.segments ++ (names.flatMap (Text.splitOn '/')).map encode⟩ := by
  induction names generalizing p with
  | nil => simp [joinAll, pure, Except.pure]
  | cons name names ih =>
    obtain ⟨first, later⟩ := List.forall_mem_cons.1 all
    obtain ⟨joined, firmer⟩ := join_of_sound firm.undotted first
    have rest := ih firmer later
    unfold joinAll at rest ⊢
    rw [List.foldlM_cons, joined]
    refine rest.trans ?_
    simp [firm.stem]

/-- What is left of a path, and segments that came after it. -/
def Grown (base segments : List Text) : Prop :=
  ∃ (k : Nat) (added : List Text),
    segments = base.take k ++ added.map encode ∧ ∀ s ∈ added, IsSegment s

namespace Grown

variable {base segments : List Text}

theorem refl (base : List Text) : Grown base base := ⟨base.length, [], by simp⟩

theorem of_added (added : List Text) (all : ∀ s ∈ added, IsSegment s) :
    Grown base (added.map encode) := ⟨0, added, rfl, all⟩

theorem append (h : Grown base segments) (more : List Text) (all : ∀ s ∈ more, IsSegment s) :
    Grown base (segments ++ more.map encode) := by
  obtain ⟨k, added, rfl, before⟩ := h
  refine ⟨k, added ++ more, by simp, fun s mem => ?_⟩
  rcases List.mem_append.1 mem with old | new
  · exact before s old
  · exact all s new

theorem dropLast (h : Grown base segments) : Grown base segments.dropLast := by
  obtain ⟨k, added, rfl, all⟩ := h
  cases added with
  | nil =>
    refine ⟨min k base.length - 1, [], ?_, all⟩
    simp only [List.map_nil, List.append_nil, List.dropLast_eq_take, List.length_take, List.take_take]
    congr 1
    omega
  | cons first more =>
    refine ⟨k, (first :: more).dropLast, ?_, fun s mem => all s ((List.dropLast_sublist _).subset mem)⟩
    rw [List.dropLast_append_of_ne_nil (by simp), List.map_dropLast]

theorem undotted (h : Grown base segments) (plain : ∀ s ∈ base, ¬IsDots s) :
    ∀ s ∈ segments, ¬IsDots s := by
  obtain ⟨k, added, rfl, all⟩ := h
  intro s mem
  rcases List.mem_append.1 mem with old | new
  · exact plain s (List.mem_of_mem_take old)
  · obtain ⟨piece, there, rfl⟩ := List.mem_map.1 new
    exact fun dots => (all piece there).undotted (isDots_encode.1 dots)

/-- Resolving pieces takes away what is there, or adds segments. -/
theorem resolveFrom {done : List Text} (h : Grown base done.reverse) {pieces : List Text}
    (slashless : ∀ s ∈ pieces, '/' ∉ s) : Grown base (resolveFrom done (pieces.map encode)) := by
  induction pieces generalizing done with
  | nil => exact h
  | cons piece pieces ih =>
    obtain ⟨first, later⟩ := List.forall_mem_cons.1 slashless
    rw [List.map_cons, Path.resolveFrom]
    split
    · apply ih _ later
      rw [← List.dropLast_reverse]
      exact h.dropLast
    · next up =>
      split
      · exact ih h later
      · next here =>
        apply ih _ later
        have undotted : ¬IsDots piece := by
          intro dots
          rcases isDots_encode.2 dots with same | same
          · exact here same
          · exact up same
        rw [List.reverse_cons]
        exact h.append [piece] fun s mem => List.mem_singleton.1 mem ▸ ⟨first, undotted⟩

/-- Behind the empty segment in front of all others a path has grown by itself. -/
theorem unrooted {rest : List Text} (h : Grown ([] :: base) ([] :: rest)) : Grown base rest := by
  obtain ⟨k, added, same, all⟩ := h
  cases k with
  | zero =>
    cases added with
    | nil => cases same
    | cons first more =>
      obtain rfl := (List.cons.inj same).2
      exact of_added more (List.forall_mem_cons.1 all).2
  | succ k =>
    obtain rfl := (List.cons.inj same).2
    exact ⟨k, added, rfl, all⟩

/-- Where that empty segment is gone nothing of the path is left. -/
theorem uprooted (h : Grown ([] :: base) segments) (gone : ∀ rest, segments ≠ [] :: rest) :
    Grown base segments := by
  obtain ⟨k, added, rfl, all⟩ := h
  cases k with
  | zero => exact of_added added all
  | succ k => exact absurd rfl (gone _)

/-- Resolving what was put after a path takes some of it away, or adds segments. -/
theorem resolve (h : Grown base segments) (plain : ∀ s ∈ base, ¬IsDots s) {pieces : List Text}
    (slashless : ∀ s ∈ pieces, '/' ∉ s) : Grown base (resolve (segments ++ pieces.map encode)) := by
  have empty : IsSegment [] := ⟨List.not_mem_nil, by simp [IsDots]⟩
  have nothing : ∀ s ∈ [[]], IsSegment s := fun s mem => List.mem_singleton.1 mem ▸ empty
  have rooted : Grown ([] :: base) ([] :: segments) := by
    obtain ⟨k, added, rfl, all⟩ := h
    exact ⟨k + 1, added, rfl, all⟩
  have undotted : ∀ s ∈ [] :: segments, ¬IsDots s :=
    List.forall_mem_cons.2 ⟨empty.undotted, h.undotted plain⟩
  -- nothing of the path is resolved by itself
  have whole : Grown ([] :: base) (resolveAll ([] :: segments ++ pieces.map encode)) := by
    unfold resolveAll
    rw [resolveFrom_append undotted]
    have grown : Grown ([] :: base) (([] :: segments).reverse ++ []).reverse := by simpa using rooted
    have resolved := grown.resolveFrom slashless
    dsimp only
    split
    · exact resolved.append [[]] nothing
    · simpa using resolved
  unfold Path.resolve
  split
  · next rest same =>
    rw [List.cons_append] at whole
    rw [same] at whole
    split
    · exact of_added [[]] nothing
    · exact whole.unrooted
  · next other => exact whole.uprooted fun rest same => other rest same

/-- Whatever name is put after a path that has grown, it has grown afterwards. -/
theorem join {p q : Path} (h : Grown base p.segments) (plain : ∀ s ∈ base, ¬IsDots s) {name : Text}
    (joined : p.join name = .ok q) : Grown base q.segments := by
  have stem : Grown base p.stem := by
    unfold Path.stem
    split
    · exact h.dropLast
    · exact h
  have slashless : ∀ s ∈ name.splitOn '/', '/' ∉ s := fun s mem => Text.not_mem_of_mem_splitOn mem
  rw [join_eq] at joined
  split at joined
  · cases joined
  · cases joined
    dsimp only
    split
    · exact stem.resolve plain slashless
    · next dotless =>
      refine stem.append _ fun s mem => ⟨slashless s mem, fun dots => dotless ?_⟩
      simpa using Text.mem_of_mem_splitOn mem dots.dot_mem

theorem joinAll {p q : Path} (h : Grown base p.segments) (plain : ∀ s ∈ base, ¬IsDots s)
    {names : List Text} (joined : p.joinAll names = .ok q) : Grown base q.segments := by
  induction names generalizing p with
  | nil =>
    cases joined
    exact h
  | cons name names ih =>
    unfold Path.joinAll at joined ih
    rw [List.foldlM_cons] at joined
    cases first : p.join name with
    | error e =>
      rw [first] at joined
      cases joined
    | ok r =>
      rw [first] at joined
      exact ih (h.join plain first) joined

/-- Where a path reads as another one with names after it, these have become segments. -/
theorem isSegment {p : Path} {more : List Text} (h : Grown base p.segments)
    (reads : p.names = base.map Text.percentDecode ++ more) : ∀ name ∈ more, IsSegment name := by
  obtain ⟨k, added, same, all⟩ := h
  have decoded : added.map (Text.percentDecode ∘ encode) = added := by
    simp [Function.comp_def, decode_encode]
  rw [names, same, List.map_append, List.map_map, decoded] at reads
  -- what is left of the path is no longer than the path, so that the names are among what was added
  have short : ((base.take k).map Text.percentDecode).length ≤ (base.map Text.percentDecode).length := by
    simp only [List.length_map, List.length_take]
    exact Nat.min_le_right ..
  obtain ⟨left, -, split⟩ : ∃ left, base.map Text.percentDecode = (base.take k).map Text.percentDecode ++ left ∧
      added = left ++ more := by
    rcases List.append_eq_append_iff.1 reads with ⟨left, whole, split⟩ | ⟨left, whole, split⟩
    · exact ⟨left, whole, split⟩
    · have none : left = [] := by
        have lengths := congrArg List.length whole
        rw [List.length_append] at lengths
        exact List.eq_nil_of_length_eq_zero (by omega)
      subst none
      exact ⟨[], by simpa using whole.symm, by simpa using split.symm⟩
  intro name mem
  exact all name (split ▸ List.mem_append_right _ mem)

end Grown

/-- After all is resolved no segment is one of dots, and none is made up. -/
theorem resolveFrom_of {P : Text → Prop} {done segments : List Text} (before : ∀ s ∈ done, P s)
    (kept : ∀ s ∈ segments, ¬IsDots s → P s) : ∀ s ∈ resolveFrom done segments, P s := by
  induction segments generalizing done with
  | nil => simpa [resolveFrom] using before
  | cons s segments ih =>
    obtain ⟨first, later⟩ := List.forall_mem_cons.1 kept
    rw [resolveFrom]
    split
    · exact ih (fun s mem => before s (List.mem_of_mem_tail mem)) later
    · next up =>
      split
      · exact ih before later
      · next here => exact ih (List.forall_mem_cons.2 ⟨first (not_or.2 ⟨here, up⟩), before⟩) later

theorem resolveAll_of {P : Text → Prop} {segments : List Text} (empty : P [])
    (kept : ∀ s ∈ segments, ¬IsDots s → P s) : ∀ s ∈ resolveAll segments, P s := by
  intro s mem
  rcases List.mem_append.1 mem with old | new
  · exact resolveFrom_of (List.forall_mem_nil _) kept s old
  · split at new
    · exact List.mem_singleton.1 new ▸ empty
    · exact absurd new List.not_mem_nil

/-- The segments of an address have no slash in them, and nothing in them is to be resolved. -/
theorem isSegment_of_address (address : Text) : ∀ s ∈ (ofAddress address).segments, IsSegment s := by
  have empty : IsSegment [] := ⟨List.not_mem_nil, by decide⟩
  unfold ofAddress
  dsimp only
  split
  · exact fun s mem => List.mem_singleton.1 mem ▸ empty
  · next path _ =>
    have slashless {s : Text} (mem : s ∈ (normalGroups path).splitOn '/') : '/' ∉ s :=
      Text.not_mem_of_mem_splitOn mem
    split
    · exact resolveAll_of empty fun s mem undotted => ⟨slashless mem, undotted⟩
    · next dotless =>
      refine fun s mem => ⟨slashless mem, fun dots => dotless ?_⟩
      simpa using Text.mem_of_mem_splitOn mem dots.dot_mem

/-- The path of the catalog is that of its address with one name after it. -/
theorem catalog_eq (address : Text) : ∃ base, Path.catalog address = .ok base ∧
    base.segments = (ofAddress address).stem ++ ["autocomplete".toList] ∧ base.Firm ∧
    ∀ s ∈ base.segments, '/' ∉ s := by
  have sound : Sound "autocomplete".toList := ⟨by decide, by decide, by decide⟩
  have segments := isSegment_of_address address
  obtain ⟨joined, firm⟩ := join_of_sound (fun s mem => (segments s mem).undotted) sound
  refine ⟨_, joined, rfl, firm, fun s mem => ?_⟩
  rcases List.mem_append.1 mem with old | new
  · unfold stem at old
    split at old
    · exact (segments s ((List.dropLast_sublist _).subset old)).slashless
    · exact (segments s old).slashless
  · have written : (Text.splitOn '/' "autocomplete".toList).map encode = ["autocomplete".toList] := by
      decide
    rw [written] at new
    rw [List.mem_singleton.1 new]
    decide

/-- A path is read off the text in which it is sent. -/
theorem splitOn_text {p : Path} (filled : p.segments ≠ []) (slashless : ∀ s ∈ p.segments, '/' ∉ s) :
    p.text.splitOn '/' = [] :: p.segments := by
  rw [text, Text.splitOn, if_pos rfl, Text.splitOn_joinWith filled slashless]

end Path

namespace Lookup

variable {l m : Lookup} {base path : Path}

theorem sound_pathNames (d : Dataset) : ∀ name ∈ d.pathNames, Path.Sound name := by
  cases d <;> exact List.forall_mem_singleton.2 ⟨by decide, by decide, by decide⟩

/-- A lookup fits no path if a name in its scope begins with a slash. -/
theorem path_eq_error_iff {e : SlashName} :
    l.path base = .error e ↔ l.scope.find? (fun name => name.head? = some '/') = some e.name := by
  have fixed : l.dataset.pathNames.find? (fun name => name.head? = some '/') = none :=
    List.find?_eq_none.2 fun name mem => by simpa using (sound_pathNames l.dataset name mem).relative
  rw [path, Path.joinAll_eq_error_iff, List.find?_append, fixed]
  rfl

/-- A lookup whose names are segments is put after a path segment by segment. -/
theorem path_of_isSegment (firm : base.Firm) (filled : ∀ name ∈ l.scope, name ≠ [])
    (segments : ∀ name ∈ l.scope, IsSegment name) :
    l.path base = .ok ⟨base.segments ++ (l.dataset.steps ++ l.scope).map Path.encode⟩ := by
  have sound : ∀ name ∈ l.dataset.pathNames ++ l.scope, Path.Sound name := by
    intro name mem
    rcases List.mem_append.1 mem with fixed | given
    · exact sound_pathNames l.dataset name fixed
    · exact Path.sound_of_isSegment (segments name given) (filled name given)
  have alone : l.scope.flatMap (Text.splitOn '/') = l.scope := by
    have each : ∀ name ∈ l.scope, name.splitOn '/' = [name] :=
      fun name mem => Text.splitOn_of_not_mem (segments name mem).slashless
    rw [List.flatMap_congr each]
    simp
  rw [path, Path.joinAll_of_sound firm sound, List.flatMap_append, alone]
  rfl

/-- The path of a lookup whose names are segments is read off the text in which it is sent. -/
theorem splitOn_text (slashless : ∀ s ∈ base.segments, '/' ∉ s) (segments : ∀ name ∈ l.scope, IsSegment name) :
    (Path.mk (base.segments ++ (l.dataset.steps ++ l.scope).map Path.encode)).text.splitOn '/' =
      [] :: (base.segments ++ (l.dataset.steps ++ l.scope).map Path.encode) := by
  have filled : l.dataset.steps ≠ [] := by
    cases l.dataset <;> decide
  apply Path.splitOn_text
  · simp [filled]
  · intro s mem
    rcases List.mem_append.1 mem with old | new
    · exact slashless s old
    · obtain ⟨name, there, rfl⟩ := List.mem_map.1 new
      apply Path.slash_not_mem_encode
      rcases List.mem_append.1 there with fixed | given
      · obtain ⟨whole, -, part⟩ := List.mem_flatMap.1 fixed
        exact Text.not_mem_of_mem_splitOn part
      · exact (segments name given).slashless

/-- The path of a lookup reads as its names after the fixed ones if these are segments, and only then. -/
theorem path_names_iff (firm : base.Firm) (filled : ∀ name ∈ l.scope, name ≠ [])
    (fits : l.path base = .ok path) :
    path.names = base.names ++ l.dataset.steps ++ l.scope ↔ ∀ name ∈ l.scope, IsSegment name := by
  constructor
  · intro reads name mem
    have grown : Path.Grown base.segments path.segments :=
      (Path.Grown.refl base.segments).joinAll firm.undotted fits
    rw [List.append_assoc] at reads
    exact grown.isSegment reads name (List.mem_append_right _ mem)
  · intro segments
    cases (path_of_isSegment firm filled segments).symm.trans fits
    simp [Path.names, Function.comp_def, Path.decode_encode]

/-- No dataset's fixed names begin those of another one. -/
theorem eq_of_steps {d e : Dataset} (h : d.steps <+: e.steps) : d = e := by
  cases d <;> cases e <;> first | rfl | exact absurd h (by decide)

/-- Lookups whose names are segments have addresses of their own. -/
theorem eq_of_text (firm : base.Firm) (slashless : ∀ s ∈ base.segments, '/' ∉ s)
    (names : ∀ name ∈ l.scope, name ≠ [] ∧ IsSegment name)
    (names' : ∀ name ∈ m.scope, name ≠ [] ∧ IsSegment name) {other : Path}
    (fits : l.path base = .ok path) (fits' : m.path base = .ok other) (same : path.text = other.text) :
    l = m := by
  have segments : ∀ name ∈ l.scope, IsSegment name := fun name mem => (names name mem).2
  have segments' : ∀ name ∈ m.scope, IsSegment name := fun name mem => (names' name mem).2
  cases (path_of_isSegment firm (fun name mem => (names name mem).1) segments).symm.trans fits
  cases (path_of_isSegment firm (fun name mem => (names' name mem).1) segments').symm.trans fits'
  have split := congrArg (Text.splitOn '/') same
  rw [splitOn_text slashless segments, splitOn_text slashless segments'] at split
  have encoded := List.append_cancel_left (List.tail_eq_of_cons_eq split)
  have read : l.dataset.steps ++ l.scope = m.dataset.steps ++ m.scope :=
    List.map_injective_iff.2 (fun _ _ => Path.encode_inj) encoded
  have datasets : l.dataset = m.dataset := by
    rcases List.prefix_or_prefix_of_prefix (List.prefix_append l.dataset.steps l.scope)
      (read ▸ List.prefix_append m.dataset.steps m.scope) with first | second
    · exact eq_of_steps first
    · exact (eq_of_steps second).symm
  rw [datasets] at read
  have scopes := List.append_cancel_left read
  cases l
  cases m
  cases datasets
  cases scopes
  rfl

end Lookup

end Typeahead
