import Typeahead.Proofs.Rehearsal.Degraded

/-!
Services with settings that were accepted. They have slots and room in the cache, so whatever was asked of
one before, a form for suggestions is answered: with the suggestions, with a refusal of the catalog, or
with the fault of a name that begins with a slash. The answer may only stay away if the settings put no
limit to the time of a fetch.

- `Settings.ofDocument_fits`: what is so of settings that were accepted.
- `Service.Arises.answers`: how forms for suggestions are answered.
-/

namespace Typeahead

namespace Checked

variable {ε α β : Type}

theorem of_seq_good {f : Checked ε (α → β)} {x : Checked ε α} {b : β} (h : f <*> x = .good b) :
    ∃ g a, f = .good g ∧ x = .good a ∧ g a = b := by
  cases f with
  | faulty => cases x <;> cases h
  | good g =>
    cases x with
    | faulty => cases h
    | good a =>
      cases h
      exact ⟨g, a, rfl, rfl, rfl⟩

theorem of_map_good {g : α → β} {x : Checked ε α} {b : β} (h : g <$> x = .good b) :
    ∃ a, x = .good a ∧ g a = b := by
  obtain ⟨_, a, same, found, holds⟩ := of_seq_good (f := .good g) h
  cases same
  exact ⟨a, found, holds⟩

theorem of_toExcept_blaming {x : Checked ε α} {more : List ε} {a : α}
    (h : (x.blaming more).toExcept = .ok a) : x = .good a := by
  unfold blaming at h
  split at h <;> cases h
  rfl

end Checked

theorem Setting.test_of_passing {α : Type} {read : Reader α} {test : α → Bool} {fault : SettingFault}
    {j : Json} {a : α} (h : passing read test fault j = .ok a) : test a = true := by
  unfold passing at h
  cases found : read j with
  | error e => simp [found, bind, Except.bind] at h
  | ok b =>
    simp only [found, bind, Except.bind] at h
    split at h
    · next passes =>
      cases h
      exact passes
    · cases h

theorem Setting.atLeast_of_notNegative {j : Json} {n : Number} (h : notNegative j = .ok n) :
    n.atLeast 0 = true :=
  test_of_passing h

theorem Setting.above_of_positive {j : Json} {n : Number} (h : positive j = .ok n) :
    n.above 0 = true :=
  test_of_passing h

theorem Setting.pos_of_positiveWhole {j : Json} {n : Int} (h : positiveWhole j = .ok n) : 0 < n := by
  have holds := test_of_passing h
  exact of_decide_eq_true holds

/-- A field has a value that its reader takes, or its default. -/
theorem Section.field_holds {α : Type} {P : α → Prop} {s : Section} {name : String}
    {read : Setting.Reader α} {usual a : α} (h : s.field name read (some usual) = .good a)
    (reads : ∀ j b, read j = .ok b → P b) (holds : P usual) : P a := by
  simp only [field] at h
  cases given : s.fields.lookup name.toList with
  | none =>
    rw [given] at h
    cases h
    exact holds
  | some j =>
    simp only [given] at h
    cases found : read j with
    | error e =>
      rw [found] at h
      cases h
    | ok b =>
      rw [found] at h
      cases h
      exact reads j a found

/-- The bounds of the settings of the fetches. -/
structure FetchSettings.Fits (f : FetchSettings) : Prop where
  ttl : f.ttl.atLeast 0 = true
  cacheSize : 0 < f.cacheSize
  slots : 0 < f.slots
  limit : f.limit.above 0 = true

namespace Settings

theorem readFetch_fits {s : Section} {f : FetchSettings} (h : readFetch s = .good f) : f.Fits := by
  unfold readFetch at h
  obtain ⟨_, limit, three, readLimit, rfl⟩ := Checked.of_seq_good h
  obtain ⟨_, slots, two, readSlots, rfl⟩ := Checked.of_seq_good three
  obtain ⟨_, cacheSize, one, readSize, rfl⟩ := Checked.of_seq_good two
  obtain ⟨ttl, readTtl, rfl⟩ := Checked.of_map_good one
  exact {
    ttl := Section.field_holds (P := fun n => n.atLeast 0 = true) readTtl
      (fun _ _ => Setting.atLeast_of_notNegative) (by decide +kernel)
    cacheSize := Section.field_holds readSize (fun _ _ => Setting.pos_of_positiveWhole) (by decide)
    slots := Section.field_holds readSlots (fun _ _ => Setting.pos_of_positiveWhole) (by decide)
    limit := Section.field_holds (P := fun n => n.above 0 = true) readLimit
      (fun _ _ => Setting.above_of_positive) (by decide +kernel) }

/-- Settings that were accepted keep the bounds. -/
theorem ofDocument_fits {document : List (Text × Json)} {settings : Settings}
    (h : ofDocument document = .ok settings) : settings.fetch.Fits := by
  obtain ⟨_, menu, three, -, rfl⟩ := Checked.of_seq_good (Checked.of_toExcept_blaming h)
  obtain ⟨_, fetch, two, read, rfl⟩ := Checked.of_seq_good three
  obtain ⟨_, catalog, one, -, rfl⟩ := Checked.of_seq_good two
  obtain ⟨server, -, rfl⟩ := Checked.of_map_good one
  unfold readSection at read
  split at read
  · exact readFetch_fits read
  · cases read
  · exact readFetch_fits read

/-- The terms of a pool with these settings, over a catalog at a path. -/
def terms (settings : Settings) (base : Path) : Terms :=
  ⟨settings.catalog.site, base, settings.fetch.limit, settings.fetch.cacheSize.toNat⟩

end Settings

namespace Service

/-- The services that come of settings over a scripted catalog, as requests are answered and time
passes. -/
inductive Arises (settings : Settings) (script : Script) : Service → Prop where
  | create {s : Service} : create settings script = .ok s → Arises settings script s
  | serve {s : Service} (r : Submission) : Arises settings script s → Arises settings script (s.serve r).2
  | advance {s : Service} (span : Seconds) : Arises settings script s → Arises settings script (s.advance span)

section

variable {t : Terms} {slots : Int} {settings : Settings} {script : Script} {s : Service}

/-- A service begins with a rehearsal that is new. -/
theorem create_isNew (created : create settings script = .ok s) (faultless : script.Faultless) :
    ∃ base, Path.catalog settings.catalog.url = .ok base ∧
      s.rehearsal.IsNew (settings.terms base) settings.fetch.slots := by
  unfold create at created
  cases address : Path.catalog settings.catalog.url with
  | error e => simp [address, Except.mapError, bind, Except.bind] at created
  | ok base =>
    simp only [address, Except.mapError, bind, Except.bind] at created
    split at created
    · cases created
    · next pool made =>
      split at made
      · cases made
      · next pool' pooled =>
        cases made
        cases created
        exact ⟨base, rfl, ⟨_, _, pooled, rfl⟩, fun job there => by simp [Agenda.Holds] at there, rfl, rfl,
          faultless⟩

theorem changeCache_inUse (h : s.rehearsal.InUse t slots) (target : Text) (form : CacheForm) :
    (s.changeCache target form).2.rehearsal.InUse t slots := by
  unfold changeCache
  dsimp only
  split
  · next pool changed =>
    have put := h.event (.setTtl form.ttl (.real (.finite form.ttl))) rfl
    simp only [Pool.step, changed, Except.toOption, Option.getD_some] at put
    exact put
  · exact h

/-- Whatever a service is asked, its rehearsal goes on. -/
theorem serve_inUse (h : s.rehearsal.InUse t slots) (r : Submission) :
    (s.serve r).2.rehearsal.InUse t slots := by
  unfold serve
  split
  · next endpoint _ =>
    cases endpoint with
    | ping | readCache => exact h
    | suggest =>
      simp only [answerAt]
      split
      · exact h.suggest ..
      · exact h
    | complete =>
      simp only [answerAt]
      split
      · exact h.replace ..
      · exact h
    | changeCache =>
      simp only [answerAt]
      split
      · exact changeCache_inUse h ..
      · exact h
    | dropCache => exact h.dropped
  · exact h

/-- The rehearsal of a service is in use. -/
theorem Arises.inUse (h : s.Arises settings script) (faultless : script.Faultless) :
    ∃ base, Path.catalog settings.catalog.url = .ok base ∧
      s.rehearsal.InUse (settings.terms base) settings.fetch.slots := by
  induction h with
  | create created =>
    obtain ⟨base, address, new⟩ := create_isNew created faultless
    exact ⟨base, address, .create new⟩
  | serve r _ ih =>
    obtain ⟨base, address, used⟩ := ih
    exact ⟨base, address, serve_inUse used r⟩
  | advance span _ ih =>
    obtain ⟨base, address, used⟩ := ih
    exact ⟨base, address, used.advance span⟩

/-- With settings that were accepted a form for suggestions is answered, unless a fetch has no limit and
the catalog no end. Only a name that begins with a slash makes it a fault of the form. -/
theorem Arises.answers (h : s.Arises settings script) (faultless : script.Faultless)
    {document : List (Text × Json)} (accepted : Settings.ofDocument document = .ok settings)
    {r : Submission} {form : SuggestForm} (leads : Endpoint.find r.method r.target = .ok .suggest)
    (reads : SuggestForm.ofSubmission r = .ok form) :
    settings.fetch.limit.value? = none ∨ ∃ answer, (s.serve r).1 = some answer ∧
      (answer.status = 200 ∨ answer.status = 401 ∨ answer.status = 400 ∧ ∃ base wanted name,
        Path.catalog settings.catalog.url = .ok base ∧
        (contextOf form.language form.query (form.query.ofUnits form.cursor)).lookup? = some wanted ∧
        name.head? = some '/' ∧ (Failure.slashName name).Escapes (settings.terms base) wanted) := by
  obtain ⟨base, address, used⟩ := h.inUse faultless
  have fits := Settings.ofDocument_fits accepted
  have answersTo := answersTo used leads reads
  cases found : (s.serve r).1 with
  | none =>
    rw [found] at answersTo
    exact .inl (answersTo.resolve_left fits.slots.ne')
  | some answer =>
    rw [found] at answersTo
    refine .inr ⟨answer, rfl, answersTo.imp_right fun other => other.imp_right ?_⟩
    rintro ⟨fault, wanted, asks, ⟨name, slash, escapes⟩ | noRoom⟩
    · exact ⟨fault, base, wanted, name, address, asks, slash, escapes⟩
    · have room : 0 < settings.fetch.cacheSize := fits.cacheSize
      have : settings.fetch.cacheSize.toNat = 0 := noRoom
      omega

end

end Service

end Typeahead
