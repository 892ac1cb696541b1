import MigrationPlan.Proofs.Markup.Document
import MigrationPlan.Proofs.Settings.Check

/-!
# Proofs/Settings/Merge — overrides go before settings

Overrides are laid over the document that settings are written as, and a validator looks at what
comes of it.  This settles each field by itself (`Settings.merge_eq_ok`): a value that is given is
checked and kept, and where none is given the settings keep theirs.  So overrides that have been
merged change nothing when they are merged again, and of two overrides the later ones go first,
whether they are merged one after the other or laid over each other before:
**`Settings.merge_settles`**.

A mapping laid over a mapping is not the upper one by itself, and a mapping laid over anything else
is.  So the later overrides must give no mapping for a single value where the earlier ones do, and
none for the numbers of the search where the earlier ones give anything else (`Settings.Stack`).
That a mapping is taken for a single value can be ruled out (`Settings.stack_of_settledBy`), and
where it is not, mappings need not stack: `Settings.merge_mappings_differ`.  A record can be taken
for the numbers of a search, and then the order matters: `Settings.merge_record_differs`.
-/

namespace MigrationPlan

open Document (overlayFields laidOver)

variable {α : Type} {check : Document → Checked α} {key : String} {d : Document}
  {base a b fields : Fields}

/-! ## Fields -/

namespace Fields

variable {default old mid new other : α}

/-- **What fields make of a value**: the one that is given for its key, as checked, or else itself.
-/
def Settles (fields : Fields) (key : String) (check : Document → Checked α) (old new : α) : Prop :=
  (fields.given? key).elim (old = new) fun d => check d = .ok new

theorem settles_iff_eq (h : fields.given? key = none) :
    fields.Settles key check old new ↔ old = new := by
  rw [Settles, h, Option.elim_none]

theorem settles_iff_check (h : fields.given? key = some d) :
    fields.Settles key check old new ↔ check d = .ok new := by
  rw [Settles, h, Option.elim_some]

theorem Settles.unique (h : fields.Settles key check old new)
    (h' : fields.Settles key check old other) : new = other := by
  cases hgiven : fields.given? key with
  | none =>
    rw [settles_iff_eq hgiven] at h h'
    exact h.symm.trans h'
  | some d =>
    rw [settles_iff_check hgiven] at h h'
    exact Except.ok.inj (h.symm.trans h')

/-- A value that has been given is given again. -/
theorem Settles.again (h : fields.Settles key check old new) :
    fields.Settles key check new new := by
  cases hgiven : fields.given? key with
  | none => exact (settles_iff_eq hgiven).mpr rfl
  | some d => exact (settles_iff_check hgiven).mpr ((settles_iff_check hgiven).mp h)

/-- **Fields laid over a written value settle it**; what is written is no mapping. -/
theorem holds_overlayFields (accepted : check d = .ok old) (single : ∀ inner, d ≠ .mapping inner)
    (distinct : fields.keys.Nodup) (hget : base.get? key = some d) :
    (overlayFields base fields).Holds key default check new ↔ fields.Settles key check old new := by
  rw [Holds, Document.get?_overlayFields distinct, hget]
  cases hgiven : fields.given? key with
  | none =>
    rw [settles_iff_eq hgiven, Option.elim_none, Option.elim_some, accepted, Except.ok.injEq]
  | some upper =>
    rw [settles_iff_check hgiven, Option.elim_some, Option.elim_some, laidOver, Option.elim_some,
      Document.overlay_of_lower single]

/-! ### Overrides that stack -/

/-- **No two mappings meet** under a key of two mappings. -/
def Apart (key : String) (a b : Fields) : Prop :=
  ∀ lower upper, a.given? key = some (.mapping lower) → b.given? key ≠ some (.mapping upper)

/-- What is laid over a value takes its place, if no two mappings meet. -/
theorem Apart.laidOver_eq (apart : Apart key a b) (hb : b.given? key = some d) :
    laidOver (a.get? key) d = d := by
  cases ha : a.given? key with
  | none => exact Document.laidOver_of_given?_eq_none ha
  | some lower =>
    rw [Document.laidOver_of_given? ha]
    by_cases hlower : ∃ inner, lower = .mapping inner
    · obtain ⟨inner, rfl⟩ := hlower
      exact Document.overlay_of_upper fun upper hd => apart inner upper ha (hd ▸ hb)
    · exact Document.overlay_of_lower fun inner h => hlower ⟨inner, h⟩

/-- **Fields laid over others settle what the others have settled.** -/
theorem Settles.comp (distinct : b.keys.Nodup) (apart : Apart key a b)
    (h : a.Settles key check old mid) :
    (overlayFields a b).Settles key check old new ↔ b.Settles key check mid new := by
  have hover : (overlayFields a b).given? key
      = (b.given? key).elim (a.given? key) fun d => some (laidOver (a.get? key) d) :=
    Document.given?_overlayFields distinct
  cases hb : b.given? key with
  | none =>
    rw [hb, Option.elim_none] at hover
    rw [settles_iff_eq hb, Settles, hover]
    constructor
    · exact h.unique
    · rintro rfl
      exact h
  | some d =>
    rw [hb, Option.elim_some, apart.laidOver_eq hb] at hover
    rw [settles_iff_check hb, settles_iff_check hover]

/-- Where no mapping is accepted, no two meet. -/
theorem Settles.apart (h : a.Settles key check old mid)
    (refused : ∀ inner x, check (.mapping inner) ≠ .ok x) : Apart key a b :=
  fun inner _ ha => absurd ((settles_iff_check ha).mp h) (refused inner mid)

end Fields

/-! ## The numbers of a search -/

namespace SearchSettings

variable {c : Coercions} {old mid new other : SearchSettings}

/-- **What fields make of the numbers of a search**, each by itself. -/
@[mk_iff]
structure SettledBy (c : Coercions) (old : SearchSettings) (fields : Fields)
    (new : SearchSettings) : Prop where
  populationSize : fields.Settles "pop_size" (countWithin c.whole populationLimits)
    old.populationSize new.populationSize
  generations : fields.Settles "n_gen" (countWithin c.whole generationLimits) old.generations
    new.generations
  seed : fields.Settles "seed" (countWithin c.whole seedLimits) old.seed new.seed
  crossover : fields.Settles "crossover_prob" (probabilityOf c.real) old.crossover new.crossover
  mutation : fields.Settles "mutation_prob" (optional (probabilityOf c.real)) old.mutation
    new.mutation

/-- The keys of the numbers. -/
def keys : List String :=
  ["pop_size", "n_gen", "seed", "crossover_prob", "mutation_prob"]

theorem SettledBy.unique (h : SettledBy c old fields new) (h' : SettledBy c old fields other) :
    new = other := by
  obtain ⟨_, _, _, _, _⟩ := new
  obtain ⟨_, _, _, _, _⟩ := other
  rw [mk.injEq]
  exact ⟨h.populationSize.unique h'.populationSize, h.generations.unique h'.generations,
    h.seed.unique h'.seed, h.crossover.unique h'.crossover, h.mutation.unique h'.mutation⟩

theorem SettledBy.again (h : SettledBy c old fields new) : SettledBy c new fields new :=
  ⟨h.populationSize.again, h.generations.again, h.seed.again, h.crossover.again, h.mutation.again⟩

/-- **Fields laid over written numbers settle them.** -/
theorem heldBy_overlayFields (accepted : old.IsAccepted c) (distinct : fields.keys.Nodup)
    {written : Fields} (hwritten : old.toDocument = .mapping written) :
    new.HeldBy c (overlayFields written fields) ↔ SettledBy c old fields new := by
  obtain rfl := Document.mapping.inj hwritten
  have hmutation (inner : Fields) :
      (old.mutation.elim .missing fun p => .number (.real p)) ≠ Document.mapping inner := by
    cases old.mutation <;> exact nofun
  rw [heldBy_iff, settledBy_iff]
  exact and_congr
    (Fields.holds_overlayFields accepted.populationSize (fun _ => nofun) distinct rfl) <|
    and_congr
    (Fields.holds_overlayFields accepted.generations (fun _ => nofun) distinct rfl) <|
    and_congr
    (Fields.holds_overlayFields accepted.seed (fun _ => nofun) distinct rfl) <|
    and_congr
    (Fields.holds_overlayFields accepted.crossover (fun _ => nofun) distinct rfl)
    (Fields.holds_overlayFields accepted.mutation hmutation distinct rfl)

/-- **Fields laid over others settle what the others have settled.** -/
theorem SettledBy.comp (distinct : b.keys.Nodup) (apart : ∀ key ∈ keys, Fields.Apart key a b)
    (h : SettledBy c old a mid) :
    SettledBy c old (overlayFields a b) new ↔ SettledBy c mid b new := by
  simp only [settledBy_iff, h.populationSize.comp distinct (apart _ (by decide)),
    h.generations.comp distinct (apart _ (by decide)),
    h.seed.comp distinct (apart _ (by decide)),
    h.crossover.comp distinct (apart _ (by decide)),
    h.mutation.comp distinct (apart _ (by decide))]

/-- Where no mapping is taken for a single value, no two meet. -/
theorem SettledBy.apart (refuse : c.RefuseMappings) (h : SettledBy c old a mid) :
    ∀ key ∈ keys, Fields.Apart key a b := by
  have hcount (limits : Limits) (inner : Fields) (n : Nat) :
      countWithin c.whole limits (.mapping inner) ≠ .ok n := fun h =>
    refuse.whole inner n (countWithin_eq_ok.mp h).1
  have hprobability (inner : Fields) (x : Binary64) :
      probabilityOf c.real (.mapping inner) ≠ .ok x := fun h =>
    refuse.real inner x (probabilityOf_eq_ok.mp h).1
  simp only [keys, List.forall_mem_cons]
  exact ⟨h.populationSize.apart (hcount _), h.generations.apart (hcount _), h.seed.apart (hcount _),
    h.crossover.apart hprobability, h.mutation.apart (refuse_optional hprobability), nofun⟩

/-- **What a document makes of the numbers of a search**: a mapping settles them, each by itself; of
all else the validator makes what it will. -/
def SettledFrom (c : Coercions) (old new : SearchSettings) : Document → Prop
  | .mapping fields => SettledBy c old fields new
  | d => c.search d = .ok new

theorem settledFrom_of_ne (h : ∀ fields, d ≠ .mapping fields) :
    SettledFrom c old new d ↔ c.search d = .ok new := by
  cases d with
  | mapping fields => exact absurd rfl (h fields)
  | _ => rfl

theorem SettledFrom.unique (h : SettledFrom c old new d) (h' : SettledFrom c old other d) :
    new = other := by
  cases d with
  | mapping fields => exact SettledBy.unique h h'
  | _ => exact Except.ok.inj (Eq.trans (Eq.symm h) h')

theorem SettledFrom.again (h : SettledFrom c old new d) : SettledFrom c new new d := by
  cases d with
  | mapping fields => exact SettledBy.again h
  | _ => exact h

/-- **What becomes of the numbers of a search**: those that a document makes of them, if one is
given, or else themselves. -/
def Settles (c : Coercions) (given : Option Document) (old new : SearchSettings) : Prop :=
  given.elim (old = new) (SettledFrom c old new)

theorem Settles.again {given : Option Document} (h : Settles c given old new) :
    Settles c given new new := by
  cases given with
  | none => rfl
  | some d => exact SettledFrom.again h

/-- **Overrides of the numbers stack**: where the later ones give a mapping for them, the earlier
ones give none or a mapping too, and no two mappings meet in these. -/
def Stack (key : String) (a b : Fields) : Prop :=
  ∀ upper, b.given? key = some (.mapping upper) → a.given? key = none
    ∨ ∃ lower, a.given? key = some (.mapping lower) ∧ ∀ key ∈ keys, Fields.Apart key lower upper

/-- **Fields laid over others settle what the others have settled.** -/
theorem Settles.comp (keyed : (Document.mapping b).IsKeyed) (stack : Stack key a b)
    (h : Settles c (a.given? key) old mid) :
    Settles c ((overlayFields a b).given? key) old new ↔ Settles c (b.given? key) mid new := by
  rw [Document.given?_overlayFields keyed.distinct]
  cases hb : b.given? key with
  | none =>
    rw [Option.elim_none]
    cases ha : a.given? key with
    | none =>
      rw [ha] at h
      obtain rfl : old = mid := h
      exact Iff.rfl
    | some d =>
      rw [ha] at h
      constructor
      · exact fun h' => SettledFrom.unique h h'
      · rintro rfl
        exact h
  | some d =>
    rw [Option.elim_some]
    by_cases hd : ∃ upper, d = .mapping upper
    · obtain ⟨upper, rfl⟩ := hd
      obtain ha | ⟨lower, ha, apart⟩ := stack upper hb
      · rw [ha] at h
        obtain rfl : old = mid := h
        rw [Document.laidOver_of_given?_eq_none ha]
      · rw [ha] at h
        rw [Document.laidOver_of_given? ha]
        exact SettledBy.comp (keyed.of_given? hb).distinct apart h
    · -- what is no mapping takes the place of the earlier numbers, whatever these were
      have hne (inner : Fields) : d ≠ .mapping inner := fun h => hd ⟨inner, h⟩
      rw [Document.laidOver_of_upper hne]
      exact (settledFrom_of_ne hne).trans (settledFrom_of_ne hne).symm

/-- **Fields laid over a mapping that holds numbers settle them.** -/
theorem takenFrom_overlayFields (accepted : old.IsAccepted c)
    (keyed : (Document.mapping fields).IsKeyed) (hget : base.get? key = some old.toDocument) :
    ((overlayFields base fields).get? key).elim (new = {}) (new.TakenFrom c)
      ↔ Settles c (fields.given? key) old new := by
  rw [Document.get?_overlayFields keyed.distinct, hget]
  cases hgiven : fields.given? key with
  | none =>
    have hnothing : SettledBy c old [] old := ⟨rfl, rfl, rfl, rfl, rfl⟩
    have hdistinct : (Fields.keys []).Nodup := List.nodup_nil
    constructor
    · exact fun h => hnothing.unique ((heldBy_overlayFields accepted hdistinct rfl).mp h)
    · rintro rfl
      exact takenFrom_toDocument.mpr accepted
  | some d =>
    rw [Option.elim_some, Option.elim_some]
    by_cases hd : ∃ inner, d = .mapping inner
    · obtain ⟨inner, rfl⟩ := hd
      exact heldBy_overlayFields accepted (keyed.of_given? hgiven).distinct rfl
    · have hne (inner : Fields) : d ≠ .mapping inner := fun h => hd ⟨inner, h⟩
      rw [Document.laidOver_of_upper hne]
      exact (takenFrom_of_ne hne).trans (settledFrom_of_ne hne).symm

end SearchSettings

/-! ## Settings -/

namespace Settings

variable {c : Coercions} {validate : Validator} {old mid new s : Settings}

/-- **What overrides make of settings**, each field by itself. -/
@[mk_iff]
structure SettledBy (c : Coercions) (old : Settings) (overrides : Fields) (new : Settings) :
    Prop where
  problemFile : overrides.Settles "instance" (optional c.path) old.problemFile new.problemFile
  encoding : overrides.Settles "encoding" c.encoding old.encoding new.encoding
  search : SearchSettings.Settles c (overrides.given? "optimization") old.search new.search

theorem SettledBy.again (h : SettledBy c old fields new) : SettledBy c new fields new :=
  ⟨h.problemFile.again, h.encoding.again, h.search.again⟩

/-- **Overrides stack**: no two mappings meet under the key of a single value, and the numbers of
the search stack. -/
structure Stack (a b : Fields) : Prop where
  apart : ∀ key ∈ ["instance", "encoding"], Fields.Apart key a b
  search : SearchSettings.Stack "optimization" a b

/-- **Overrides laid over others settle what the others have settled.** -/
theorem SettledBy.comp (keyed : (Document.mapping b).IsKeyed) (stack : Stack a b)
    (h : SettledBy c old a mid) :
    SettledBy c old (overlayFields a b) new ↔ SettledBy c mid b new := by
  simp only [settledBy_iff, h.problemFile.comp keyed.distinct (stack.apart _ (by decide)),
    h.encoding.comp keyed.distinct (stack.apart _ (by decide)), h.search.comp keyed stack.search]

/-- **Settings are merged field by field.** -/
theorem merge_eq_ok (validator : IsValidator c validate)
    (valid : validate old.toDocument = .ok old) (keyed : (Document.mapping fields).IsKeyed) :
    old.merge (.mapping fields) validate = .ok new ↔ SettledBy c old fields new := by
  have hmerge : old.merge (.mapping fields) validate
      = validate (.mapping (overlayFields _ fields)) := rfl
  obtain ⟨hfile, hencoding, hsearch⟩ := validator.isAccepted_iff.mp valid
  have hwritten (inner : Fields) :
      old.problemFile.elim Document.missing .text ≠ .mapping inner := by
    cases old.problemFile <;> exact nofun
  rw [hmerge, validator.fieldwise, heldBy_iff, settledBy_iff]
  exact and_congr (Fields.holds_overlayFields hfile hwritten keyed.distinct rfl) <|
    and_congr (Fields.holds_overlayFields hencoding (fun _ => nofun) keyed.distinct rfl)
    (SearchSettings.takenFrom_overlayFields hsearch keyed rfl)

/-- What comes of a merge is valid. -/
theorem valid_of_merge (validator : IsValidator c validate) {overrides : Document}
    (h : old.merge overrides validate = .ok new) : validate new.toDocument = .ok new := by
  cases overrides with
  | mapping fields => exact validator.again h
  | _ => exact nomatch h

/-- **Overrides say nothing**: each value is missing, unless it is a mapping for the numbers of the
search, and then each value in it is. -/
def SaysNothing (overrides : Fields) : Prop :=
  ∀ entry ∈ overrides, entry.2 = .missing ∨ entry.1 = "optimization" ∧ ∃ inner,
    entry.2 = .mapping inner ∧ ∀ value ∈ inner, value.2 = .missing

/-- Overrides that say nothing settle nothing. -/
theorem SaysNothing.settledBy (h : SaysNothing fields) : SettledBy c old fields old := by
  have hnone (key : String) (hkey : key ≠ "optimization") : fields.given? key = none :=
    Fields.given?_eq_none_of_forall fun value hvalue =>
      (h (key, value) hvalue).resolve_right fun hother => hkey hother.1
  refine
    { problemFile := (Fields.settles_iff_eq (hnone _ (by decide))).mpr rfl
      encoding := (Fields.settles_iff_eq (hnone _ (by decide))).mpr rfl
      search := ?_ }
  cases hgiven : fields.given? "optimization" with
  | none => rfl
  | some d =>
    obtain ⟨hget, hd⟩ := Fields.given?_eq_some.mp hgiven
    obtain ⟨-, inner, rfl, hmissing⟩ := (h _ (Fields.mem_of_get? hget)).resolve_left hd
    have hnone (key : String) : Fields.given? key inner = none :=
      Fields.given?_eq_none_of_forall fun value hvalue => hmissing (key, value) hvalue
    exact
      { populationSize := (Fields.settles_iff_eq (hnone _)).mpr rfl
        generations := (Fields.settles_iff_eq (hnone _)).mpr rfl
        seed := (Fields.settles_iff_eq (hnone _)).mpr rfl
        crossover := (Fields.settles_iff_eq (hnone _)).mpr rfl
        mutation := (Fields.settles_iff_eq (hnone _)).mpr rfl }

/-- Overrides that have been accepted stack with later ones where no mapping is taken for a single
value, unless the later ones give a mapping for the numbers of the search and the earlier ones
something else. -/
theorem stack_of_settledBy (refuse : c.RefuseMappings) (h : SettledBy c old a mid)
    (hsearch : ∀ upper, b.given? "optimization" = some (.mapping upper) →
      a.given? "optimization" = none ∨ ∃ lower, a.given? "optimization" = some (.mapping lower)) :
    Stack a b where
  apart := by
    intro key hkey
    obtain rfl | rfl : key = "instance" ∨ key = "encoding" := by simpa using hkey
    · exact h.problemFile.apart (refuse_optional refuse.path)
    · exact h.encoding.apart refuse.encoding
  search := by
    intro upper hb
    refine (hsearch upper hb).imp_right fun ⟨lower, ha⟩ => ⟨lower, ha, ?_⟩
    have hlower : SearchSettings.SettledBy c old.search lower mid.search := by
      have hsettles := h.search
      rwa [ha] at hsettles
    exact hlower.apart refuse

/-- **Overrides go before settings, and the later ones first.**  Let a validator look at each field
by itself, pass over unknown ones and take settings that it has accepted once more, as they are.
Let settings be valid, and let overrides be a mapping that names each key once.  A merge settles
each field by itself, the numbers of the search among them where a mapping is given for these: if a
value is given that is not missing, the field holds what the validator makes of it, and else what it
held; a value that is not accepted is all that makes a merge fail.  What comes of it is within
bounds and valid, and stays the same if the overrides are merged once more.  Overrides that say
nothing leave the settings as they were.  And behind a merge, other overrides make the same of the
settings as if they had been laid over the first ones before, if they stack; and they do where no
mapping is taken for a single value, unless they give a mapping for the numbers of the search, and
the first ones something that is none. -/
theorem merge_settles (validator : IsValidator c validate) {base : Settings} {a : Fields}
    (valid : validate base.toDocument = .ok base) (keyed : (Document.mapping a).IsKeyed) :
    (∀ s, base.merge (.mapping a) validate = .ok s ↔ SettledBy c base a s)
    ∧ (∀ s, base.merge (.mapping a) validate = .ok s → s.search.Valid
      ∧ validate s.toDocument = .ok s ∧ s.merge (.mapping a) validate = .ok s)
    ∧ (SaysNothing a → base.merge (.mapping a) validate = .ok base)
    ∧ (∀ s b, base.merge (.mapping a) validate = .ok s → (Document.mapping b).IsKeyed →
      Stack a b → ∀ t, s.merge (.mapping b) validate = .ok t
        ↔ base.merge ((Document.mapping a).overlay (.mapping b)) validate = .ok t)
    ∧ (c.RefuseMappings → ∀ s b, base.merge (.mapping a) validate = .ok s →
      (∀ upper, b.given? "optimization" = some (.mapping upper) →
        a.given? "optimization" = none
          ∨ ∃ lower, a.given? "optimization" = some (.mapping lower)) →
      Stack a b) := by
  have hmerge (s : Settings) :
      base.merge (.mapping a) validate = .ok s ↔ SettledBy c base a s :=
    merge_eq_ok validator valid keyed
  refine ⟨hmerge, fun s h => ?_, fun h => (hmerge base).mpr h.settledBy,
    fun s b h keyed' stack t => ?_,
    fun refuse s b h hsearch => stack_of_settledBy refuse ((hmerge s).mp h) hsearch⟩
  · have hvalid := valid_of_merge validator h
    have haccepted := validator.isAccepted_iff.mp hvalid
    exact ⟨haccepted.search.valid, hvalid,
      (merge_eq_ok validator hvalid keyed).mpr ((hmerge s).mp h).again⟩
  · have hoverlay : (Document.mapping a).overlay (.mapping b) = .mapping (overlayFields a b) := rfl
    have hkeyed : (Document.mapping (overlayFields a b)).IsKeyed := keyed'.overlay keyed
    rw [hoverlay, merge_eq_ok validator (valid_of_merge validator h) keyed',
      merge_eq_ok validator valid hkeyed]
    exact (((hmerge s).mp h).comp keyed' stack).symm

/-- Settings for a search in a small population. -/
def smallPopulation : Settings :=
  { search := { populationSize := 50 } }

/-- Overrides by a record of the numbers of a search, one of which it names. -/
def recordedSearch : Fields :=
  [("optimization", .record [("n_gen", .number (.whole 7))])]

/-- Overrides for a search with a seed. -/
def seededSearch : Fields :=
  [("optimization", .mapping [("seed", .number (.whole 1))])]

/-- **A record for the numbers of the search is not laid over but replaced.**  The numbers that it
does not name are the default ones, not those of the settings; a mapping that is merged behind it
keeps its numbers, and one that is laid over it before does not. -/
theorem merge_record_differs :
    IsValidator .plain ofDocument ∧ ofDocument smallPopulation.toDocument = .ok smallPopulation
      ∧ (Document.mapping recordedSearch).IsKeyed ∧ (Document.mapping seededSearch).IsKeyed
      ∧ (smallPopulation.merge (.mapping recordedSearch) >>= fun s =>
          s.merge (.mapping seededSearch))
        = .ok { search := { populationSize := 100, generations := 7, seed := 1 } }
      ∧ smallPopulation.merge ((Document.mapping recordedSearch).overlay (.mapping seededSearch))
        = .ok { search := { populationSize := 50, generations := 500, seed := 1 } }
      ∧ ¬(smallPopulation.merge (.mapping recordedSearch) >>= fun s =>
          s.merge (.mapping seededSearch))
        = smallPopulation.merge
          ((Document.mapping recordedSearch).overlay (.mapping seededSearch)) := by
  refine ⟨isValidator_ofDocument, by decide +kernel, ?_, ?_, by decide +kernel⟩
  · exact .mapping (by decide) (List.forall_mem_singleton.mpr (.other nofun))
  · refine .mapping (by decide) (List.forall_mem_singleton.mpr (.mapping (by decide) ?_))
    exact List.forall_mem_singleton.mpr (.other nofun)

/-- Coercions that take a mapping for a path: the text under its only key. -/
def namedFiles : Coercions :=
  { Coercions.plain with
    path := fun
      | .mapping [(_, file)] => pathOf file
      | d => pathOf d }

/-- Numbers are taken as before. -/
theorem isAccepted_namedFiles {s : SearchSettings} (h : s.IsAccepted .plain) :
    s.IsAccepted namedFiles :=
  ⟨h.populationSize, h.generations, h.seed, h.crossover, h.mutation⟩

theorem areStable_namedFiles : namedFiles.AreStable where
  whole := isStable_wholeOf
  real := isStable_realOf
  path := by
    refine ⟨fun {d path} h => ?_⟩
    obtain ⟨file, hfile⟩ : ∃ file, pathOf file = .ok path := by
      unfold namedFiles at h
      dsimp only at h
      split at h
      · exact ⟨_, h⟩
      · exact ⟨_, h⟩
    exact isStable_pathOf.again hfile
  encoding := ⟨fun _ => encodingOf_name _⟩
  search h := isAccepted_namedFiles (isAccepted_of_recordOf h)
  default := ⟨rfl, rfl, isAccepted_namedFiles SearchSettings.isAccepted_default⟩

/-- Overrides by a mapping for the file. -/
def namedFile (name file : String) : Fields :=
  [("instance", .mapping [(name, .text file)])]

/-- **Where a mapping is taken for a single value, mappings for it need not stack**: laid over each
other they are one with two keys. -/
theorem merge_mappings_differ :
    IsValidator namedFiles namedFiles.validator
      ∧ (({} : Settings).merge (.mapping (namedFile "first" "a")) namedFiles.validator >>= fun s =>
          s.merge (.mapping (namedFile "second" "b")) namedFiles.validator)
        = .ok { problemFile := some "b" }
      ∧ ({} : Settings).merge
          ((Document.mapping (namedFile "first" "a")).overlay (.mapping (namedFile "second" "b")))
          namedFiles.validator
        = .error (.invalid [⟨["instance"], .notAPath⟩]) :=
  ⟨isValidator_validator areStable_namedFiles, by decide +kernel, by decide +kernel⟩

/-- Settings with a problem file and a seed of their own. -/
def seededSettings : Settings :=
  { problemFile := some "a/b", search := { seed := 7 } }

/-- Overrides for a small search, with some values missing. -/
def smallSearch : Fields :=
  [("encoding", .missing),
    ("optimization", .mapping [("pop_size", .text " 016 "), ("seed", .missing)])]

/-- Overrides for a short search in another file. -/
def shortSearch : Fields :=
  [("instance", .text "c//d/"),
    ("optimization", .mapping [("n_gen", .number (.flag true)), ("pop_size", .missing)])]

/-- **What is given goes first**, and what is missing is not given. -/
theorem merge_settles_seededSettings :
    IsValidator .plain ofDocument ∧ ofDocument seededSettings.toDocument = .ok seededSettings
      ∧ (Document.mapping smallSearch).IsKeyed ∧ (Document.mapping shortSearch).IsKeyed
      ∧ Stack smallSearch shortSearch
      ∧ ∃ small, seededSettings.merge (.mapping smallSearch) = .ok small
        ∧ small.search.Valid ∧ small.merge (.mapping smallSearch) = .ok small
        ∧ small.search = { seed := 7, populationSize := 16 }
        ∧ seededSettings.merge ((Document.mapping smallSearch).overlay (.mapping shortSearch))
          = .ok { problemFile := some "c/d",
                  search := { seed := 7, populationSize := 16, generations := 1 } } := by
  have valid : ofDocument seededSettings.toDocument = .ok seededSettings := by decide +kernel
  have keyed : (Document.mapping smallSearch).IsKeyed := by
    refine .mapping (by decide) (List.forall_mem_cons.mpr ⟨.other nofun, ?_⟩)
    refine List.forall_mem_singleton.mpr (.mapping (by decide) ?_)
    exact List.forall_mem_cons.mpr ⟨.other nofun, List.forall_mem_singleton.mpr (.other nofun)⟩
  have keyed' : (Document.mapping shortSearch).IsKeyed := by
    refine .mapping (by decide) (List.forall_mem_cons.mpr ⟨.other nofun, ?_⟩)
    refine List.forall_mem_singleton.mpr (.mapping (by decide) ?_)
    exact List.forall_mem_cons.mpr ⟨.other nofun, List.forall_mem_singleton.mpr (.other nofun)⟩
  obtain ⟨-, hsame, -, hcomp, hstack⟩ := merge_settles isValidator_ofDocument valid keyed
  have hsmall : seededSettings.merge (.mapping smallSearch)
      = .ok { seededSettings with search := { seed := 7, populationSize := 16 } } := by
    decide +kernel
  obtain ⟨hbounds, -, hagain⟩ := hsame _ hsmall
  have stack : Stack smallSearch shortSearch :=
    hstack refuseMappings_plain _ _ hsmall fun _ _ => .inr ⟨_, rfl⟩
  exact ⟨isValidator_ofDocument, valid, keyed, keyed', stack, _, hsmall, hbounds, hagain, rfl,
    (hcomp _ _ hsmall keyed' stack _).mp (by decide +kernel)⟩

end Settings

end MigrationPlan
