import MigrationPlan.Proofs.Settings.Validator
import MigrationPlan.Proofs.Text.Split

/-!
# Proofs/Settings/Check — the check of settings is a validator

A check of documents looks at each field by itself and passes over unknown ones, whatever the
coercions (`Coercions.validator_eq_ok`).  It takes once more what it has taken if the coercions do,
each by itself (`Coercions.AreStable`), and then it is a validator: **`isValidator_validator`**.  So
is the check that is used (`isValidator_ofDocument`); its coercions take no mapping for a single
value (`refuseMappings_plain`).
-/

namespace MigrationPlan

variable {α β : Type} {d : Document} {fields : Fields} {c : Coercions}

/-! ## Values -/

/-- **A check is stable**: what it has taken, written down, it takes as it is. -/
structure IsStable (check : Document → Checked α) (write : α → Document) : Prop where
  again {d : Document} {a : α} (h : check d = .ok a) : check (write a) = .ok a

/-- **Coercions are stable**: what they have taken, written down, they take as it is; and they take
the defaults. -/
structure Coercions.AreStable (c : Coercions) : Prop where
  whole : IsStable c.whole fun i => .number (.whole i)
  real : IsStable c.real fun x => .number (.real x)
  path : IsStable c.path .text
  encoding : IsStable c.encoding fun e => .text e.name
  search {d : Document} {s : SearchSettings} (h : c.search d = .ok s) : s.IsAccepted c
  default : ({} : Settings).IsAccepted c

theorem isStable_countWithin {whole : Document → Checked Int} (limits : Limits)
    (stable : IsStable whole fun i => .number (.whole i)) :
    IsStable (countWithin whole limits) fun n => .number (.whole n) where
  again h := countWithin_eq_ok.mpr ((countWithin_eq_ok.mp h).imp_left stable.again)

theorem isStable_probabilityOf {real : Document → Checked Binary64}
    (stable : IsStable real fun x => .number (.real x)) :
    IsStable (probabilityOf real) fun x => .number (.real x) where
  again h := probabilityOf_eq_ok.mpr ((probabilityOf_eq_ok.mp h).imp_left stable.again)

theorem IsStable.optional {check : Document → Checked α} {write : α → Document}
    (stable : IsStable check write) (present : ∀ a, write a ≠ .missing) :
    IsStable (optional check) fun x => x.elim .missing write := by
  refine ⟨fun {d x} h => (optional_elim write present).mpr fun a ha => ?_⟩
  obtain rfl := Option.mem_def.mp ha
  have hd : d ≠ .missing := by
    rintro rfl
    exact nomatch h
  obtain ⟨_, ha, ⟨⟩⟩ := map_eq_ok.mp ((optional_of_ne hd).symm.trans h)
  exact stable.again ha

/-! ## Fields -/

theorem fieldOf_eq_ok {path : List String} {key : String} {default a : α}
    {check : Document → Checked α} :
    fieldOf path fields key default check = .ok a ↔ fields.Holds key default check a := by
  rw [fieldOf, Fields.Holds]
  cases fields.get? key with
  | none => simp
  | some d => exact mapError_eq_ok

/-- What a field holds is accepted as it is written, if its default is. -/
theorem Fields.Holds.accepted {check : Document → Checked α} {write : α → Document} {key : String}
    {default a : α} (stable : IsStable check write) (hdefault : check (write default) = .ok default)
    (h : fields.Holds key default check a) : check (write a) = .ok a := by
  rw [Fields.Holds] at h
  cases hget : fields.get? key with
  | none =>
    rw [hget] at h
    exact h ▸ hdefault
  | some d =>
    rw [hget] at h
    exact stable.again h

theorem Verdict.both_eq_ok {f : Verdict (α → β)} {x : Verdict α} {b : β} :
    f.both x = .ok b ↔ ∃ g a, f = .ok g ∧ x = .ok a ∧ g a = b := by
  rcases f with issues | g <;> rcases x with more | a <;> simp [Verdict.both]

/-! ## The numbers of a search -/

namespace SearchSettings

variable {s : SearchSettings}

theorem ofFields_eq_ok {path : List String} :
    ofFields c.whole c.real path fields = .ok s ↔ s.HeldBy c fields := by
  simp only [ofFields, Verdict.both_eq_ok, fieldOf_eq_ok]
  constructor
  · rintro ⟨_, _, ⟨_, _, ⟨_, _, ⟨_, _, ⟨_, _, ⟨⟩, h₁, rfl⟩, h₂, rfl⟩, h₃, rfl⟩, h₄, rfl⟩, h₅, rfl⟩
    exact ⟨h₁, h₂, h₃, h₄, h₅⟩
  · rintro ⟨h₁, h₂, h₃, h₄, h₅⟩
    exact ⟨_, _, ⟨_, _, ⟨_, _, ⟨_, _, ⟨_, _, rfl, h₁, rfl⟩, h₂, rfl⟩, h₃, rfl⟩, h₄, rfl⟩, h₅, rfl⟩

section Stable

variable (whole : IsStable c.whole fun i => .number (.whole i))
  (real : IsStable c.real fun x => .number (.real x)) (default : IsAccepted c {})

include whole real default

/-- What fields hold is accepted as it is written. -/
theorem HeldBy.isAccepted (h : s.HeldBy c fields) : s.IsAccepted c where
  populationSize :=
    h.populationSize.accepted (isStable_countWithin _ whole) default.populationSize
  generations := h.generations.accepted (isStable_countWithin _ whole) default.generations
  seed := h.seed.accepted (isStable_countWithin _ whole) default.seed
  crossover := h.crossover.accepted (isStable_probabilityOf real) default.crossover
  mutation := h.mutation.accepted ((isStable_probabilityOf real).optional fun _ => nofun)
    default.mutation

end Stable

end SearchSettings

/-! ## Settings -/

namespace Settings

variable {s : Settings}

/-- The numbers of the search under their key, or the default ones. -/
def searchOf (c : Coercions) (fields : Fields) : Verdict SearchSettings :=
  match fields.get? "optimization" with
  | none => .ok ({} : Settings).search
  | some (.mapping inner) => SearchSettings.ofFields c.whole c.real ["optimization"] inner
  | some d => c.search d

theorem searchOf_eq_ok {search : SearchSettings} :
    searchOf c fields = .ok search
      ↔ (fields.get? "optimization").elim (search = {}) (search.TakenFrom c) := by
  rw [searchOf]
  rcases fields.get? "optimization" with _ | d
  · exact (Except.ok.injEq ..).to_iff.trans eq_comm
  · cases d with
    | mapping inner => exact SearchSettings.ofFields_eq_ok
    | _ => exact Iff.rfl

theorem ofFields_eq_ok : ofFields c fields = .ok s ↔ s.HeldBy c fields := by
  have hblock : ofFields c fields = Verdict.both (Verdict.both (Verdict.both (.ok Settings.mk)
      (fieldOf [] fields "instance" ({} : Settings).problemFile (optional c.path)))
      (fieldOf [] fields "encoding" ({} : Settings).encoding c.encoding)) (searchOf c fields) := rfl
  simp only [hblock, Verdict.both_eq_ok, fieldOf_eq_ok, searchOf_eq_ok]
  constructor
  · rintro ⟨_, _, ⟨_, _, ⟨_, _, ⟨⟩, h₁, rfl⟩, h₂, rfl⟩, h₃, rfl⟩
    exact ⟨h₁, h₂, h₃⟩
  · rintro ⟨h₁, h₂, h₃⟩
    exact ⟨_, _, ⟨_, _, ⟨_, _, rfl, h₁, rfl⟩, h₂, rfl⟩, h₃, rfl⟩

/-- What fields hold is accepted as it is written. -/
theorem HeldBy.isAccepted (stable : c.AreStable) (h : s.HeldBy c fields) : s.IsAccepted c where
  problemFile :=
    h.problemFile.accepted (stable.path.optional fun _ => nofun) stable.default.problemFile
  encoding := h.encoding.accepted stable.encoding stable.default.encoding
  search := by
    have hsearch := h.search
    rcases hget : fields.get? "optimization" with _ | d
    · rw [hget] at hsearch
      exact hsearch ▸ stable.default.search
    · rw [hget] at hsearch
      cases d with
      | mapping inner =>
        have hheld : s.search.HeldBy c inner := hsearch
        exact hheld.isAccepted stable.whole stable.real stable.default.search
      | _ => exact stable.search hsearch

end Settings

/-- **A document holds settings** if each of its fields does. -/
theorem Coercions.validator_eq_ok {s : Settings} :
    c.validator d = .ok s ↔ ∃ fields, (d = .mapping fields ∨ d = .record fields)
      ∧ s.HeldBy c fields := by
  cases d with
  | mapping fields => simp [validator, mapError_eq_ok, Settings.ofFields_eq_ok]
  | record fields => simp [validator, mapError_eq_ok, Settings.ofFields_eq_ok]
  | _ => simp [validator]

/-- **The check is a validator**, if its coercions are stable. -/
theorem isValidator_validator (stable : c.AreStable) : IsValidator c c.validator := by
  have fieldwise {fields : Fields} {s : Settings} :
      c.validator (.mapping fields) = .ok s ↔ s.HeldBy c fields := by
    simp [Coercions.validator_eq_ok]
  refine ⟨fieldwise, fun {d s} h => ?_⟩
  obtain ⟨fields, -, hfields⟩ := Coercions.validator_eq_ok.mp h
  obtain ⟨hfile, hencoding, hsearch⟩ := hfields.isAccepted stable
  exact fieldwise.mpr ⟨hfile, hencoding, SearchSettings.takenFrom_toDocument.mpr hsearch⟩

/-! ## The coercions that are used -/

theorem refuseMappings_plain : Coercions.plain.RefuseMappings where
  whole _ _ := nofun
  real _ _ := nofun
  path _ _ := nofun
  encoding _ _ := nofun

theorem isStable_wholeOf : IsStable wholeOf fun i => .number (.whole i) :=
  ⟨fun _ => rfl⟩

theorem isStable_realOf : IsStable realOf fun x => .number (.real x) :=
  ⟨fun _ => rfl⟩

theorem isStable_pathOf : IsStable pathOf .text := by
  refine ⟨fun {d path} h => ?_⟩
  cases d with
  | text s =>
    rw [← Except.ok.inj h, pathOf, Text.normalPath_normalPath]
  | _ => exact nomatch h

theorem encodingOf_name (encoding : Encoding) :
    encodingOf (.text encoding.name) = .ok encoding := by
  rw [encodingOf, Encoding.ofName?_name]
  rfl

/-- **Every default passes its own check.** -/
theorem SearchSettings.isAccepted_default : IsAccepted .plain {} where
  populationSize := rfl
  generations := rfl
  seed := rfl
  crossover := probabilityOf_eq_ok.mpr ⟨rfl, 1, Binary64.extended?_ofNat_one, zero_le_one, le_rfl⟩
  mutation := rfl

/-- A record that is taken is accepted as it is written. -/
theorem isAccepted_of_recordOf {path : List String} {s : SearchSettings}
    (h : recordOf path d = .ok s) : s.IsAccepted .plain := by
  cases d with
  | record fields =>
    have hheld : s.HeldBy .plain fields := SearchSettings.ofFields_eq_ok.mp h
    exact hheld.isAccepted isStable_wholeOf isStable_realOf SearchSettings.isAccepted_default
  | _ => exact nomatch h

theorem areStable_plain : Coercions.plain.AreStable where
  whole := isStable_wholeOf
  real := isStable_realOf
  path := isStable_pathOf
  encoding := ⟨fun _ => encodingOf_name _⟩
  search := isAccepted_of_recordOf
  default := ⟨rfl, rfl, SearchSettings.isAccepted_default⟩

/-- **The check that is used is a validator.** -/
theorem isValidator_ofDocument : IsValidator .plain Settings.ofDocument :=
  isValidator_validator areStable_plain

end MigrationPlan
