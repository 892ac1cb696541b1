import MigrationPlan.Proofs.Accepted
import MigrationPlan.Proofs.Numeric.Enclosure
import MigrationPlan.Proofs.Numeric.Signed
import MigrationPlan.Settings.Check
import Mathlib.Tactic.MkIffOfInductiveProp

/-!
# Proofs/Settings/Validator — what is assumed of a validator

How a value is taken for what a field keeps, a text for a number perhaps, is left to a validator
(`Coercions`).  Which fields there are, their defaults and their bounds are not.  Of a validator it
is assumed that it looks at each field by itself and passes over unknown ones, and that it takes
settings that it has accepted once more, as they are (`IsValidator`).  So each field of such
settings is taken as it is written (`IsValidator.isAccepted_iff`), and the numbers of the search are
within their bounds: **`SearchSettings.IsAccepted.valid`**.
-/

namespace MigrationPlan

variable {α : Type} {d : Document} {fields : Fields}

/-! ## Bounds -/

/-- The numbers within limits. -/
def Limits.Admit (limits : Limits) (n : Nat) : Prop :=
  limits.least ≤ n ∧ ∀ g ∈ limits.greatest, n ≤ g

section Bounds

variable {whole : Document → Checked Int} {real : Document → Checked Binary64}

/-- A count is accepted if it is a whole number within its limits. -/
theorem countWithin_eq_ok {limits : Limits} {n : Nat} :
    countWithin whole limits d = .ok n ↔ whole d = .ok (n : Int) ∧ limits.Admit n := by
  obtain ⟨least, greatest⟩ := limits
  have hgreatest (i : Int) : (greatest.map Int.ofNat).any (fun g => g < i) = false
      ↔ ∀ g ∈ greatest, i ≤ g := by
    cases greatest <;> simp
  have hblock : countWithin whole ⟨least, greatest⟩ d = (do
      let i ← whole d
      if (greatest.map Int.ofNat).any fun g => g < i then .error .aboveGreatest
      else if i < least then .error .belowLeast
      else .ok i.toNat) := by
    cases greatest <;> rfl
  simp only [hblock, bind_eq_ok, refuse_eq_ok, Bool.not_eq_true, hgreatest, Limits.Admit]
  constructor
  · rintro ⟨i, hi, hbelow, hleast, hn⟩
    obtain rfl : i = n := by
      have := Except.ok.inj hn
      omega
    exact ⟨hi, by omega, fun g hg => Int.ofNat_le.mp (hbelow g hg)⟩
  · rintro ⟨hi, hleast, hbelow⟩
    exact ⟨n, hi, fun g hg => Int.ofNat_le.mpr (hbelow g hg), by omega, rfl⟩

/-- **A probability** lies between zero and one, `nan` does not. -/
def Binary64.IsProbability (x : Binary64) : Prop :=
  ∃ q : Rat, x.extended? = some (.point q) ∧ 0 ≤ q ∧ q ≤ 1

theorem Binary64.extended?_ofNat_one : (1 : Binary64).extended? = some (.point 1) := by
  change (ofRat ((1 : Int) : Rat)).extended? = _
  simpa using extended?_ofRat_of_dvd (k := 0) (n := 1) (by decide) (by decide) (by decide)

theorem Binary64.isProbability_iff {x : Binary64} : x.IsProbability ↔ x.le 1 ∧ ¬x.lt 0 := by
  constructor
  · rintro ⟨q, hq, hzero, hone⟩
    rw [lt_of_extended? hq extended?_ofNat_zero, le_of_extended? hq extended?_ofNat_one,
      le_of_extended? extended?_ofNat_zero hq]
    simpa using ⟨hone, hzero⟩
  · rintro ⟨hone, hzero⟩
    obtain ⟨u, v, hu, hv, huv⟩ := exists_extended?_of_le hone
    obtain rfl := Option.some.inj (extended?_ofNat_one.symm.trans hv)
    rw [lt_of_extended? hu extended?_ofNat_zero, le_of_extended? extended?_ofNat_zero hu] at hzero
    obtain ⟨q, rfl, hq⟩ := Extended.exists_point_of_between (by simpa using hzero) huv
    exact ⟨q, hu, hq⟩

/-- A probability is accepted if it is a number from zero to one. -/
theorem probabilityOf_eq_ok {x : Binary64} :
    probabilityOf real d = .ok x ↔ real d = .ok x ∧ x.IsProbability := by
  simp only [probabilityOf, bind_eq_ok, refuse_eq_ok, Binary64.isProbability_iff]
  constructor
  · rintro ⟨y, hy, hone, hzero, ⟨⟩⟩
    exact ⟨hy, by simpa using hone, hzero⟩
  · rintro ⟨hx, hone, hzero⟩
    exact ⟨x, hx, by simpa using hone, hzero, rfl⟩

end Bounds

section Optional

variable {check : Document → Checked α} {x : Option α}

/-- A value that may be missing is checked if it is there. -/
theorem optional_of_ne (h : d ≠ .missing) : optional check d = (check d).map some := by
  cases d with
  | missing => exact absurd rfl h
  | _ => rfl

theorem optional_elim (write : α → Document) (present : ∀ a, write a ≠ .missing) :
    optional check (x.elim .missing write) = .ok x ↔ ∀ a ∈ x, check (write a) = .ok a := by
  cases x with
  | none => simp [optional]
  | some a =>
    rw [Option.elim_some, optional_of_ne (present a), map_eq_ok]
    simp

theorem refuse_optional (refuse : ∀ fields a, check (.mapping fields) ≠ .ok a) (fields : Fields)
    (x : Option α) : optional check (.mapping fields) ≠ .ok x := fun h => by
  obtain ⟨a, ha, -⟩ := map_eq_ok.mp h
  exact refuse fields a ha

end Optional

/-! ## Fields -/

/-- **What a field holds**: what is under its key, as checked, or else its default. -/
def Fields.Holds (fields : Fields) (key : String) (default : α) (check : Document → Checked α)
    (a : α) : Prop :=
  (fields.get? key).elim (default = a) fun d => check d = .ok a

/-- No mapping is taken for a single value. -/
structure Coercions.RefuseMappings (c : Coercions) : Prop where
  whole : ∀ fields i, c.whole (.mapping fields) ≠ .ok i
  real : ∀ fields x, c.real (.mapping fields) ≠ .ok x
  path : ∀ fields path, c.path (.mapping fields) ≠ .ok path
  encoding : ∀ fields encoding, c.encoding (.mapping fields) ≠ .ok encoding

namespace SearchSettings

variable {c : Coercions} {s : SearchSettings}

/-- **The numbers that fields hold**, each by itself. -/
@[mk_iff]
structure HeldBy (c : Coercions) (fields : Fields) (s : SearchSettings) : Prop where
  populationSize : fields.Holds "pop_size" ({} : SearchSettings).populationSize
    (countWithin c.whole populationLimits) s.populationSize
  generations : fields.Holds "n_gen" ({} : SearchSettings).generations
    (countWithin c.whole generationLimits) s.generations
  seed : fields.Holds "seed" ({} : SearchSettings).seed (countWithin c.whole seedLimits) s.seed
  crossover : fields.Holds "crossover_prob" ({} : SearchSettings).crossover (probabilityOf c.real)
    s.crossover
  mutation : fields.Holds "mutation_prob" ({} : SearchSettings).mutation
    (optional (probabilityOf c.real)) s.mutation

/-- **The numbers that a document is taken for**: those that the fields of a mapping hold; of all
else the validator makes what it will. -/
def TakenFrom (c : Coercions) (s : SearchSettings) : Document → Prop
  | .mapping fields => s.HeldBy c fields
  | d => c.search d = .ok s

theorem takenFrom_of_ne (h : ∀ fields, d ≠ .mapping fields) :
    s.TakenFrom c d ↔ c.search d = .ok s := by
  cases d with
  | mapping fields => exact absurd rfl (h fields)
  | _ => rfl

/-- **The numbers of a search are within their bounds.** -/
structure Valid (s : SearchSettings) : Prop where
  populationSize : 4 ≤ s.populationSize ∧ s.populationSize ≤ 10000
  generations : 1 ≤ s.generations ∧ s.generations ≤ 100000
  crossover : s.crossover.IsProbability
  mutation : ∀ x ∈ s.mutation, x.IsProbability

/-- Every number is accepted as it is written. -/
structure IsAccepted (c : Coercions) (s : SearchSettings) : Prop where
  populationSize : countWithin c.whole populationLimits (.number (.whole s.populationSize))
    = .ok s.populationSize
  generations : countWithin c.whole generationLimits (.number (.whole s.generations))
    = .ok s.generations
  seed : countWithin c.whole seedLimits (.number (.whole s.seed)) = .ok s.seed
  crossover : probabilityOf c.real (.number (.real s.crossover)) = .ok s.crossover
  mutation : optional (probabilityOf c.real)
    (s.mutation.elim .missing fun p => .number (.real p)) = .ok s.mutation

/-- **Accepted numbers are within their bounds.** -/
theorem IsAccepted.valid (h : s.IsAccepted c) : s.Valid := by
  obtain ⟨-, hpopulation⟩ := countWithin_eq_ok.mp h.populationSize
  obtain ⟨-, hgenerations⟩ := countWithin_eq_ok.mp h.generations
  have hmutation := (optional_elim (fun p => .number (.real p)) fun _ => nofun).mp h.mutation
  exact
    { populationSize := ⟨hpopulation.1, hpopulation.2 _ rfl⟩
      generations := ⟨hgenerations.1, hgenerations.2 _ rfl⟩
      crossover := (probabilityOf_eq_ok.mp h.crossover).2
      mutation := fun x hx => (probabilityOf_eq_ok.mp (hmutation x hx)).2 }

/-- Written fields hold what was written, if this is accepted. -/
theorem takenFrom_toDocument : s.TakenFrom c s.toDocument ↔ s.IsAccepted c :=
  ⟨fun ⟨h₁, h₂, h₃, h₄, h₅⟩ => ⟨h₁, h₂, h₃, h₄, h₅⟩,
    fun ⟨h₁, h₂, h₃, h₄, h₅⟩ => ⟨h₁, h₂, h₃, h₄, h₅⟩⟩

end SearchSettings

namespace Settings

variable {c : Coercions} {s : Settings}

/-- **The settings that fields hold**, each by itself; the numbers of the search have a document of
their own. -/
@[mk_iff]
structure HeldBy (c : Coercions) (fields : Fields) (s : Settings) : Prop where
  problemFile : fields.Holds "instance" ({} : Settings).problemFile (optional c.path) s.problemFile
  encoding : fields.Holds "encoding" ({} : Settings).encoding c.encoding s.encoding
  search : (fields.get? "optimization").elim (s.search = {}) (s.search.TakenFrom c)

/-- Every field is accepted as it is written. -/
structure IsAccepted (c : Coercions) (s : Settings) : Prop where
  problemFile : optional c.path (s.problemFile.elim .missing .text) = .ok s.problemFile
  encoding : c.encoding (.text s.encoding.name) = .ok s.encoding
  search : s.search.IsAccepted c

end Settings

/-- **What is assumed of a validator**: it looks at each field by itself, and passes over unknown
ones; and settings that it has accepted it accepts once more, as they are. -/
structure IsValidator (c : Coercions) (validate : Validator) : Prop where
  fieldwise : ∀ {fields s}, validate (.mapping fields) = .ok s ↔ s.HeldBy c fields
  again : ∀ {d s}, validate d = .ok s → validate s.toDocument = .ok s

/-- **Settings are accepted if every field is.** -/
theorem IsValidator.isAccepted_iff {c : Coercions} {validate : Validator} {s : Settings}
    (h : IsValidator c validate) : validate s.toDocument = .ok s ↔ s.IsAccepted c := by
  rw [Settings.toDocument, h.fieldwise]
  exact ⟨fun ⟨h₁, h₂, h₃⟩ => ⟨h₁, h₂, SearchSettings.takenFrom_toDocument.mp h₃⟩,
    fun ⟨h₁, h₂, h₃⟩ => ⟨h₁, h₂, SearchSettings.takenFrom_toDocument.mpr h₃⟩⟩

end MigrationPlan
