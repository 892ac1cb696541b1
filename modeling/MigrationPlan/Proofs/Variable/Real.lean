import MigrationPlan.Proofs.Codec.Quantize
import MigrationPlan.Proofs.Variable.Creation
import MigrationPlan.Proofs.Variable.Session

/-!
# Proofs/Variable/Real — which reals a run can hold

A real is made between finite bounds, and a double is written into it only if it lies between them.
A bit vector that is decoded into it is not checked again, so what it is read as has to be there by
itself: it is, unless it is `nan`, and it is `nan` only for bounds whose width is no double.

* `RealVariable.valid_of_create` — reals that are made or copied are valid;
* `Variable.Becomes.isSound` — what a write leaves;
* **`isSound_and_extends_of_run`** — in every state of every run, each real lies between finite
  bounds that never change, or is `nan` between bounds that are too far apart.
-/

namespace MigrationPlan

namespace RealVariable

/-- Bounds that are finite but so far apart that their difference is not. -/
def IsTooWide (r : RealVariable) : Prop :=
  r.lower.isFinite ∧ r.upper.isFinite ∧ r.upper.sub r.lower = .infinity false

/-- **What a run keeps of a real**: it is valid, or `nan` between bounds that are too far apart. -/
def IsSound (r : RealVariable) : Prop :=
  (Variable.real r).Valid ∨ r.IsTooWide ∧ r.value = .real .nan

theorem IsSound.bounds_isFinite {r : RealVariable} (h : r.IsSound) :
    r.lower.isFinite ∧ r.upper.isFinite := by
  rcases h with ⟨hlower, hupper, -⟩ | ⟨⟨hlower, hupper, -⟩, -⟩ <;> exact ⟨hlower, hupper⟩

/-- A real that is made lies between its bounds. -/
theorem valid_of_create {lower upper : Datum} {value : Option Datum} {r : RealVariable}
    (h : create lower upper value = .ok r) : (Variable.real r).Valid := by
  obtain ⟨l, -, u, -, hlower, hupper, hordered, hvalue⟩ := create_eq_ok.mp h
  have hp := Binary64.extended?_eq_point.mpr ⟨hlower, rfl⟩
  have hq := Binary64.extended?_eq_point.mpr ⟨hupper, rfl⟩
  have hstart : (Variable.real ⟨l, u, .real l⟩).Valid := by
    rw [Binary64.lt_of_extended? hq hp, Bool.not_eq_false'] at hordered
    exact ⟨hlower, hupper, (Binary64.le_of_extended? hp hp).trans (Extended.le_refl _), hordered⟩
  cases value with
  | none =>
    obtain rfl := hvalue
    exact hstart
  | some d =>
    obtain ⟨x, -, nan, -, hvalue⟩ := hvalue
    cases nan with
    | true =>
      obtain rfl := hvalue
      exact hstart
    | false =>
      obtain ⟨hbounds, rfl⟩ := hvalue
      exact ⟨hlower, hupper, hbounds⟩

end RealVariable

namespace Variable

/-- A copy is made anew. -/
theorem isSound_of_copy [Memory] {v : Variable} {r : RealVariable} (h : v.copy = .ok (real r)) :
    r.IsSound := by
  cases v with
  | real r' =>
    obtain ⟨_, hcreate, hr⟩ := map_eq_ok.mp h
    obtain rfl := Variable.real.inj hr
    exact .inl (RealVariable.valid_of_create hcreate)
  | binary b => exact nomatch Except.ok.inj h
  | integer n | subset s | permutation p =>
    obtain ⟨_, -, hr⟩ := map_eq_ok.mp h
    exact nomatch hr

/-- Doubles that are written have been compared with the bounds. -/
theorem isSound_of_setReal {v : Variable} {r : RealVariable} {d : Datum}
    (h : v.setReal d = .ok (real r)) (hv : ∀ r, v = real r → r.IsSound) : r.IsSound := by
  obtain ⟨r', rfl, x, hx, hr⟩ := setReal_eq_ok.mp h
  obtain rfl := Variable.real.inj hr
  obtain ⟨hlower, hupper⟩ := (hv r' rfl).bounds_isFinite
  exact .inl ⟨hlower, hupper, bounds_of_checkReal hx⟩

/-- What is decoded lies between the bounds by itself, or is `nan`. -/
theorem isSound_of_decodeInto {source v : Variable} {r : RealVariable} {gray : Bool}
    (h : source.decodeInto v gray = .ok (real r)) (hv : ∀ r, v = real r → r.IsSound) :
    r.IsSound := by
  obtain ⟨b, -, r', rfl, x, hx, hr⟩ := decodeInto_eq_ok.mp h
  obtain rfl := Variable.real.inj hr
  obtain ⟨hlower, hupper⟩ := (hv r' rfl).bounds_isFinite
  rcases Codec.mem_or_eq_nan_of_decodeReal hx with hbounds | ⟨rfl, hinfinite, -⟩
  · exact .inl ⟨hlower, hupper, hbounds⟩
  · exact .inr ⟨⟨hlower, hupper, hinfinite⟩, rfl⟩

/-- **A write leaves a sound real sound.** -/
theorem Becomes.isSound {v w : Variable} (h : v.Becomes w) (hv : ∀ r, v = real r → r.IsSound) :
    ∀ r, w = real r → r.IsSound := by
  rintro r rfl
  cases h with
  | setReal h => exact isSound_of_setReal h hv
  | setInt h =>
    obtain ⟨i, -, ⟨n, -, ⟨⟩⟩ | h⟩ := setInt_eq_ok.mp h
    exact isSound_of_setReal h hv
  | decodeInto h => exact isSound_of_decodeInto h hv
  -- the other writes are into variables of other kinds
  | setBinary h => obtain ⟨_, -, _, _, -, -, ⟨⟩⟩ := setBinary_eq_ok.mp h
  | setBitset h => obtain ⟨_, -, _, -, _, -, -, ⟨⟩⟩ := setBitset_eq_ok.mp h
  | setBoolean h => obtain ⟨_, -, ⟨⟩⟩ := setBoolean_eq_ok.mp h
  | setSubset h => obtain ⟨_, -, _, -, _, -, -, -, -, ⟨⟩⟩ := setSubset_eq_ok.mp h
  | setPermutation h => obtain ⟨_, -, _, -, ⟨⟩⟩ := setPermutation_eq_ok.mp h
  | encodeInto h => obtain ⟨_, -, _, -, _, -, ⟨⟩⟩ := encodeInto_eq_ok.mp h

end Variable

/-- A real from a specification is valid. -/
theorem VariableSpec.isSound_of_create [Memory] {spec : VariableSpec} {r : RealVariable}
    (h : spec.create = .ok (.real r)) : r.IsSound := by
  cases spec with
  | real lower upper value =>
    obtain ⟨_, hcreate, hr⟩ := map_eq_ok.mp h
    obtain rfl := Variable.real.inj hr
    exact .inl (RealVariable.valid_of_create hcreate)
  | integer | newInteger | newBinary | binary | subset | permutation =>
    obtain ⟨_, -, hr⟩ := map_eq_ok.mp h
    exact nomatch hr

/-! ## Runs -/

/-- **In every state of every run each real is sound, and its bounds never change.**  Whatever the
operations of a run are and whether they succeed, each real has finite bounds and a value between
them, unless the bounds are too far apart and the value is `nan`; and it is still there in every
later state, with the same bounds. -/
theorem isSound_and_extends_of_run [Memory] {s : Session} (steps : List Step)
    (start : ∀ r, Variable.real r ∈ s → (Variable.real r).Valid) :
    (∀ t ∈ s.states steps, ∀ r, Variable.real r ∈ t →
        (Variable.real r).Valid ∨ r.IsTooWide ∧ r.value = .real .nan)
      ∧ (s.states steps).Pairwise Session.Extends := by
  have hmakes : ∀ step ∈ steps, step.MakesOnly fun _ => True := by
    intro step _
    cases step <;> trivial
  have hstart : ∀ v ∈ s, ∀ r, v = .real r → r.IsSound := by
    rintro _ hmem r rfl
    exact .inl (start r hmem)
  constructor
  · intro t ht r hr
    refine Session.forall_of_reaches (P := fun v => ∀ r, v = .real r → r.IsSound)
      (fun _ _ _ hv r hr => VariableSpec.isSound_of_create (hr ▸ hv))
      (fun _ _ hw _ r hr => Variable.isSound_of_copy (hr ▸ hw)) (fun _ _ hw hv => hw.isSound hv)
      (Session.reaches_of_mem_states hmakes ht) hstart _ hr r rfl
  · exact (Session.pairwise_reaches_states s hmakes).imp Session.extends_of_reaches

/-- A run over two reals in which a write is refused. -/
def decodingRun : List Step :=
  [.create (.real (.whole 0) (.whole 4) none), .create (.newBinary (.whole 2)),
   .decodeInto (.whole 2) (.whole 0) false, .setReal (.whole 1) (.whole 5),
   .setInts (some [.whole 0, .whole 1]) (.wholes [1, 3]) (.whole 0) none,
   .decodeInto (.whole 2) (.whole 1) true, .copy (.whole 1)]

theorem isSound_and_extends_decodingRun :
    (∀ t ∈ Session.states [.real ⟨0, 1, .whole 1⟩] decodingRun, ∀ r, Variable.real r ∈ t →
        (Variable.real r).Valid ∨ r.IsTooWide ∧ r.value = .real .nan)
      ∧ (Session.states [.real ⟨0, 1, .whole 1⟩] decodingRun).Pairwise Session.Extends := by
  refine isSound_and_extends_of_run decodingRun fun r hr => ?_
  obtain rfl : r = ⟨0, 1, .whole 1⟩ := by simpa using hr
  exact ⟨by decide +kernel, by decide +kernel, by decide +kernel, by decide +kernel⟩

/-- A run that decodes a clear bit into a real between `-2 ^ 1023` and `2 ^ 1023`. -/
def tooWideRun : List Step :=
  [.create (.real (.real (.finite true 0x10000000000000 971 (by decide)))
     (.real (.finite false 0x10000000000000 971 (by decide))) none),
   .create (.newBinary (.whole 1)), .decodeInto (.whole 1) (.whole 0) false]

/-- It leaves `nan` in the real. -/
theorem exists_nan_in_tooWideRun :
    ∃ t ∈ Session.states [] tooWideRun, ∃ r, Variable.real r ∈ t ∧ r.value = .real .nan
      ∧ ¬(Variable.real r).Valid := by
  have hlast : (Session.states [] tooWideRun)[3]?
      = some [.real ⟨.finite true 0x10000000000000 971 (by decide),
          .finite false 0x10000000000000 971 (by decide), .real .nan⟩, .binary ⟨[false]⟩] := by
    decide +kernel
  exact ⟨_, List.mem_of_getElem? hlast, _, List.mem_cons_self .., rfl,
    fun hvalid => absurd hvalid.2.2.2 nofun⟩

end MigrationPlan
