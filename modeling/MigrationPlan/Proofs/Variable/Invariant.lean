import MigrationPlan.Proofs.Numeric.Whole
import MigrationPlan.Proofs.Ordered
import MigrationPlan.Proofs.Variable.Session
import MigrationPlan.Proofs.Variable.Views

/-!
# Proofs/Variable/Invariant — what no run of operations breaks

Variables that are made from integers satisfy `Variable.Valid`, and so do the variables that come
out of a write.  Each operation makes its check on one form of a value and stores another: a number
is compared and its integer part is stored, a list is read and its members are counted.  So each
statement below is about a check and the conversion behind it.

* `valid_of_create` for each kind, `discreteValid_of_copy` — variables that are made;
* `Becomes.discreteValid` — variables that are written;
* **`valid_and_extends_of_run`** — in every state of every run the variables are valid, the reals
  apart, and each has the frame that it had in every state before.
-/

namespace MigrationPlan

/-- A whole number or a truth value. -/
def Datum.IsInteger (d : Datum) : Prop :=
  ∃ i, d.count? = .ok i

theorem Datum.isInteger_iff {d : Datum} :
    d.IsInteger ↔ ∃ x i, d = .number x ∧ x.whole? = some i := by
  simp only [IsInteger, count?_eq_ok]
  exact exists_comm

/-! ## Variables that are made -/

namespace IntegerVariable

/-- Bounds that are integers and in order, and a value between them. -/
theorem valid_of_create {lower upper : Datum} {value : Option Datum} {v : IntegerVariable}
    (h : create lower upper value = .ok v) (hlower : lower.IsInteger) (hupper : upper.IsInteger)
    (hvalue : ∀ d ∈ value, d.IsInteger) : (Variable.integer v).Valid := by
  obtain ⟨_, hl, _, hu, hordered, hv⟩ := create_eq_ok.mp h
  obtain ⟨x, i, rfl, hx⟩ := Datum.isInteger_iff.mp hlower
  obtain ⟨y, j, rfl, hy⟩ := Datum.isInteger_iff.mp hupper
  obtain rfl := Except.ok.inj hl
  obtain rfl := Except.ok.inj hu
  cases value with
  | none =>
    have hle : i ≤ j := by
      have hlt : y.lt x = false := Except.ok.inj hordered
      rw [Number.lt_of_whole? hy hx, decide_eq_false_iff_not] at hlt
      exact not_lt.mp hlt
    obtain rfl := hv
    exact ⟨i, j, i, hx, hy, hx, le_rfl, hle⟩
  | some d =>
    obtain ⟨z, k, rfl, hz⟩ := Datum.isInteger_iff.mp (hvalue d rfl)
    obtain ⟨_, hd, hwithin, rfl⟩ := hv
    obtain ⟨_, rfl, hxz, hzy⟩ := Entry.within?_number_eq_true.mp hwithin
    obtain rfl := Entry.number.inj (Except.ok.inj hd)
    rw [Number.le_of_whole? hx hz, decide_eq_true_eq] at hxz
    rw [Number.le_of_whole? hz hy, decide_eq_true_eq] at hzy
    exact ⟨i, j, k, hx, hy, hz, hxz, hzy⟩

/-- Bounds are made integers before they are stored. -/
theorem valid_of_new {lower upper : Datum} {v : IntegerVariable} (h : new lower upper = .ok v) :
    (Variable.integer v).Valid := by
  obtain ⟨l, -, u, -, hcreate⟩ := new_eq_ok.mp h
  exact valid_of_create hcreate ⟨l, rfl⟩ ⟨u, rfl⟩ (by simp)

end IntegerVariable

namespace BinaryVariable

theorem valid_of_create {array : Datum} {v : BinaryVariable} (h : create array = .ok v) :
    (Variable.binary v).Valid := by
  obtain ⟨_, _, -, -, hne, rfl⟩ := create_eq_ok.mp h
  exact hne

theorem valid_of_new [Memory] {length : Datum} {v : BinaryVariable} (h : new length = .ok v) :
    (Variable.binary v).Valid := by
  obtain ⟨x, hx, hpos, count, hcount, rfl⟩ := new_eq_ok.mp h
  obtain rfl := newSide?_eq_ok hcount
  obtain rfl : Number.whole count = x := Except.ok.inj hx
  rw [Number.whole_lt_whole, decide_eq_false_iff_not] at hpos
  have hne : count ≠ 0 := by omega
  simpa [Variable.Valid] using hne

end BinaryVariable

namespace SubsetVariable

variable {v : SubsetVariable} {c l u : Int}

/-- Members that are counted and compared one by one fill a valid subset. -/
theorem valid_of_isCanonical (h : v.IsCanonical) (hc : v.capacity.whole? = some c)
    (hl : v.lower.whole? = some l) (hu : v.upper.whole? = some u) : (Variable.subset v).Valid :=
  ⟨h.pairwise, c, l, u, hc, hl, hu, (isOverfull_eq_false_iff hc).mp h.isOverfull,
    fun m hm => (isSelectable_iff hl hu).mp (h.isSelectable m hm)⟩

theorem valid_of_create {capacity lower upper members : Datum}
    (h : create capacity lower upper members = .ok v) (hcapacity : capacity.IsInteger)
    (hlower : lower.IsInteger) (hupper : upper.IsInteger) : (Variable.subset v).Valid := by
  have canonical := isCanonical_of_create h
  obtain ⟨c, l, u, hcheck, _, -, is, -, -, -, rfl⟩ := create_eq_ok.mp h
  obtain ⟨rfl, rfl, rfl, -⟩ := checkCapacity_eq_ok.mp hcheck
  obtain ⟨_, _, ⟨⟩, hc⟩ := Datum.isInteger_iff.mp hcapacity
  obtain ⟨_, _, ⟨⟩, hl⟩ := Datum.isInteger_iff.mp hlower
  obtain ⟨_, _, ⟨⟩, hu⟩ := Datum.isInteger_iff.mp hupper
  exact valid_of_isCanonical canonical hc hl hu

end SubsetVariable

namespace PermutationVariable

/-- What passes for an order of a whole length lists each position once. -/
theorem perm_of_order? {length : Number} {n : Int} {array : Datum} {order : List Nat}
    (hlength : length.whole? = some n) (h : order? length array = .ok order) :
    ∃ k : Nat, (k : Int) = n ∧ order.Perm (List.range k) := by
  obtain ⟨_, is, -, -, hle, hge, hsorted, rfl⟩ := order?_eq_ok.mp h
  rw [Number.le_of_whole? rfl hlength, decide_eq_true_eq] at hle
  rw [Number.le_of_whole? hlength rfl, decide_eq_true_eq] at hge
  refine ⟨is.length, le_antisymm hle hge, ?_⟩
  have hsorted : sortInts is = (List.range is.length).map Int.ofNat := by
    simpa [isOrder] using hsorted
  have hback : ((List.range is.length).map Int.ofNat).map Int.toNat = List.range is.length := by
    rw [List.map_map]
    exact List.map_id _
  rw [← hback, ← hsorted]
  exact (perm_sortInts is).symm.map Int.toNat

theorem count?_of_whole? [Memory] {length : Number} {n : Int} {k : Nat}
    (hlength : length.whole? = some n) (h : count? length = .ok k) : n.toNat = k := by
  rw [count?, Number.ceil?_of_whole? hlength] at h
  simp only [require_eq_ok, room?, refuse_eq_ok, Except.ok.injEq] at h
  exact h.2.2.2

theorem valid_of_create [Memory] {length : Datum} {order : Option Datum} {v : PermutationVariable}
    (h : create length order = .ok v) (hlength : length.IsInteger) :
    (Variable.permutation v).Valid := by
  obtain ⟨_, hx, hpos, hv⟩ := create_eq_ok.mp h
  obtain ⟨x, n, rfl, hn⟩ := Datum.isInteger_iff.mp hlength
  obtain rfl := Except.ok.inj hx
  cases order with
  | none =>
    obtain ⟨k, hk, rfl⟩ := hv
    rw [Number.lt_of_whole? hn rfl, decide_eq_false_iff_not] at hpos
    have hkn : (k : Int) = n := by
      rw [← count?_of_whole? hn hk]
      omega
    exact ⟨k, hkn ▸ hn, .refl _⟩
  | some array =>
    obtain ⟨order, horder, rfl⟩ := hv
    obtain ⟨k, rfl, hperm⟩ := perm_of_order? hn horder
    exact ⟨k, hn, hperm⟩

end PermutationVariable

namespace Variable

/-- A variable that is valid unless it is a real. -/
def DiscreteValid (v : Variable) : Prop :=
  v.kind ≠ .real → v.Valid

/-- A copy is made from fields of the kind that a variable is made from. -/
theorem discreteValid_of_copy [Memory] {v w : Variable} (h : v.copy = .ok w)
    (hv : v.DiscreteValid) : w.DiscreteValid := by
  cases v with
  | real r =>
    obtain ⟨_, -, rfl⟩ := map_eq_ok.mp h
    exact fun hkind => absurd rfl hkind
  | integer n =>
    obtain ⟨_, hcreate, rfl⟩ := map_eq_ok.mp h
    obtain ⟨_, ⟨⟩, _, ⟨⟩, -, _, ⟨⟩, -, rfl⟩ := IntegerVariable.create_eq_ok.mp hcreate
    exact hv
  | binary b =>
    obtain rfl := Except.ok.inj h
    exact hv
  | subset s =>
    obtain ⟨_, hcreate, rfl⟩ := map_eq_ok.mp h
    obtain ⟨-, c, l, u, hc, hl, hu, -⟩ := hv nofun
    exact fun _ => SubsetVariable.valid_of_create hcreate ⟨c, Datum.count?_eq_ok.mpr ⟨_, rfl, hc⟩⟩
      ⟨l, Datum.count?_eq_ok.mpr ⟨_, rfl, hl⟩⟩ ⟨u, Datum.count?_eq_ok.mpr ⟨_, rfl, hu⟩⟩
  | permutation p =>
    obtain ⟨_, hcreate, rfl⟩ := map_eq_ok.mp h
    obtain ⟨n, hn, -⟩ := hv nofun
    exact fun _ => PermutationVariable.valid_of_create hcreate
      ⟨n, Datum.count?_eq_ok.mpr ⟨_, rfl, hn⟩⟩

/-! ## Variables that are written -/

/-- The integer that is stored lies between the bounds: the number that was compared with them has
no fractional part, so that nothing is cut off when it is converted. -/
theorem bounds_of_checkInt {n : IntegerVariable} {d : Datum} {l u i : Int}
    (hl : n.lower.whole? = some l) (hu : n.upper.whole? = some u)
    (h : checkInt (integer n) d = .ok i) : l ≤ i ∧ i ≤ u := by
  obtain ⟨x, hx, hl⟩ := Entry.whole?_eq_some.mp hl
  obtain ⟨y, hy, hu⟩ := Entry.whole?_eq_some.mp hu
  obtain ⟨hfraction, _, hentry, hwithin, hi⟩ := checkInt_integer_eq_ok.mp h
  rw [hx, hy] at hwithin
  obtain ⟨z, rfl, hxz, hzy⟩ := Entry.within?_number_eq_true.mp hwithin
  obtain rfl := Datum.entry?_eq_ok.mp hentry
  have hz := Number.extended?_of_toInt? (Datum.refuseFraction_number_eq_ok.mp hfraction) hi
  rw [Number.le_of_extended? (Number.extended?_of_whole? hl) hz, decide_eq_true_eq] at hxz
  rw [Number.le_of_extended? hz (Number.extended?_of_whole? hu), decide_eq_true_eq] at hzy
  exact ⟨hxz, hzy⟩

/-- A bit vector is valid as long as it keeps its length. -/
theorem discreteValid_binary {b c : BinaryVariable} (hb : (binary b).DiscreteValid)
    (h : (binary c).frame = (binary b).frame) : (binary c).DiscreteValid := by
  intro _
  have hne : b.bits ≠ [] := hb nofun
  have hlength : c.length = b.length := by simpa [frame] using h
  have hpos : 0 < c.length := hlength ▸ List.length_pos_iff.mpr hne
  exact List.ne_nil_of_length_pos hpos

/-- **A write keeps the invariant.** -/
theorem Becomes.discreteValid {v w : Variable} (h : v.Becomes w) (hv : v.DiscreteValid) :
    w.DiscreteValid := by
  have hframe := h.frame_eq
  have hreal {v w : Variable} {d : Datum} (h : v.setReal d = .ok w) : w.DiscreteValid := by
    obtain ⟨r, -, x, -, rfl⟩ := setReal_eq_ok.mp h
    exact fun hkind => absurd rfl hkind
  cases h with
  | setReal h => exact hreal h
  | setInt h =>
    obtain ⟨i, hi, ⟨n, rfl, rfl⟩ | h⟩ := setInt_eq_ok.mp h
    · obtain ⟨l, u, _, hl, hu, -⟩ := hv nofun
      exact fun _ => ⟨l, u, i, hl, hu, rfl, bounds_of_checkInt hl hu hi⟩
    · exact hreal h
  | setBinary h =>
    obtain ⟨b, rfl, _, bits, -, -, rfl⟩ := setBinary_eq_ok.mp h
    exact discreteValid_binary hv hframe
  | setBitset h =>
    obtain ⟨b, rfl, _, -, is, -, -, rfl⟩ := setBitset_eq_ok.mp h
    exact discreteValid_binary hv hframe
  | setBoolean h =>
    obtain ⟨b, rfl, rfl⟩ := setBoolean_eq_ok.mp h
    exact discreteValid_binary hv hframe
  | setSubset h =>
    obtain ⟨s, ms, rfl, rfl, canonical⟩ := exists_isCanonical_of_setSubset h
    obtain ⟨-, c, l, u, hc, hl, hu, -⟩ := hv nofun
    exact fun _ => SubsetVariable.valid_of_isCanonical canonical hc hl hu
  | setPermutation h =>
    obtain ⟨p, rfl, order, horder, rfl⟩ := setPermutation_eq_ok.mp h
    obtain ⟨n, hn, -⟩ := hv nofun
    obtain ⟨k, hk, hperm⟩ := PermutationVariable.perm_of_order? hn horder
    exact fun _ => ⟨k, hk ▸ hn, hperm⟩
  | encodeInto h =>
    obtain ⟨r, -, b, rfl, bits, -, rfl⟩ := encodeInto_eq_ok.mp h
    exact discreteValid_binary hv hframe
  | decodeInto h =>
    obtain ⟨b, -, r, -, x, -, rfl⟩ := decodeInto_eq_ok.mp h
    exact fun hkind => absurd rfl hkind

end Variable

/-! ## Runs -/

/-- The numbers that fix the values of a variable are integers.  What an array holds is converted,
and a real is made from any numbers. -/
def VariableSpec.HasIntegers : VariableSpec → Prop
  | integer lower upper value =>
    lower.IsInteger ∧ upper.IsInteger ∧ ∀ d ∈ value, Datum.IsInteger d
  | subset capacity lower upper _ => capacity.IsInteger ∧ lower.IsInteger ∧ upper.IsInteger
  | permutation length _ => length.IsInteger
  | _ => True

theorem VariableSpec.discreteValid_of_create [Memory] {spec : VariableSpec} {v : Variable}
    (h : spec.create = .ok v) (integers : spec.HasIntegers) : v.DiscreteValid := by
  intro hkind
  cases spec with
  | real lower upper value =>
    obtain ⟨_, -, rfl⟩ := map_eq_ok.mp h
    exact absurd rfl hkind
  | integer lower upper value =>
    obtain ⟨_, hcreate, rfl⟩ := map_eq_ok.mp h
    exact IntegerVariable.valid_of_create hcreate integers.1 integers.2.1 integers.2.2
  | newInteger lower upper =>
    obtain ⟨_, hnew, rfl⟩ := map_eq_ok.mp h
    exact IntegerVariable.valid_of_new hnew
  | newBinary length =>
    obtain ⟨_, hnew, rfl⟩ := map_eq_ok.mp h
    exact BinaryVariable.valid_of_new hnew
  | binary array =>
    obtain ⟨_, hcreate, rfl⟩ := map_eq_ok.mp h
    exact BinaryVariable.valid_of_create hcreate
  | subset capacity lower upper members =>
    obtain ⟨_, hcreate, rfl⟩ := map_eq_ok.mp h
    exact SubsetVariable.valid_of_create hcreate integers.1 integers.2.1 integers.2.2
  | permutation length order =>
    obtain ⟨_, hcreate, rfl⟩ := map_eq_ok.mp h
    exact PermutationVariable.valid_of_create hcreate integers

/-- **No run breaks the invariant or changes a frame.**  Whatever the operations of a run are and
whether they succeed, all variables but the reals are valid in every state, and each variable is
still there in every later state, with the same bounds, capacity or length. -/
theorem valid_and_extends_of_run [Memory] {s : Session} {steps : List Step}
    (start : ∀ v ∈ s, v.kind ≠ .real → v.Valid)
    (integers : ∀ step ∈ steps, step.MakesOnly VariableSpec.HasIntegers) :
    (∀ t ∈ s.states steps, ∀ v ∈ t, v.kind ≠ .real → v.Valid)
      ∧ (s.states steps).Pairwise Session.Extends := by
  constructor
  · intro t ht
    exact Session.forall_of_reaches (P := Variable.DiscreteValid)
      (fun _ _ hspec hv => VariableSpec.discreteValid_of_create hv hspec)
      (fun _ _ hw hv => Variable.discreteValid_of_copy hw hv) (fun _ _ hw hv => hw.discreteValid hv)
      (Session.reaches_of_mem_states integers ht) start
  · exact (Session.pairwise_reaches_states s integers).imp Session.extends_of_reaches

/-- A run over all kinds in which the second write and the batch are refused. -/
def mixedRun : List Step :=
  [.create (.integer (.whole 0) (.whole 5) none), .create (.newBinary (.whole 3)),
   .create (.subset (.whole 2) (.whole 0) (.whole 4) (.wholes [])),
   .create (.permutation (.whole 3) none), .create (.real (.whole 0) (.whole 1) none),
   .setInt (.whole 0) (.real 5), .setInt (.whole 0) (.whole 6),
   .setSubset (.whole 2) (.wholes [3, 1]), .setPermutation (.whole 3) (.wholes [2, 0, 1]),
   .setInts (some [.whole 0, .whole 1]) (.wholes [4, 4]) (.whole 0) none,
   .encodeInto (.whole 4) (.whole 1) true, .copy (.whole 2)]

theorem valid_and_extends_mixedRun :
    (∀ t ∈ Session.states [] mixedRun, ∀ v ∈ t, v.kind ≠ .real → v.Valid)
      ∧ (Session.states [] mixedRun).Pairwise Session.Extends := by
  have hinteger (i : Int) : (Datum.whole i).IsInteger := ⟨i, rfl⟩
  refine valid_and_extends_of_run (by simp) ?_
  simp [mixedRun, Step.MakesOnly, VariableSpec.HasIntegers, hinteger]

end MigrationPlan
