import MigrationPlan.Proofs.Evaluation.Encodings
import MigrationPlan.Proofs.Numeric.Grid
import Mathlib.Algebra.BigOperators.Group.Finset.Basic
import Mathlib.Data.Finset.Sort

/-!
# Proofs/Evaluation/Selection — variables that stand for a set of functionalities

A selection is a finite set of functionalities.  A variable holds it (`Encoding.Holds`) as its set
bits or as its members, and either way the evaluator reads the set off it in ascending order
(**`Encoding.Holds.selection`**); it takes no other valid variables
(`Encoding.exists_selection_iff`).  What a selection is worth exactly is a sum over the set, with no
order and no rounding: `Problem.exactValue`, `Problem.exactCost`.
-/

namespace MigrationPlan

/-- **A variable holds a selection** among `n` functionalities: as the positions of its set bits, or
as the members of a subset that is over all functionalities and has room for no more. -/
def Encoding.Holds (n : Nat) (S : Finset Nat) : Encoding → Variable → Prop
  | .binary, .binary w => w.length = n ∧ ∀ i, w.bits[i]? = some true ↔ i ∈ S
  | .subset, .subset w =>
    w.lower.extended? = some (.point 0) ∧ w.upper.extended? = some (.point n)
      ∧ w.capacity.le (.whole n) ∧ w.members.Pairwise (· < ·)
      ∧ (∀ m, m ∈ w.members ↔ ∃ i ∈ S, (i : Int) = m) ∧ ∀ i ∈ S, i < n
  | _, _ => False

namespace Encoding

variable {p : Problem} {S : Finset Nat} {v : Variable} {encoding : Encoding}

/-- An ascending list of the elements of a set is the set sorted. -/
theorem eq_sort {is : List Nat} (hsorted : is.Pairwise (· < ·)) (hmem : ∀ i, i ∈ is ↔ i ∈ S) :
    is = S.sort :=
  List.Pairwise.eq_of_mem_iff (r := (· < ·)) hsorted (Finset.sortedLT_sort S).pairwise
    fun i => by rw [hmem, Finset.mem_sort]

/-- The elements of a smaller set come in the same order. -/
theorem sort_sublist {T : Finset Nat} (h : S ⊆ T) : S.sort.Sublist T.sort := by
  have hfilter : T.sort.filter (· ∈ S) = S.sort :=
    eq_sort ((Finset.sortedLT_sort T).pairwise.filter _) fun i => by
      simpa using @h i
  rw [← hfilter]
  exact List.filter_sublist

/-- The members of a set, as natural numbers, are the set sorted. -/
theorem map_toNat_eq_sort {ms : List Int} (hsorted : ms.Pairwise (· < ·))
    (hmem : ∀ m, m ∈ ms ↔ ∃ i ∈ S, (i : Int) = m) : ms.map Int.toNat = S.sort := by
  have hnat (m : Int) (hm : m ∈ ms) : 0 ≤ m := by
    obtain ⟨i, -, rfl⟩ := (hmem m).mp hm
    exact Int.natCast_nonneg i
  refine eq_sort (List.pairwise_map.mpr (hsorted.imp_of_mem fun {a b} ha hb hlt => ?_)) fun i => ?_
  · have := hnat a ha
    omega
  · rw [List.mem_map]
    constructor
    · rintro ⟨m, hm, rfl⟩
      obtain ⟨i, hi, rfl⟩ := (hmem m).mp hm
      exact hi
    · intro hi
      exact ⟨i, (hmem i).mpr ⟨i, hi, rfl⟩, rfl⟩

/-- The bounds of a subset over all functionalities are admitted, whatever form they have. -/
theorem admits_of_extended? {w : SubsetVariable} (hlower : w.lower.extended? = some (.point 0))
    (hupper : w.upper.extended? = some (.point p.functionalities))
    (hcapacity : w.capacity.le (.whole p.functionalities)) :
    (Evaluator.new p (some .subset)).admits w := by
  have hzero : (Number.whole 0).extended? = some (.point ((0 : Int) : Rat)) := rfl
  have hcount : (Number.whole p.functionalities).extended?
      = some (.point ((p.functionalities : Int) : Rat)) := rfl
  have hroom : (Number.whole p.functionalities).lt w.capacity = false := by
    rw [Number.le] at hcapacity
    rw [Number.lt]
    rcases hc : w.capacity.extended? with _ | c
    · rfl
    · rw [hc, hcount] at hcapacity
      simpa [hcount, Extended.lt] using hcapacity
  have hbelow : w.lower.le (.whole 0) ∧ (Number.whole 0).le w.lower := by
    rw [Number.le, Number.le, hlower, hzero]
    exact ⟨rfl, rfl⟩
  have habove : w.upper.le (.whole p.functionalities)
      ∧ (Number.whole p.functionalities).le w.upper := by
    rw [Number.le, Number.le, hupper, hcount]
    exact ⟨Extended.point_le_point.mpr (by simp), Extended.point_le_point.mpr (by simp)⟩
  simp [Evaluator.admits, Evaluator.new, Problem.announced, hbelow, habove, hroom]

/-- **The evaluator reads the set off the variable, in ascending order.** -/
theorem Holds.selection (h : encoding.Holds p.functionalities S v)
    (sized : Entry.IsWord p.functionalities) :
    (Evaluator.new p (some encoding)).selection v = .ok S.sort := by
  cases encoding with
  | binary =>
    cases v with
    | binary w =>
      obtain ⟨hlength, hbits⟩ := h
      rw [← eq_sort (pairwise_positions w.bits) fun i => mem_positions.trans (hbits i)]
      exact if_pos hlength
    | _ => exact absurd h id
  | subset =>
    cases v with
    | subset w =>
      obtain ⟨hlower, hupper, hcapacity, hsorted, hmem, hrange⟩ := h
      have hword (m : Int) (hm : m ∈ w.members) : Entry.IsWord m := by
        obtain ⟨i, hi, rfl⟩ := (hmem m).mp hm
        have hlt := hrange i hi
        have hlimit := sized.2
        exact ⟨by omega, by omega⟩
      have hselect : (Evaluator.new p (some .subset)).selection (.subset w)
          = (Variable.subset w).asSubset.map fun ms => ms.map Int.toNat :=
        if_pos (admits_of_extended? hlower hupper hcapacity)
      rw [hselect, asSubset_members hword, ok_map, map_toNat_eq_sort hsorted hmem]
    | _ => exact absurd h id

/-- A bit vector of the right length holds the set of its set bits. -/
theorem holds_toFinset_positions {w : BinaryVariable} {n : Nat} (h : w.length = n) :
    binary.Holds n (positions w.bits).toFinset (.binary w) :=
  ⟨h, fun i => by rw [List.mem_toFinset, mem_positions]⟩

/-- A valid subset that is admitted holds the set of its members. -/
theorem holds_toFinset_members {w : SubsetVariable} (valid : (Variable.subset w).Valid)
    (h : (Evaluator.new p (some .subset)).admits w) :
    subset.Holds p.functionalities (w.members.map Int.toNat).toFinset (.subset w) := by
  obtain ⟨hsorted, c, l, u, hc, hl, hu, -, hrange⟩ := valid
  have hn : (Number.whole p.functionalities).whole? = some (p.functionalities : Int) := rfl
  have hzero : (Number.whole 0).whole? = some 0 := rfl
  simp only [Evaluator.admits, Evaluator.new, Problem.announced, Bool.and_eq_true,
    Bool.not_eq_true', Number.le_of_whole? hl hzero, Number.le_of_whole? hzero hl,
    Number.le_of_whole? hu hn, Number.le_of_whole? hn hu, Number.lt_of_whole? hn hc,
    decide_eq_true_eq, decide_eq_false_iff_not] at h
  obtain ⟨⟨⟨⟨hl_le, hl_ge⟩, hu_le⟩, hu_ge⟩, hroom⟩ := h
  obtain rfl : l = 0 := le_antisymm hl_le hl_ge
  obtain rfl : u = p.functionalities := le_antisymm hu_le hu_ge
  refine ⟨?_, ?_, ?_, hsorted, fun m => ?_, fun i hi => ?_⟩
  · simpa using Number.extended?_of_whole? hl
  · simpa using Number.extended?_of_whole? hu
  · rw [Number.le_of_whole? hc hn, decide_eq_true_eq]
    exact not_lt.mp hroom
  · constructor
    · intro hm
      exact ⟨m.toNat, by simpa using ⟨m, hm, rfl⟩, Int.toNat_of_nonneg (hrange m hm).1⟩
    · rintro ⟨i, hi, rfl⟩
      obtain ⟨m, hm, rfl⟩ := List.mem_map.mp (List.mem_toFinset.mp hi)
      rwa [Int.toNat_of_nonneg (hrange m hm).1]
  · obtain ⟨m, hm, rfl⟩ := List.mem_map.mp (List.mem_toFinset.mp hi)
    have := hrange m hm
    omega

/-- **An evaluator takes a valid variable exactly if the variable holds a selection.** -/
theorem exists_selection_iff (valid : v.Valid) (sized : Entry.IsWord p.functionalities) :
    (∃ columns, (Evaluator.new p (some encoding)).selection v = .ok columns)
      ↔ ∃ S, encoding.Holds p.functionalities S v := by
  refine ⟨fun ⟨columns, h⟩ => ?_, fun ⟨S, h⟩ => ⟨_, h.selection sized⟩⟩
  cases encoding with
  | binary =>
    cases v with
    | binary w => exact ⟨_, holds_toFinset_positions (require_eq_ok.mp h).1⟩
    | _ => exact nomatch h
  | subset =>
    cases v with
    | subset w => exact ⟨_, holds_toFinset_members valid (require_eq_ok.mp h).1⟩
    | _ => exact nomatch h

/-- A subset that holds four functionalities of the sample problem. -/
theorem holds_sampleProblem :
    subset.Holds sampleProblem.functionalities {1, 3, 7, 9}
      (.subset ⟨.whole 12, .whole 0, .whole 12, [1, 3, 7, 9]⟩) :=
  ⟨by simp [Number.extended?], by simp [Number.extended?, sampleProblem], by decide, by decide,
    by simp [eq_comm], by decide⟩

/-- The functionalities of a selection are among all of them. -/
theorem Holds.lt {n i : Nat} (h : encoding.Holds n S v) (hi : i ∈ S) : i < n := by
  cases encoding with
  | binary =>
    cases v with
    | binary w =>
      obtain ⟨hlength, hbits⟩ := h
      rw [← hlength]
      exact (List.getElem?_eq_some_iff.mp ((hbits i).mpr hi)).1
    | _ => exact absurd h id
  | subset =>
    cases v with
    | subset w => exact h.2.2.2.2.2 i hi
    | _ => exact absurd h id

/-- A selection is evaluated as the ascending list of its columns. -/
theorem Holds.evaluate (h : encoding.Holds p.functionalities S v)
    (sized : Entry.IsWord p.functionalities) :
    (Evaluator.new p (some encoding)).evaluate v = .ok (p.evaluateColumns S.sort) := by
  rw [Evaluator.evaluate, h.selection sized]
  rfl

end Encoding

/-! ## Exact sums -/

namespace Problem

/-- What a selection is worth in a version. -/
def exactValue (p : Problem) (S : Finset Nat) (version : Nat) : Nat :=
  ∑ f ∈ S, (p.value.getD version []).getD f 0

/-- What a selection costs in a version. -/
def exactCost (p : Problem) (S : Finset Nat) (version : Nat) : Nat :=
  ∑ f ∈ S, (p.cost.getD version []).getD f 0

/-- A sum over a set is the sum over its ascending list. -/
theorem sum_map_sort (S : Finset Nat) (f : Nat → Nat) : (S.sort.map f).sum = ∑ i ∈ S, f i := by
  rw [← List.sum_toFinset f (S.sort_nodup _), Finset.sort_toFinset]

end Problem

end MigrationPlan
