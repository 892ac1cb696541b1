import MigrationPlan.Evaluation.Evaluator
import MigrationPlan.Problem.Sample
import MigrationPlan.Proofs.Numeric.Whole
import MigrationPlan.Proofs.Variable.Views

/-!
# Proofs/Evaluation/Encodings — one selection, two encodings, one evaluation

A selection of functionalities is written into a fresh variable of either encoding, in any order.
The bit vector is read as the ascending list of its set positions (`positions_bitsAt`), the subset
as its ascending list of members (`map_toNat_memberList`), and both are the selection sorted.  So
both evaluators hand the same columns in the same order to the sums, whose value depends on that
order, and **`evaluate_setBitset_eq_evaluate_setSubset`**: the two evaluations are the same value,
down to the sign of each zero.
-/

namespace MigrationPlan

/-! ## Fresh variables -/

/-- There is a fresh bit vector if there is a functionality, and room for a bit for each; all of its
bits are clear. -/
theorem newVariable_binary_eq_ok [Memory] {p : Problem} {v : Variable} :
    (Evaluator.new p (some .binary)).newVariable = .ok v ↔
      1 ≤ p.functionalities ∧ Fits 1 p.functionalities
        ∧ .binary ⟨List.replicate p.functionalities false⟩ = v := by
  have hpos : (Number.whole p.functionalities).lt (.whole 1) = false ↔ 1 ≤ p.functionalities := by
    rw [Number.whole_lt_whole, decide_eq_false_iff_not]
    omega
  have hnew : (Evaluator.new p (some .binary)).newVariable
      = (BinaryVariable.new (.number (.whole p.functionalities))).map .binary := rfl
  rw [hnew, map_eq_ok]
  constructor
  · rintro ⟨b, hb, rfl⟩
    obtain ⟨n, hn, hone, count, hcount, rfl⟩ := BinaryVariable.new_eq_ok.mp hb
    obtain rfl : Number.whole p.functionalities = n := Except.ok.inj hn
    obtain ⟨hroom, rfl⟩ := (newSide?_natCast_eq_ok (by decide)).mp hcount
    exact ⟨hpos.mp hone, hroom, rfl⟩
  · rintro ⟨hone, hroom, rfl⟩
    have hcount : newSide? 1 (.whole p.functionalities) = .ok p.functionalities :=
      (newSide?_natCast_eq_ok (by decide)).mpr ⟨hroom, rfl⟩
    exact ⟨_, BinaryVariable.new_eq_ok.mpr ⟨_, rfl, hpos.mpr hone, _, hcount, rfl⟩, rfl⟩

/-- The fresh subset of an evaluator is empty and over all functionalities. -/
theorem newVariable_subset [Memory] (p : Problem) :
    (Evaluator.new p (some .subset)).newVariable
      = .ok (.subset ⟨.whole p.functionalities, .whole 0, .whole p.functionalities, []⟩) := by
  have hcapacity : SubsetVariable.checkCapacity (.whole p.functionalities) (.whole 0)
      (.whole p.functionalities)
      = .ok (.whole p.functionalities, .whole 0, .whole p.functionalities) :=
    SubsetVariable.checkCapacity_eq_ok.mpr ⟨rfl, rfl, rfl, by simp, _, rfl, by simp, by simp⟩
  refine map_eq_ok.mpr ⟨_, SubsetVariable.create_eq_ok.mpr ⟨_, _, _, hcapacity, [], rfl, [], rfl,
    ?_, by simp [memberList], rfl⟩, rfl⟩
  simp [SubsetVariable.isOverfull, memberList]

/-! ## Selections as ascending lists -/

/-- **The set positions of a selection's bit vector are the selection, sorted.** -/
theorem positions_bitsAt {n : Nat} {is : List Nat} (distinct : is.Nodup)
    (inRange : ∀ i ∈ is, i < n) :
    positions (Variable.bitsAt n (is.map Int.ofNat)) = is.mergeSort := by
  refine List.Pairwise.eq_of_mem_iff (r := (· < ·)) (pairwise_positions _)
    (pairwise_mergeSort_of_nodup distinct) fun i => ?_
  rw [mem_positions, getElem?_bitsAt, List.mem_mergeSort]
  constructor
  · rintro ⟨-, hi⟩
    obtain ⟨k, hk, hki⟩ := List.mem_map.mp hi
    exact Int.ofNat.inj hki ▸ hk
  · intro hi
    exact ⟨inRange i hi, List.mem_map_of_mem hi⟩

/-! ## What is handed to the sums -/

namespace Problem

variable {p : Problem} {columns : List Nat}

/-- Flat columns, once they are resolved, are summed row by row. -/
theorem aggregate_of_resolve {s : Selection} {count : Nat}
    (h : s.resolve p.functionalities = .ok ([count], columns)) :
    p.aggregate s = .ok ([p.versions], p.totals columns) := by
  have hrow : rowSums p.versions [count] columns = fun row => [rowSum p.versions row columns] := by
    funext row
    simp [rowSums]
  rw [aggregate, h]
  simp [totals, hrow, List.map_eq_flatMap]

/-- **A mask is summed over its set positions, ascending.** -/
theorem aggregate_mask {marks : Bits} (h : marks.length = p.functionalities) :
    p.aggregate (.mask marks) = .ok ([p.versions], p.totals (positions marks)) :=
  aggregate_of_resolve (if_pos (by simp [h]))

/-- **An array of columns is summed in its own order.** -/
theorem aggregate_columns {ms : List Int} (hword : ∀ m ∈ ms, Entry.IsWord m)
    (hm : ∀ m ∈ ms, 0 ≤ m ∧ m < p.functionalities) :
    p.aggregate (.columns (.wholes ms)) = .ok ([p.versions], p.totals (ms.map Int.toNat)) := by
  have hcolumn : ms.mapM (columnAt p.functionalities) = .ok (ms.map Int.toNat) :=
    mapM_of_ok fun m hm' => if_pos (by simpa using hm m hm')
  have hresolve : Selection.resolve p.functionalities (.columns (.wholes ms))
      = .ok ([ms.length], ms.map Int.toNat) := by
    simp only [Selection.resolve, Datum.words?_wholes hword, ok_bind, hcolumn]
  exact aggregate_of_resolve hresolve

end Problem

/-! ## The two evaluations -/

section Selected

variable {p : Problem} {is : List Nat}

/-- The members of a selection are words in the range of the functionalities. -/
theorem mem_memberList_ofNat (inRange : ∀ i ∈ is, i < p.functionalities) {m : Int}
    (hm : m ∈ memberList (is.map Int.ofNat)) : 0 ≤ m ∧ m < p.functionalities := by
  obtain ⟨i, hi, rfl⟩ := List.mem_map.mp (mem_memberList.mp hm)
  have := inRange i hi
  simp only [Int.ofNat_eq_natCast]
  omega

/-- Writing a selection into the fresh bit vector. -/
theorem setBitset_clear (inRange : ∀ i ∈ is, i < p.functionalities) :
    (Variable.binary ⟨List.replicate p.functionalities false⟩).setBitset
        (.wholes (is.map Int.ofNat))
      = .ok (.binary ⟨Variable.bitsAt p.functionalities (is.map Int.ofNat)⟩) := by
  have hlength : BinaryVariable.length ⟨List.replicate p.functionalities false⟩
      = p.functionalities := List.length_replicate
  have hrange : ∀ i ∈ is.map Int.ofNat, 0 ≤ i ∧ i < p.functionalities :=
    List.forall_mem_map.mpr fun k hk => ⟨Int.natCast_nonneg k, Int.ofNat_lt.mpr (inRange k hk)⟩
  refine (Variable.setBitset_eq_ok_iff (Datum.lists_wholes _)).mpr ?_
  rw [hlength]
  exact ⟨hrange, rfl⟩

/-- Writing a selection into the fresh subset. -/
theorem setSubset_empty (distinct : is.Nodup) (inRange : ∀ i ∈ is, i < p.functionalities) :
    (Variable.subset ⟨.whole p.functionalities, .whole 0, .whole p.functionalities, []⟩).setSubset
        (.wholes (is.map Int.ofNat))
      = .ok (.subset ⟨.whole p.functionalities, .whole 0, .whole p.functionalities,
          memberList (is.map Int.ofNat)⟩) := by
  have hdistinct : (is.map Int.ofNat).Nodup := distinct.map fun _ _ => Int.ofNat.inj
  have hlength := length_memberList_of_nodup hdistinct
  refine (Variable.setSubset_eq_ok_iff (Datum.lists_wholes _)).mpr
    ⟨hdistinct, ⟨pairwise_memberList _, ?_, fun m hm => ?_⟩, rfl⟩
  · have hcount : is.length ≤ p.functionalities := by
      simpa using (List.subperm_of_subset distinct fun i hi =>
        List.mem_range.mpr (inRange i hi)).length_le
    simpa [SubsetVariable.isOverfull, hlength] using hcount
  · simpa [SubsetVariable.isSelectable] using mem_memberList_ofNat inRange hm

/-- The binary evaluator reads the selection off its bits, sorted. -/
theorem selection_binary (distinct : is.Nodup) (inRange : ∀ i ∈ is, i < p.functionalities) :
    (Evaluator.new p (some .binary)).selection
        (.binary ⟨Variable.bitsAt p.functionalities (is.map Int.ofNat)⟩) = .ok is.mergeSort := by
  have hlength : (Variable.bitsAt p.functionalities (is.map Int.ofNat)).length
      = p.functionalities := by simp [Variable.bitsAt]
  rw [← positions_bitsAt distinct inRange]
  exact if_pos hlength

/-- The subset evaluator reads it off the members, in the same order. -/
theorem selection_subset (distinct : is.Nodup)
    (hword : ∀ m ∈ memberList (is.map Int.ofNat), Entry.IsWord m) :
    (Evaluator.new p (some .subset)).selection (.subset ⟨.whole p.functionalities, .whole 0,
        .whole p.functionalities, memberList (is.map Int.ofNat)⟩) = .ok is.mergeSort := by
  rw [← map_toNat_memberList distinct]
  simp [Evaluator.selection, Evaluator.new, Evaluator.admits, Problem.announced,
    asSubset_members hword]

end Selected

/-- **Both encodings of a selection evaluate to the same value.**  Let a selection, in any order, be
written into the fresh variable of each encoding.  Both writes succeed, and so do both evaluations,
with one and the same result `r`.  It lists the selection sorted, and its sums are those of the mask
that the one variable holds and of the array of columns that the other one holds. -/
theorem evaluate_setBitset_eq_evaluate_setSubset [Memory] {p : Problem} {is : List Nat}
    {clear : Variable} (distinct : is.Nodup) (inRange : ∀ i ∈ is, i < p.functionalities)
    (fresh : (Evaluator.new p (some .binary)).newVariable = .ok clear) :
    ∃ (b empty s : Variable) (r : Evaluation),
      clear.setBitset (.wholes (is.map Int.ofNat)) = .ok b
      ∧ (Evaluator.new p (some .subset)).newVariable = .ok empty
      ∧ empty.setSubset (.wholes (is.map Int.ofNat)) = .ok s
      ∧ (Evaluator.new p (some .binary)).evaluate b = .ok r
      ∧ (Evaluator.new p (some .subset)).evaluate s = .ok r
      ∧ r.selected = is.mergeSort
      ∧ (∃ marks, b.asBinary = .ok marks
          ∧ p.aggregate (.mask marks) = .ok ([p.versions], r.businessValue, r.rawCost))
      ∧ ∃ members, s.asSubset = .ok members
          ∧ p.aggregate (.columns (.wholes members))
            = .ok ([p.versions], r.businessValue, r.rawCost) := by
  obtain ⟨-, hroom, rfl⟩ := newVariable_binary_eq_ok.mp fresh
  have hrange (m : Int) (hm : m ∈ memberList (is.map Int.ofNat)) : 0 ≤ m ∧ m < p.functionalities :=
    mem_memberList_ofNat inRange hm
  have hword (m : Int) (hm : m ∈ memberList (is.map Int.ofNat)) : Entry.IsWord m := by
    have hm := hrange m hm
    obtain ⟨hleast, hmost⟩ := hroom.isWord (Nat.le_refl 1)
    exact ⟨by omega, by omega⟩
  refine ⟨_, _, _, p.evaluateColumns is.mergeSort, setBitset_clear inRange, newVariable_subset p,
    setSubset_empty distinct inRange, ?_, ?_, rfl, ⟨_, rfl, ?_⟩, _, asSubset_members hword, ?_⟩
  · rw [Evaluator.evaluate, selection_binary distinct inRange]
    rfl
  · rw [Evaluator.evaluate, selection_subset distinct hword]
    rfl
  · rw [Problem.aggregate_mask (by simp [Variable.bitsAt]), positions_bitsAt distinct inRange]
    rfl
  · rw [Problem.aggregate_columns hword hrange, map_toNat_memberList distinct]
    rfl

/-- Three functionalities of the sample problem, not in their order. -/
theorem evaluate_sampleProblem_eq_both :
    ∃ (clear b empty s : Variable) (r : Evaluation),
      (Evaluator.new sampleProblem (some .binary)).newVariable = .ok clear
      ∧ clear.setBitset (.wholes [7, 0, 3]) = .ok b
      ∧ (Evaluator.new sampleProblem (some .subset)).newVariable = .ok empty
      ∧ empty.setSubset (.wholes [7, 0, 3]) = .ok s
      ∧ (Evaluator.new sampleProblem (some .binary)).evaluate b = .ok r
      ∧ (Evaluator.new sampleProblem (some .subset)).evaluate s = .ok r
      ∧ r.selected = [0, 3, 7] := by
  have fresh : (Evaluator.new sampleProblem (some .binary)).newVariable
      = .ok (.binary ⟨List.replicate 12 false⟩) := rfl
  have distinct : [7, 0, 3].Nodup := by decide
  obtain ⟨b, empty, s, r, hb, hempty, hs, hbr, hsr, hselected, -⟩ :=
    evaluate_setBitset_eq_evaluate_setSubset distinct (by decide) fresh
  have hsorted : [7, 0, 3].mergeSort = [0, 3, 7] :=
    List.Pairwise.eq_of_mem_iff (pairwise_mergeSort_of_nodup distinct) (by decide) fun i => by
      simp only [List.mem_mergeSort, List.mem_cons, List.not_mem_nil, or_false]
      omega
  exact ⟨_, b, empty, s, r, rfl, hb, hempty, hs, hbr, hsr, hselected.trans hsorted⟩

end MigrationPlan
