import MigrationPlan.Proofs.Evaluation.Selection
import MigrationPlan.Proofs.Evaluation.Sum
import MigrationPlan.Proofs.Numeric.Enclosure

/-!
# Proofs/Evaluation/Exactness — evaluations in doubles are exact up to `2 ^ 53`

A row is summed in doubles, from left to right or in blocks, and floors and ceilings of its entries
add up to those of its sum (`Problem.rel_rowSum`), so the sum is exact up to `2 ^ 53`
(`Problem.extended?_rowSum`).  An overrun is the exact difference of cost and budget where the two
are exact.  So **`evaluate_exact`**: in each version in which the sums and the budget are at most
`2 ^ 53`, all numbers of an evaluation are exact.
-/

namespace MigrationPlan

open Binary64

variable {k : Nat}

/-! ## Overruns -/

section Overruns

variable {cost budget : Binary64} {u : Extended} {q : Rat} {c b : Nat}

/-- An overrun is zero if the rounded difference is not positive. -/
theorem overrun_of_le {d : Extended} (hd : (cost.sub budget).extended? = some d)
    (h : (cost.sub budget).le 0) : overrun cost budget = 0 := by
  rw [overrun, max_of_extended? hd extended?_ofNat_zero, if_pos h]

/-- Otherwise it is that difference. -/
theorem overrun_of_not_le {d : Extended} (hd : (cost.sub budget).extended? = some d)
    (h : ¬(cost.sub budget).le 0) : overrun cost budget = cost.sub budget := by
  rw [overrun, max_of_extended? hd extended?_ofNat_zero, if_neg h]

/-- **The overrun of a budget is exact where both numbers are.** -/
theorem extended?_overrun (hcost : cost.extended? = some (.point c))
    (hbudget : budget.extended? = some (.point b)) (hc : c ≤ 2 ^ 53) :
    (overrun cost budget).extended? = some (.point (max 0 ((c : Rat) - b))) := by
  have hsub := extended?_sub hcost hbudget
  have hle := sub_le_zero_iff hcost hbudget
  rw [Extended.point_le_point, Nat.cast_le] at hle
  rcases le_or_gt c b with hcb | hcb
  · obtain ⟨d, hd, -⟩ := extended?_ofRat_of_nonpos (sub_nonpos.mpr (Nat.cast_le.mpr hcb))
    rw [overrun_of_le (hsub.trans hd) (hle.mpr hcb), extended?_ofNat_zero,
      max_eq_left (sub_nonpos.mpr (Nat.cast_le.mpr hcb))]
  · have hexact : (cost.sub budget).extended? = some (.point ((c - b : Nat) : Rat)) := by
      rw [hsub, ← Nat.cast_sub hcb.le]
      exact extended?_ofRat_of_dvd (k := 0) (Nat.zero_le _) (Nat.one_dvd _) (by omega)
    rw [overrun_of_not_le hexact (mt hle.mp hcb.not_ge), hexact, Nat.cast_sub hcb.le,
      max_eq_right (sub_nonneg.mpr (Nat.cast_le.mpr hcb.le))]

end Overruns

/-! ## Rows -/

theorem getElem?_eq_getD {α : Type} {rows : List α} {j : Nat} (fallback : α)
    (hj : j < rows.length) : rows[j]? = some (rows.getD j fallback) := by
  rw [List.getD_eq_getElem?_getD, List.getElem?_eq_getElem hj, Option.getD_some]

theorem getD_mem {α : Type} {rows : List α} {j : Nat} (fallback : α) (hj : j < rows.length) :
    rows.getD j fallback ∈ rows :=
  List.mem_of_getElem? (getElem?_eq_getD fallback hj)

/-- Floors add up. -/
theorem addsUp_hasFloor : AddsUp (HasFloor k) where
  zero := hasFloor_ofInt (Nat.dvd_zero _) le_rfl
  add := HasFloor.add

/-- Ceilings add up. -/
theorem addsUp_hasCeiling (hk : k ≤ 970) : AddsUp (HasCeiling k) where
  zero := hasCeiling_ofInt hk (Nat.dvd_zero _) le_rfl
  add := HasCeiling.add hk

namespace Problem

variable {p : Problem} {columns row : List Nat} {S : Finset Nat} {j : Nat}

/-- **What adds up from the entries of a row holds of its sum**, in either order of addition. -/
theorem rel_rowSum_columns {R : Binary64 → Nat → Prop} (hR : AddsUp R) (versions : Nat)
    {bound : Nat → Nat} (h : ∀ c ∈ columns, R (ofInt (row.getD c 0)) (bound c)) :
    R (rowSum versions row columns) (columns.map bound).sum := by
  have hterms : List.Forall₂ R (columns.map fun c => ofInt (row.getD c 0)) (columns.map bound) := by
    rw [List.forall₂_map_left_iff, List.forall₂_map_right_iff, List.forall₂_same]
    exact h
  rw [rowSum]
  split_ifs
  · exact hR.blockedSum hterms
  · exact hR.runningSum hterms

/-- The same for the columns of a selection. -/
theorem rel_rowSum {R : Binary64 → Nat → Prop} (hR : AddsUp R) (versions : Nat) {bound : Nat → Nat}
    (h : ∀ f ∈ S, R (ofInt (row.getD f 0)) (bound f)) :
    R (rowSum versions row S.sort) (∑ f ∈ S, bound f) := by
  rw [← sum_map_sort]
  exact rel_rowSum_columns hR versions fun c hc => h c ((Finset.mem_sort _).mp hc)

/-- A sum of entries is a number or an infinity, whatever its columns are. -/
theorem exists_extended?_rowSum (versions : Nat) (row columns : List Nat) :
    ∃ u, (rowSum versions row columns).extended? = some u := by
  have hfloor : HasFloor 0 (rowSum versions row columns) (columns.map fun _ => 0).sum :=
    rel_rowSum_columns addsUp_hasFloor versions fun _ _ =>
      hasFloor_ofInt (Nat.dvd_zero _) (Nat.zero_le _)
  exact hfloor.exists_extended?

/-- The multiples below the selected entries add up to a floor of their rounded sum. -/
theorem hasFloor_rowSum (versions : Nat) (row : List Nat) (S : Finset Nat) (k : Nat) :
    HasFloor k (rowSum versions row S.sort) (∑ f ∈ S, multipleBelow k (row.getD f 0)) :=
  rel_rowSum addsUp_hasFloor versions fun _ _ =>
    hasFloor_ofInt (dvd_multipleBelow k _) (multipleBelow_le k _)

/-- The multiples above them add up to a ceiling. -/
theorem hasCeiling_rowSum (versions : Nat) (row : List Nat) (S : Finset Nat) (hk : k ≤ 970) :
    HasCeiling k (rowSum versions row S.sort)
      (∑ f ∈ S, (multipleBelow k (row.getD f 0) + gap k (row.getD f 0))) :=
  rel_rowSum (addsUp_hasCeiling hk) versions fun _ _ =>
    hasCeiling_ofInt hk (Nat.dvd_add (dvd_multipleBelow k _) (dvd_gap k _))
      (le_multipleBelow_add_gap k _)

/-- **The sum of a row is exact up to `2 ^ 53`.**  Each entry is its own floor and ceiling. -/
theorem extended?_rowSum (versions : Nat) (hsum : ∑ f ∈ S, row.getD f 0 ≤ 2 ^ 53) :
    (rowSum versions row S.sort).extended? = some (.point (∑ f ∈ S, row.getD f 0 : Nat)) := by
  have hunit (n : Nat) : 2 ^ 0 ∣ n := Nat.one_dvd n
  have hfloor := rel_rowSum (addsUp_hasFloor (k := 0)) versions
    fun f (_ : f ∈ S) => hasFloor_ofInt (hunit (row.getD f 0)) le_rfl
  have hceiling := rel_rowSum (addsUp_hasCeiling (k := 0) (Nat.zero_le _)) versions
    fun f (_ : f ∈ S) => hasCeiling_ofInt (Nat.zero_le _) (hunit (row.getD f 0)) le_rfl
  exact hfloor.extended?_eq hceiling hsum

/-! ## Evaluations -/

theorem getElem?_minimized (valid : p.WellFormed) (hj : j < p.versions) :
    (p.evaluateColumns columns).minimized[j]?
      = some (rowSum p.versions (p.value.getD j []) columns).neg := by
  have hrow := getElem?_eq_getD [] (valid.value.1.symm ▸ hj)
  simp only [evaluateColumns, totals, List.getElem?_map, hrow, Option.map_some]

theorem getElem?_objectives (valid : p.WellFormed) (hj : j < p.versions) :
    (p.evaluateColumns columns).objectives[j]?
      = some (rowSum p.versions (p.value.getD j []) columns) := by
  rw [Assessment.objectives, List.getElem?_map, getElem?_minimized valid hj, Option.map_some,
    Binary64.neg_neg]

theorem getElem?_rawCost (valid : p.WellFormed) (hj : j < p.versions) :
    (p.evaluateColumns columns).rawCost[j]?
      = some (rowSum p.versions (p.cost.getD j []) columns) := by
  have hrow := getElem?_eq_getD [] (valid.cost.1.symm ▸ hj)
  simp only [evaluateColumns, totals, List.getElem?_map, hrow, Option.map_some]

theorem getElem?_overruns (valid : p.WellFormed) (hj : j < p.versions) :
    (p.evaluateColumns columns).overruns[j]? = some
      (overrun (rowSum p.versions (p.cost.getD j []) columns) (ofInt (p.budget.getD j 0))) := by
  have hrow := getElem?_eq_getD [] (valid.cost.1.symm ▸ hj)
  have hbudget := getElem?_eq_getD 0 (valid.budget.1.symm ▸ hj)
  simp only [evaluateColumns, totals, budgets, List.getElem?_zipWith, List.getElem?_map, hrow,
    hbudget, Option.map_some]

end Problem

/-- **Evaluations are exact up to `2 ^ 53`.**  Let a variable of either encoding hold a selection.
Its evaluation succeeds.  In each version in which what the selection is worth and costs and the
budget are at most `2 ^ 53`, the objective is the exact value, the minimised number is its negation,
the raw cost is the exact cost, and the overrun is what this cost exceeds the budget by. -/
theorem evaluate_exact {p : Problem} {encoding : Encoding} {S : Finset Nat} {v : Variable}
    (valid : p.WellFormed) (sized : Entry.IsWord p.functionalities)
    (holds : encoding.Holds p.functionalities S v) :
    ∃ r, (Evaluator.new p (some encoding)).evaluate v = .ok r
      ∧ ∀ j < p.versions, p.exactValue S j ≤ 2 ^ 53 → p.exactCost S j ≤ 2 ^ 53 →
        p.budget.getD j 0 ≤ 2 ^ 53 →
        ∃ value cost excess : Binary64, r.objectives[j]? = some value
          ∧ r.minimized[j]? = some value.neg
          ∧ r.rawCost[j]? = some cost
          ∧ r.overruns[j]? = some excess
          ∧ value.extended? = some (.point (p.exactValue S j))
          ∧ cost.extended? = some (.point (p.exactCost S j))
          ∧ excess.extended?
            = some (.point (max 0 ((p.exactCost S j : Rat) - p.budget.getD j 0))) := by
  refine ⟨_, holds.evaluate sized, fun j hj hvalue hcost hbudget => ?_⟩
  have hvalueExact := Problem.extended?_rowSum p.versions hvalue
  have hcostExact := Problem.extended?_rowSum p.versions hcost
  have hbudgetExact := extended?_ofRat_of_dvd (k := 0) (Nat.zero_le _) (Nat.one_dvd _) hbudget
  exact ⟨_, _, _, Problem.getElem?_objectives valid hj, Problem.getElem?_minimized valid hj,
    Problem.getElem?_rawCost valid hj, Problem.getElem?_overruns valid hj, hvalueExact, hcostExact,
    extended?_overrun hcostExact hbudgetExact hcost⟩

/-- Four functionalities of the sample problem, which cost one more than the first budget. -/
theorem evaluate_sampleProblem_exact :
    ∃ r, (Evaluator.new sampleProblem (some .subset)).evaluate
        (.subset ⟨.whole 12, .whole 0, .whole 12, [1, 3, 7, 9]⟩) = .ok r
      ∧ ∃ value cost excess : Binary64, r.objectives[0]? = some value
        ∧ r.minimized[0]? = some value.neg ∧ r.rawCost[0]? = some cost
        ∧ r.overruns[0]? = some excess ∧ value.extended? = some (.point 15)
        ∧ cost.extended? = some (.point 41) ∧ excess.extended? = some (.point 1) := by
  obtain ⟨r, hr, hexact⟩ :=
    evaluate_exact wellFormed_sampleProblem (by decide) Encoding.holds_sampleProblem
  have hvalue : sampleProblem.exactValue {1, 3, 7, 9} 0 = 15 := by decide
  have hcost : sampleProblem.exactCost {1, 3, 7, 9} 0 = 41 := by decide
  have hbudget : sampleProblem.budget.getD 0 0 = 40 := by decide
  obtain ⟨value, cost, excess, hf, hmin, hraw, hg, hx, hc, he⟩ :=
    hexact 0 (by decide) (by rw [hvalue]; norm_num) (by rw [hcost]; norm_num)
      (by rw [hbudget]; norm_num)
  rw [hvalue] at hx
  rw [hcost] at hc
  rw [hcost, hbudget] at he
  exact ⟨r, hr, value, cost, excess, hf, hmin, hraw, hg, hx, hc, by rw [he]; norm_num⟩

end MigrationPlan
