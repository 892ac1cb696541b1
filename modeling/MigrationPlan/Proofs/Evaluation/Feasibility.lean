import MigrationPlan.Proofs.Evaluation.Exactness

/-!
# Proofs/Evaluation/Feasibility — when the verdict is that of the exact sums

A version is within its budget if the rounded cost is not above the rounded budget: the rounding of
their difference does not matter (`isWithin_overrun_iff`).  Both numbers are rounded, so the verdict
can be wrong, in either direction (`isFeasible_ne_exact_beyond_range`).  It is that of the exact
sums wherever doubles resolve the two (`Problem.IsResolved`): **`isFeasible_iff_of_isResolved`**.
Every budget below `2 ^ 53` is resolved, whatever the costs are, and so is every cost up to
`2 ^ 53`.  Beyond, multiples of a power of two are resolved as smaller numbers are
(`Problem.isResolved_of_dvd`), and others if they are far enough apart
(`Problem.isResolved_of_apart`).
-/

namespace MigrationPlan

open Binary64

/-! ## One version -/

/-- What is not above zero stays so if it is cut off there. -/
theorem isWithin_max_zero (x : Binary64) : isWithin (x.max 0) = x.le 0 := by
  rcases hx : x.extended? with _ | u
  · obtain rfl := extended?_eq_none.mp hx
    rfl
  rw [isWithin, max_of_extended? hx extended?_ofNat_zero]
  split_ifs with hle
  · rw [hle, le_of_extended? extended?_ofNat_zero extended?_ofNat_zero]
    exact Extended.le_refl _
  · rfl

/-- **An overrun is not positive exactly if the cost is not above the budget**, both as doubles. -/
theorem isWithin_overrun_iff {cost budget : Binary64} {u : Extended} {q : Rat}
    (hcost : cost.extended? = some u) (hbudget : budget.extended? = some (.point q)) :
    isWithin (overrun cost budget) ↔ cost.le budget := by
  rw [overrun, isWithin_max_zero, le_of_extended? hcost hbudget]
  exact sub_le_zero_iff hcost hbudget

namespace Problem

variable {p : Problem} {S : Finset Nat} {k j : Nat}

/-- How far rounding to multiples of `2 ^ k` can bring a selection's cost and the budget of a
version together: by `2 ^ k` for each of the selected costs and the budget that is not a multiple
itself. -/
def slack (p : Problem) (S : Finset Nat) (k j : Nat) : Nat :=
  ∑ f ∈ S, gap k ((p.cost.getD j []).getD f 0) + gap k (p.budget.getD j 0)

/-- **Doubles resolve a selection's cost against the budget of a version**: for some `k`, the
smaller of the two with the slack added does not pass the larger, nor `2 ^ (53 + k)`.  If the budget
is the smaller, it does not reach them.  Entries are below `2 ^ 63`, so no larger `k` is needed. -/
def IsResolved (p : Problem) (S : Finset Nat) (j : Nat) : Prop :=
  ∃ k ≤ 63, p.exactCost S j + p.slack S k j ≤ min (p.budget.getD j 0) (2 ^ (53 + k))
    ∨ p.budget.getD j 0 + p.slack S k j < min (p.exactCost S j) (2 ^ (53 + k))

/-! ### What is resolved -/

theorem slack_eq_zero (hcosts : ∀ f ∈ S, 2 ^ k ∣ (p.cost.getD j []).getD f 0)
    (hbudget : 2 ^ k ∣ p.budget.getD j 0) : p.slack S k j = 0 := by
  rw [slack, gap_eq_zero hbudget, Finset.sum_eq_zero fun f hf => gap_eq_zero (hcosts f hf)]

theorem slack_le (p : Problem) (S : Finset Nat) (k j : Nat) :
    p.slack S k j ≤ (S.card + 1) * 2 ^ k := by
  have hsum := Finset.sum_le_card_nsmul S (fun f => gap k ((p.cost.getD j []).getD f 0)) (2 ^ k)
    fun f _ => gap_le k _
  rw [slack, Nat.add_mul, Nat.one_mul]
  exact Nat.add_le_add hsum (gap_le k _)

/-- **Multiples of `2 ^ k` need no slack**: they are resolved unless the budget reaches
`2 ^ (53 + k)` and the cost is above it. -/
theorem isResolved_of_dvd (hk : k ≤ 63) (hcosts : ∀ f ∈ S, 2 ^ k ∣ (p.cost.getD j []).getD f 0)
    (hbudget : 2 ^ k ∣ p.budget.getD j 0)
    (hrange : p.budget.getD j 0 < 2 ^ (53 + k) ∨ p.exactCost S j ≤ 2 ^ (53 + k)) :
    p.IsResolved S j := by
  refine ⟨k, hk, ?_⟩
  rw [slack_eq_zero hcosts hbudget, Nat.add_zero, Nat.add_zero, le_min_iff, lt_min_iff]
  omega

/-- Every budget below `2 ^ 53` is resolved, whatever the costs are. -/
theorem isResolved_of_budget_lt (h : p.budget.getD j 0 < 2 ^ 53) : p.IsResolved S j :=
  isResolved_of_dvd (Nat.zero_le _) (fun _ _ => Nat.one_dvd _) (Nat.one_dvd _) (.inl h)

/-- Every cost up to `2 ^ 53` is resolved, whatever the budget is. -/
theorem isResolved_of_exactCost_le (h : p.exactCost S j ≤ 2 ^ 53) : p.IsResolved S j :=
  isResolved_of_dvd (Nat.zero_le _) (fun _ _ => Nat.one_dvd _) (Nat.one_dvd _) (.inr h)

/-- **Numbers far enough apart are resolved**: by one `2 ^ k` for each functionality and two more,
as long as the smaller is as far below `2 ^ (53 + k)`. -/
theorem isResolved_of_apart (hk : k ≤ 63)
    (hapart : min (p.exactCost S j) (p.budget.getD j 0) + (S.card + 2) * 2 ^ k
      ≤ min (max (p.exactCost S j) (p.budget.getD j 0)) (2 ^ (53 + k))) : p.IsResolved S j := by
  have hslack := slack_le p S k j
  have hpos := Nat.two_pow_pos k
  rw [Nat.add_mul] at hapart hslack
  refine ⟨k, hk, ?_⟩
  rcases le_total (p.exactCost S j) (p.budget.getD j 0) with hle | hle
  · rw [min_eq_left hle, max_eq_right hle] at hapart
    exact .inl (by omega)
  · rw [min_eq_right hle, max_eq_left hle] at hapart
    exact .inr (by omega)

/-! ### The verdict of a version -/

/-- Entries are far below the largest double, and so are the doubles next to them. -/
theorem exists_extended?_ofInt {n : Nat} (h : n ≤ maxEntry) :
    ∃ q, (ofInt n).extended? = some (.point q) := by
  have hceiling : HasCeiling 63 (ofInt n) (2 ^ 63) :=
    hasCeiling_ofInt (by decide) (Nat.dvd_refl _) (h.trans (by decide))
  obtain ⟨q, hq, -⟩ := hceiling.atMost (by decide)
  exact ⟨q, hq⟩

theorem WellFormed.exists_extended?_budget (valid : p.WellFormed) (hj : j < p.versions) :
    ∃ q, (ofInt (p.budget.getD j 0)).extended? = some (.point q) :=
  exists_extended?_ofInt (valid.budget.2 _ (getD_mem 0 (valid.budget.1.symm ▸ hj)))

/-- **The verdict of a resolved version is that of the exact sum.** -/
theorem isWithin_iff_of_isResolved (valid : p.WellFormed) (hj : j < p.versions)
    (h : p.IsResolved S j) :
    isWithin (overrun (rowSum p.versions (p.cost.getD j []) S.sort) (ofInt (p.budget.getD j 0)))
      ↔ p.exactCost S j ≤ p.budget.getD j 0 := by
  obtain ⟨k, hk, hcase⟩ := h
  have hcostFloor := hasFloor_rowSum p.versions (p.cost.getD j []) S k
  have hcostCeiling := hasCeiling_rowSum p.versions (p.cost.getD j []) S (by omega : k ≤ 970)
  have hbudgetFloor := hasFloor_ofInt (dvd_multipleBelow k (p.budget.getD j 0))
    (multipleBelow_le k (p.budget.getD j 0))
  have hbudgetCeiling := hasCeiling_ofInt (by omega : k ≤ 970)
    (Nat.dvd_add (dvd_multipleBelow k (p.budget.getD j 0)) (dvd_gap k (p.budget.getD j 0)))
    (le_multipleBelow_add_gap k (p.budget.getD j 0))
  obtain ⟨u, hu⟩ := hcostFloor.exists_extended?
  obtain ⟨q, hq⟩ := valid.exists_extended?_budget hj
  rw [isWithin_overrun_iff hu hq]
  have hlow : ∑ f ∈ S, multipleBelow k ((p.cost.getD j []).getD f 0) ≤ p.exactCost S j :=
    Finset.sum_le_sum fun f _ => multipleBelow_le k _
  have hhigh : p.exactCost S j ≤ ∑ f ∈ S, (multipleBelow k ((p.cost.getD j []).getD f 0)
      + gap k ((p.cost.getD j []).getD f 0)) :=
    Finset.sum_le_sum fun f _ => le_multipleBelow_add_gap k _
  have hbudgetLow := multipleBelow_le k (p.budget.getD j 0)
  have hbudgetHigh := le_multipleBelow_add_gap k (p.budget.getD j 0)
  rw [Finset.sum_add_distrib] at hcostCeiling hhigh
  rw [slack] at hcase
  rcases hcase with hfits | hover
  · rw [le_min_iff] at hfits
    exact iff_of_true (hcostCeiling.le hbudgetFloor (by omega) (by omega)) (by omega)
  · rw [lt_min_iff] at hover
    exact iff_of_false (hcostFloor.not_le hbudgetCeiling (by omega) (by omega)) (by omega)

/-- The verdict is taken version by version. -/
theorem isFeasible_evaluateColumns_iff {columns : List Nat} (valid : p.WellFormed) :
    (p.evaluateColumns columns).isFeasible ↔ ∀ j < p.versions, isWithin
      (overrun (rowSum p.versions (p.cost.getD j []) columns) (ofInt (p.budget.getD j 0))) := by
  have hlength : (p.evaluateColumns columns).overruns.length = p.versions := by
    simp [evaluateColumns, totals, budgets, valid.cost.1, valid.budget.1]
  rw [Assessment.isFeasible, List.all_eq_true]
  constructor
  · intro h j hj
    exact h _ (List.mem_of_getElem? (getElem?_overruns valid hj))
  · intro h x hx
    obtain ⟨j, hj⟩ := List.mem_iff_getElem?.mp hx
    have hlt : j < p.versions := hlength ▸ (List.getElem?_eq_some_iff.mp hj).1
    rw [getElem?_overruns valid hlt] at hj
    exact Option.some.inj hj ▸ h j hlt

end Problem

/-! ## The verdict -/

/-- **The verdict is that of the exact sums, as far as doubles resolve these.**  Let a variable of
either encoding hold a selection.  Its evaluation succeeds.  If it is reported feasible, the exact
cost keeps to the budget in every version that is resolved; and if all versions are, it is reported
feasible exactly if the exact cost keeps to the budget in each. -/
theorem isFeasible_iff_of_isResolved {p : Problem} {encoding : Encoding} {S : Finset Nat}
    {v : Variable} (valid : p.WellFormed) (sized : Entry.IsWord p.functionalities)
    (holds : encoding.Holds p.functionalities S v) :
    ∃ r, (Evaluator.new p (some encoding)).evaluate v = .ok r
      ∧ (r.isFeasible →
        ∀ j < p.versions, p.IsResolved S j → p.exactCost S j ≤ p.budget.getD j 0)
      ∧ ((∀ j < p.versions, p.IsResolved S j) →
        (r.isFeasible ↔ ∀ j < p.versions, p.exactCost S j ≤ p.budget.getD j 0)) := by
  refine ⟨_, holds.evaluate sized, fun hfeasible j hj hresolved => ?_, fun hresolved => ?_⟩
  · have hwithin := (Problem.isFeasible_evaluateColumns_iff valid).mp hfeasible j hj
    exact (Problem.isWithin_iff_of_isResolved valid hj hresolved).mp hwithin
  · rw [Problem.isFeasible_evaluateColumns_iff valid]
    exact forall₂_congr fun j hj => Problem.isWithin_iff_of_isResolved valid hj (hresolved j hj)

/-- Four functionalities of the sample problem cost one more than the first budget. -/
theorem isFeasible_sampleProblem_eq_false :
    ∃ r, (Evaluator.new sampleProblem (some .subset)).evaluate
        (.subset ⟨.whole 12, .whole 0, .whole 12, [1, 3, 7, 9]⟩) = .ok r
      ∧ r.isFeasible = false := by
  obtain ⟨r, hr, -, hiff⟩ :=
    isFeasible_iff_of_isResolved wellFormed_sampleProblem (by decide) Encoding.holds_sampleProblem
  have hresolved : ∀ j < sampleProblem.versions, sampleProblem.IsResolved {1, 3, 7, 9} j :=
    fun j hj => Problem.isResolved_of_budget_lt (by revert j; decide)
  have hover : ¬∀ j < sampleProblem.versions,
      sampleProblem.exactCost {1, 3, 7, 9} j ≤ sampleProblem.budget.getD j 0 := by decide
  exact ⟨r, hr, Bool.eq_false_iff.mpr fun h => hover ((hiff hresolved).mp h)⟩

/-! ## Beyond the range -/

/-- One functionality that costs one more than the budget. -/
def overspentProblem : Problem :=
  ⟨1, 1, [[0]], [[0x20000000000001]], [0x20000000000000]⟩

/-- Four functionalities that cost just the budget. -/
def exhaustedProblem : Problem :=
  ⟨1, 4, [[0, 0, 0, 0]],
    [[0x20000000000003, 0x20000000000003, 0x20000000000003, 0x20000000000002]],
    [0x8000000000000B]⟩

theorem wellFormed_overspentProblem : overspentProblem.WellFormed := by
  decide

theorem wellFormed_exhaustedProblem : exhaustedProblem.WellFormed := by
  decide

/-- All bits set hold all functionalities. -/
theorem holds_replicate_true (n : Nat) :
    Encoding.binary.Holds n (Finset.range n) (.binary ⟨List.replicate n true⟩) :=
  ⟨List.length_replicate .., fun i => by
    rw [Finset.mem_range, List.getElem?_replicate]
    split_ifs <;> simp_all⟩

/-- **Beyond `2 ^ 53` the verdict can be wrong, both ways.**  A selection that costs `2 ^ 53 + 1` is
reported feasible for a budget of `2 ^ 53`, and one that costs `2 ^ 55 + 11` is reported infeasible
for a budget of just that. -/
theorem isFeasible_ne_exact_beyond_range :
    (Encoding.binary.Holds 1 (Finset.range 1) (.binary ⟨[true]⟩)
      ∧ overspentProblem.WellFormed
      ∧ ∃ r, (Evaluator.new overspentProblem (some .binary)).evaluate (.binary ⟨[true]⟩) = .ok r
        ∧ r.isFeasible = true
        ∧ ¬∀ j < overspentProblem.versions,
          overspentProblem.exactCost (Finset.range 1) j ≤ overspentProblem.budget.getD j 0)
    ∧ Encoding.binary.Holds 4 (Finset.range 4) (.binary ⟨[true, true, true, true]⟩)
      ∧ exhaustedProblem.WellFormed
      ∧ ∃ r, (Evaluator.new exhaustedProblem (some .binary)).evaluate
          (.binary ⟨[true, true, true, true]⟩) = .ok r
        ∧ r.isFeasible = false
        ∧ ∀ j < exhaustedProblem.versions,
          exhaustedProblem.exactCost (Finset.range 4) j ≤ exhaustedProblem.budget.getD j 0 := by
  refine ⟨⟨holds_replicate_true 1, wellFormed_overspentProblem,
    overspentProblem.evaluateColumns [0], rfl, ?_, by decide⟩, holds_replicate_true 4,
    wellFormed_exhaustedProblem, exhaustedProblem.evaluateColumns [0, 1, 2, 3], rfl, ?_, by decide⟩
  · decide +kernel
  · decide +kernel

end MigrationPlan
