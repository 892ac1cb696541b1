import MigrationPlan.Evaluation.Front
import MigrationPlan.Proofs.Evaluation.Feasibility
import Mathlib.Order.WellFoundedSet

/-!
# Proofs/Evaluation/Domination — the best selections

What is reported of a selection does not depend on a search: `Problem.KeepsBudgets` compares the
reported costs with the budgets, `Problem.Outdoes` the reported values of two selections, as
maximised ones.  The best selections keep the budgets, and none that does outdoes them
(`Problem.IsBest`).  A search minimises negated values and looks at overruns, and signs turn both
orders around: `isFeasible_reported_iff`, **`dominates_reported_iff`**.  Outdoing is a strict order
on finitely many selections, so that there always is a best one: **`exists_isBest`**.
-/

namespace MigrationPlan

open Binary64

namespace Problem

variable {p : Problem} {R S T : Finset Nat} {j : Nat}

/-! ## What is reported -/

/-- What is reported of a selection. -/
def reported (p : Problem) (S : Finset Nat) : Evaluation :=
  p.evaluateColumns S.sort

/-- The business value that is reported of a selection in a version. -/
def reportedValue (p : Problem) (S : Finset Nat) (version : Nat) : Binary64 :=
  (p.reported S).objectives.getD version 0

/-- The cost that is reported of a selection in a version. -/
def reportedCost (p : Problem) (S : Finset Nat) (version : Nat) : Binary64 :=
  (p.reported S).rawCost.getD version 0

/-- The budget that is reported with it. -/
def reportedBudget (p : Problem) (S : Finset Nat) (version : Nat) : Binary64 :=
  (p.reported S).budget.getD version 0

/-- **A selection keeps the budgets**: no reported cost is above the budget of its version. -/
def KeepsBudgets (p : Problem) (S : Finset Nat) : Prop :=
  ∀ j < p.versions, (p.reportedCost S j).le (p.reportedBudget S j)

/-- **A selection outdoes another**: its reported value is at least that of the other in every
version, and greater in one. -/
def Outdoes (p : Problem) (T S : Finset Nat) : Prop :=
  (∀ j < p.versions, (p.reportedValue S j).le (p.reportedValue T j))
    ∧ ∃ j < p.versions, (p.reportedValue S j).lt (p.reportedValue T j)

/-- **The best selections**: they keep the budgets, and no other one that does outdoes them. -/
def IsBest (p : Problem) (S : Finset Nat) : Prop :=
  S ⊆ Finset.range p.functionalities ∧ p.KeepsBudgets S
    ∧ ∀ T ⊆ Finset.range p.functionalities, p.KeepsBudgets T → ¬p.Outdoes T S

theorem reportedValue_eq (valid : p.WellFormed) (hj : j < p.versions) :
    p.reportedValue S j = rowSum p.versions (p.value.getD j []) S.sort := by
  rw [reportedValue, List.getD_eq_getElem?_getD, reported, getElem?_objectives valid hj,
    Option.getD_some]

theorem reportedCost_eq (valid : p.WellFormed) (hj : j < p.versions) :
    p.reportedCost S j = rowSum p.versions (p.cost.getD j []) S.sort := by
  rw [reportedCost, List.getD_eq_getElem?_getD, reported, getElem?_rawCost valid hj,
    Option.getD_some]

theorem reportedBudget_eq (valid : p.WellFormed) (hj : j < p.versions) :
    p.reportedBudget S j = ofInt (p.budget.getD j 0) := by
  have hbudget := getElem?_eq_getD 0 (valid.budget.1.symm ▸ hj)
  rw [reportedBudget, List.getD_eq_getElem?_getD, reported, evaluateColumns, budgets,
    List.getElem?_map, hbudget, Option.map_some, Option.getD_some]

/-! ## What a search sees -/

/-- **No overrun is positive exactly if the budgets are kept.** -/
theorem isFeasible_reported_iff (valid : p.WellFormed) :
    (p.reported S).isFeasible ↔ p.KeepsBudgets S := by
  rw [reported, isFeasible_evaluateColumns_iff valid]
  refine forall₂_congr fun j hj => ?_
  obtain ⟨u, hu⟩ := (hasFloor_rowSum p.versions (p.cost.getD j []) S 0).exists_extended?
  obtain ⟨q, hq⟩ := valid.exists_extended?_budget hj
  rw [isWithin_overrun_iff hu hq, reportedCost_eq valid hj, reportedBudget_eq valid hj]

/-- **One evaluation dominates another exactly if its selection outdoes the other.** -/
theorem dominates_reported_iff (valid : p.WellFormed) :
    dominates (p.reported T).minimized (p.reported S).minimized ↔ p.Outdoes T S := by
  have hvalue (S : Finset Nat) (j : Nat) (hj : j < p.value.length) :
      rowSum p.versions p.value[j] S.sort = p.reportedValue S j := by
    rw [reportedValue_eq valid (valid.value.1 ▸ hj), List.getD_eq_getElem?_getD,
      List.getElem?_eq_getElem hj, Option.getD_some]
  simp only [dominates, reported, evaluateColumns, totals, List.map_map, List.zipWith_map,
    List.zipWith_self, List.all_map, List.any_map, Bool.and_eq_true, List.all_eq_true,
    List.any_eq_true, Function.comp_apply, id_eq, neg_le_neg_iff, neg_lt_neg_iff,
    List.forall_mem_iff_getElem, List.exists_mem_iff_getElem, hvalue, Outdoes, exists_prop]
  rw [valid.value.1]

/-- **A search tells the best selections** by its own verdict and its own order. -/
theorem isBest_iff (valid : p.WellFormed) :
    p.IsBest S ↔ S ⊆ Finset.range p.functionalities ∧ (p.reported S).isFeasible
      ∧ ∀ T ⊆ Finset.range p.functionalities, (p.reported T).isFeasible →
        ¬dominates (p.reported T).minimized (p.reported S).minimized := by
  simp only [IsBest, isFeasible_reported_iff valid, dominates_reported_iff valid]

/-! ## A best selection -/

theorem Outdoes.trans (hRS : p.Outdoes R S) (hST : p.Outdoes S T) : p.Outdoes R T := by
  obtain ⟨hRS, j, hj, hlt⟩ := hRS
  refine ⟨fun i hi => le_trans (hST.1 i hi) (hRS i hi), j, hj, ?_⟩
  obtain ⟨hle, hnot⟩ := lt_iff_le_not_le.mp hlt
  have hfirst := hST.1 j hj
  exact lt_iff_le_not_le.mpr ⟨le_trans hfirst hle, fun hback => hnot (le_trans hback hfirst)⟩

theorem Outdoes.irrefl (S : Finset Nat) : ¬p.Outdoes S S := by
  rintro ⟨-, j, -, hlt⟩
  obtain ⟨hle, hnot⟩ := lt_iff_le_not_le.mp hlt
  exact hnot hle

/-- Selecting nothing costs nothing. -/
theorem keepsBudgets_empty (valid : p.WellFormed) : p.KeepsBudgets ∅ := by
  intro j hj
  have hzero (versions : Nat) (row : List Nat) : rowSum versions row [] = 0 := by
    rw [rowSum, List.map_nil]
    split_ifs
    · rw [blockedSum, if_pos (by decide)]
      rfl
    · rfl
  obtain ⟨u, hu, hle⟩ := (hasFloor_ofInt (k := 0) (Nat.dvd_zero _)
    (Nat.zero_le (p.budget.getD j 0))).atLeast
  rw [reportedCost_eq valid hj, reportedBudget_eq valid hj, Finset.sort_empty, hzero,
    le_of_extended? extended?_ofNat_zero hu]
  simpa using hle

/-- **There is a best selection.** -/
theorem exists_isBest (valid : p.WellFormed) : ∃ S, p.IsBest S := by
  classical
  have : IsStrictOrder (Finset Nat) p.Outdoes :=
    { irrefl := Outdoes.irrefl, trans := fun _ _ _ => Outdoes.trans }
  let kept := (Finset.range p.functionalities).powerset.filter p.KeepsBudgets
  have hempty : ∅ ∈ kept := by simp [kept, keepsBudgets_empty valid]
  obtain ⟨⟨S, hS⟩, -, hbest⟩ := (kept.wellFoundedOn (r := p.Outdoes)).has_min Set.univ
    ⟨⟨∅, hempty⟩, trivial⟩
  obtain ⟨hrange, hkeeps⟩ := Finset.mem_filter.mp hS
  refine ⟨S, Finset.mem_powerset.mp hrange, hkeeps, fun T hT hkeepsT => ?_⟩
  exact hbest ⟨T, Finset.mem_filter.mpr ⟨Finset.mem_powerset.mpr hT, hkeepsT⟩⟩ trivial

end Problem

end MigrationPlan
