import MigrationPlan.Proofs.Evaluation.Feasibility
import MigrationPlan.Proofs.Evaluation.Solution
import MigrationPlan.Proofs.Numeric.Order
import Mathlib.Data.List.TFAE

/-!
# Proofs/Evaluation/Verdicts — all verdicts on a plan are one verdict

Feasibility is decided in several places, each by its own computation: over the overruns of an
assessment and by the largest of them, over the constraints that a solution keeps, and version by
version in the records, which take the difference of cost and budget once more.

* `Assessment.isFeasible_iff_maxViolation_le` — the largest overrun tells what all of them do;
* `map_overrun_constraintRecords` — the records hold the overruns of the assessment;
* `Problem.describeConstraints_evaluateColumns` — and are those of a description by itself;
* **`verdicts_agree`** — so that an evaluated solution has one verdict.
-/

namespace MigrationPlan

open Binary64

/-! ## The largest overrun -/

theorem zero_le_zero : (0 : Binary64).le 0 :=
  le_self extended?_ofNat_zero

/-- What is not above zero is cut off there. -/
theorem max_zero_of_le {x : Binary64} (h : x.le 0) : x.max 0 = 0 := by
  obtain ⟨u, _, hx, -⟩ := exists_extended?_of_le h
  rw [max_of_extended? hx extended?_ofNat_zero, if_pos h]

/-- If all are cut off at zero, so is the largest. -/
theorem foldl_max_zero {xs : List Binary64} (h : ∀ x ∈ xs, x.le 0) :
    (xs.map (·.max 0)).foldl Binary64.max 0 = 0 := by
  induction xs with
  | nil => rfl
  | cons x xs ih =>
    obtain ⟨hx, hxs⟩ := List.forall_mem_cons.mp h
    rw [List.map_cons, List.foldl_cons, max_zero_of_le hx, max_zero_of_le zero_le_zero, ih hxs]

namespace Assessment

variable (a : Assessment)

/-- **A plan is feasible exactly if its violation is not positive**, whatever the overruns are. -/
theorem isFeasible_iff_maxViolation_le : a.isFeasible ↔ a.maxViolation.le 0 := by
  simp only [isFeasible, maxViolation, foldl_max_le_iff, List.forall_mem_map, max_le_iff,
    zero_le_zero, and_true, true_and, List.all_eq_true, isWithin]

/-- **A plan is feasible exactly if its violation is zero.** -/
theorem isFeasible_iff_maxViolation_eq : a.isFeasible ↔ a.maxViolation = 0 := by
  constructor
  · intro h
    exact foldl_max_zero (List.all_eq_true.mp h)
  · intro h
    rw [isFeasible_iff_maxViolation_le, h]
    exact zero_le_zero

end Assessment

/-- **A flat array of overruns has a largest one**, zero if there is none. -/
theorem ArrayAssessment.maxViolation?_of_flat {minimized overruns : Datum} {a : ArrayAssessment}
    {n : Nat} (h : create minimized overruns = .ok a) (flat : a.overrunSides = [n]) :
    a.maxViolation? = .ok a.maxViolation := by
  simp only [create, bind_eq_ok, Except.ok.injEq, Prod.exists] at h
  obtain ⟨_, f, -, _, g, hg, rfl⟩ := h
  obtain rfl : _ = [n] := flat
  have hlength : g.length = n := (Nested.length_of_read? hg).trans List.prod_singleton
  rw [maxViolation?]
  cases n with
  | zero =>
    obtain rfl := List.length_eq_zero_iff.mp hlength
    rfl
  | succ n =>
    have hne : g ≠ [] := List.ne_nil_of_length_eq_add_one hlength
    simp [hne]

/-! ## Records -/

section Records

variable {names : List String} {costs budgets : List Binary64}

/-- The record of a version is made from its name, its cost and its budget. -/
theorem getElem?_constraintRecords {j : Nat} {name : String} {cost budget : Binary64}
    (hname : names[j]? = some name) (hcost : costs[j]? = some cost)
    (hbudget : budgets[j]? = some budget) :
    (constraintRecords names costs budgets)[j]?
      = some ⟨name, cost, budget, overrun cost budget⟩ := by
  induction names generalizing costs budgets j with
  | nil => simp at hname
  | cons n names ih =>
    obtain _ | ⟨c, costs⟩ := costs
    · simp at hcost
    obtain _ | ⟨b, budgets⟩ := budgets
    · simp at hbudget
    cases j with
    | zero =>
      obtain rfl : n = name := by simpa using hname
      obtain rfl : c = cost := by simpa using hcost
      obtain rfl : b = budget := by simpa using hbudget
      rfl
    | succ j => exact ih hname hcost hbudget

/-- **The records hold the overruns of the assessment**, one for each. -/
theorem map_overrun_constraintRecords (h : costs.length ≤ names.length) :
    (constraintRecords names costs budgets).map (·.overrun)
      = List.zipWith overrun costs budgets := by
  induction costs generalizing names budgets with
  | nil => cases names <;> rfl
  | cons c costs ih =>
    obtain _ | ⟨n, names⟩ := names
    · simp at h
    obtain _ | ⟨b, budgets⟩ := budgets
    · rfl
    rw [constraintRecords, List.map_cons, List.zipWith_cons_cons, ih (Nat.le_of_succ_le_succ h)]

/-- The records are those of a description of the same costs and budgets as given. -/
theorem describe_eq_ok {givenCosts givenBudgets : List Datum}
    (hcosts : List.Forall₂ (fun d c => d.toReal? = .ok c) givenCosts costs)
    (hbudgets : List.Forall₂ (fun d b => d.toReal? = .ok b) givenBudgets budgets) :
    describe (names.map Datum.text) givenCosts givenBudgets (List.zipWith overrun costs budgets)
      = .ok ((names.map Datum.text).zip (constraintRecords names costs budgets)) := by
  induction names generalizing givenCosts givenBudgets costs budgets with
  | nil => rfl
  | cons n names ih =>
    cases hcosts with
    | nil => rfl
    | cons hc hcosts =>
      cases hbudgets with
      | nil => rfl
      | cons hb hbudgets =>
        simp only [List.map_cons, List.zipWith_cons_cons, describe, hc, hb, ok_bind,
          ih hcosts hbudgets]
        rfl

/-- A list of numbers as a flat array. -/
theorem node_map_number (xs : List Number) :
    Nested.node (xs.map Datum.number) = Nested.ofList (xs.map Entry.number) := by
  rw [Nested.ofList, List.map_map]
  rfl

/-- A list of numbers has one form only, since no text is among them. -/
theorem mixedDoubles?_numbers {xs : List Number} {ys : List Binary64}
    (h : List.Forall₂ (fun x y => x.toReal? = .ok y) xs ys) :
    mixedDoubles? (.node (xs.map Datum.number)) = .ok ([xs.length], ys) := by
  have hread : (xs.map Entry.number).mapM Entry.toRealOrNan? = .ok ys := by
    rw [List.mapM_map, mapM_eq_ok]
    exact h
  rw [node_map_number, mixedDoubles?, Nested.entries_ofList, if_neg (by simp), Datum.doubles?,
    Nested.read?_ofList, hread, ok_map, List.length_map]

/-- **Numbers are described by the records of their doubles**, under as many names. -/
theorem describeConstraints_numbers {xs ys : List Number}
    (hcosts : List.Forall₂ (fun x c => x.toReal? = .ok c) xs costs)
    (hbudgets : List.Forall₂ (fun y b => y.toReal? = .ok b) ys budgets)
    (hlength : costs.length = budgets.length) (hnames : names.length = costs.length) :
    describeConstraints (.node (xs.map Datum.number)) (.node (ys.map Datum.number))
        (some (.node (names.map Datum.text)))
      = .ok ((names.map Datum.text).zip (constraintRecords names costs budgets)) := by
  have hxs := hcosts.length_eq
  have hys := hbudgets.length_eq
  have hread (zs : List Number) : (Nested.node (zs.map Datum.number)).read? Except.ok
      = (.ok ([zs.length], zs.map Entry.number) : Except Fault _) := by
    rw [node_map_number, Nested.read?_ofList, mapM_self_of_ok fun _ _ => rfl, ok_map,
      List.length_map]
  have hsides : [xs.length] = [ys.length] := by rw [hxs, hys, hlength]
  have hcount : ¬(names.map Datum.text).length ≠ xs.length := by
    rw [List.length_map, hnames, hxs, not_not]
  simp only [describeConstraints, hread, mixedDoubles?_numbers hcosts,
    mixedDoubles?_numbers hbudgets, ok_bind, overrunsOf, if_pos hsides, Datum.items?, if_neg hcount]
  refine describe_eq_ok ?_ ?_
  · exact List.forall₂_map_left_iff.mpr hcosts
  · exact List.forall₂_map_left_iff.mpr hbudgets

end Records

/-! ## Evaluations -/

namespace Problem

variable {p : Problem} {columns : List Nat} {j : Nat}

theorem length_constraintNames (versions : Nat) : (constraintNames versions).length = versions := by
  rw [constraintNames, List.length_map, List.length_range]

theorem length_rawCost (valid : p.WellFormed) :
    (p.evaluateColumns columns).rawCost.length = p.versions := by
  simp [evaluateColumns, totals, valid.cost.1]

theorem getElem?_budget (valid : p.WellFormed) (hj : j < p.versions) :
    (p.evaluateColumns columns).budget[j]? = some (ofInt (p.budget.getD j 0)) := by
  have hbudget := getElem?_eq_getD 0 (valid.budget.1.symm ▸ hj)
  simp only [evaluateColumns, budgets, List.getElem?_map, hbudget, Option.map_some]

/-- **The record of a version** names it, and compares its cost with its budget. -/
theorem getElem?_constraints (valid : p.WellFormed) (hj : j < p.versions) :
    (p.evaluateColumns columns).constraints[j]? = some
      ⟨constraintName j, rowSum p.versions (p.cost.getD j []) columns, ofInt (p.budget.getD j 0),
        overrun (rowSum p.versions (p.cost.getD j []) columns) (ofInt (p.budget.getD j 0))⟩ := by
  have hname : (constraintNames p.versions)[j]? = some (constraintName j) := by
    rw [constraintNames, List.getElem?_map, List.getElem?_range hj, Option.map_some]
  have hbudget : (p.evaluateColumns columns).budget[j]? = some (ofInt (p.budget.getD j 0)) :=
    getElem?_budget valid hj
  exact getElem?_constraintRecords hname (getElem?_rawCost valid hj) hbudget

/-- The records hold the overruns of the evaluation, in their order. -/
theorem map_overrun_constraints (valid : p.WellFormed) :
    (p.evaluateColumns columns).constraints.map (·.overrun)
      = (p.evaluateColumns columns).overruns :=
  map_overrun_constraintRecords ((length_rawCost valid).trans (length_constraintNames _).symm).le

/-- Entries have doubles. -/
theorem toReal?_whole {n : Nat} (h : n ≤ maxEntry) : (Number.whole n).toReal? = .ok (ofInt n) := by
  obtain ⟨q, hq⟩ := exists_extended?_ofInt h
  exact if_pos (extended?_eq_point.mp hq).1

/-- **Describing an evaluation's costs against the budgets gives its records.** -/
theorem describeConstraints_evaluateColumns (valid : p.WellFormed) :
    describeConstraints (.reals (p.evaluateColumns columns).rawCost)
        (.wholes (p.budget.map Int.ofNat))
        (some (.node ((constraintNames p.versions).map Datum.text)))
      = .ok (((constraintNames p.versions).map Datum.text).zip
        (p.evaluateColumns columns).constraints) := by
  have hcosts : List.Forall₂ (fun x c => x.toReal? = .ok c)
      ((p.evaluateColumns columns).rawCost.map Number.real)
      (p.evaluateColumns columns).rawCost := by
    rw [List.forall₂_map_left_iff, List.forall₂_same]
    exact fun _ _ => rfl
  have hbudgets : List.Forall₂ (fun x b => x.toReal? = .ok b)
      ((p.budget.map Int.ofNat).map Number.whole) p.budgets := by
    rw [budgets, List.map_map, List.forall₂_map_left_iff, List.forall₂_map_right_iff,
      List.forall₂_same]
    exact fun b hb => toReal?_whole (valid.budget.2 b hb)
  have hlength : (p.evaluateColumns columns).rawCost.length = p.versions := length_rawCost valid
  have hbudget : p.budgets.length = p.versions := by rw [budgets, List.length_map, valid.budget.1]
  have hdescribe := describeConstraints_numbers hcosts hbudgets (hlength.trans hbudget.symm)
    ((length_constraintNames _).trans hlength.symm)
  rw [List.map_map, List.map_map] at hdescribe
  exact hdescribe

/-- **The record of a version is feasible exactly if its cost is not above its budget**, both as
doubles. -/
theorem isWithin_overrun_rowSum_iff (valid : p.WellFormed) (hj : j < p.versions) :
    isWithin (overrun (rowSum p.versions (p.cost.getD j []) columns) (ofInt (p.budget.getD j 0)))
      ↔ (rowSum p.versions (p.cost.getD j []) columns).le (ofInt (p.budget.getD j 0)) := by
  obtain ⟨u, hu⟩ := exists_extended?_rowSum p.versions (p.cost.getD j []) columns
  obtain ⟨q, hq⟩ := valid.exists_extended?_budget hj
  exact isWithin_overrun_iff hu hq

end Problem

/-! ## Evaluated solutions -/

/-- **All verdicts on an evaluated solution agree.**  The record of each version has the cost, the
budget and the overrun of that version, and is feasible exactly if the cost is not above the budget.
The records are those of a description of the costs by itself.  And the solution is feasible exactly
if its evaluation is, if the largest overrun is zero, if it is not positive, and if all records are
feasible. -/
structure Evaluation.HasOneVerdict (r : Evaluation) (p : Problem) (s : Solution) : Prop where
  length_constraints : r.constraints.length = p.versions
  record {j : Nat} (hj : j < p.versions) : ∃ record, r.constraints[j]? = some record
    ∧ record.name = constraintName j ∧ r.rawCost[j]? = some record.rawCost
    ∧ r.budget[j]? = some record.budget ∧ r.overruns[j]? = some record.overrun
    ∧ (record.isFeasible ↔ record.rawCost.le record.budget)
  described : describeConstraints (.reals r.rawCost) (.wholes (p.budget.map Int.ofNat))
    (some (.node ((constraintNames p.versions).map Datum.text)))
      = .ok (((constraintNames p.versions).map Datum.text).zip r.constraints)
  verdicts : List.TFAE [s.isFeasible, r.isFeasible, r.maxViolation = 0, r.maxViolation.le 0,
    ∀ record ∈ r.constraints, record.isFeasible]

/-- A solution that is evaluated keeps the overruns as its constraints. -/
theorem Evaluator.state_of_answer {e : Evaluator} {s : Solution} {r : Evaluation}
    (h : (e.evaluateSolution s).answer = .ok r) :
    ∃ columns, e.problem.evaluateColumns columns = r
      ∧ (e.evaluateSolution s).state = ⟨s.decisions, r.minimized, r.overruns⟩ := by
  by_cases hone : ∃ v, s.decisions = [v]
  · obtain ⟨v, hv⟩ := hone
    rcases hr : e.evaluate v with fault | r'
    · rw [evaluateSolution_of_error hv hr] at h
      exact nomatch h
    obtain ⟨columns, -, hcolumns⟩ := map_eq_ok.mp hr
    have hstate := evaluateSolution_of_ok hv hr
    rw [hstate] at h
    split_ifs at h with hminimized hoverruns
    · obtain rfl := Except.ok.inj h
      rw [hstate, if_pos hminimized, if_pos hoverruns]
      exact ⟨columns, hcolumns, rfl⟩
  · rw [evaluateSolution_of_decisions (not_exists.mp hone)] at h
    exact nomatch h

/-- The verdicts on what a solution is worth. -/
theorem Problem.hasOneVerdict_evaluateColumns {p : Problem} (valid : p.WellFormed)
    (columns : List Nat) {s : Solution}
    (hs : s.constraints = (p.evaluateColumns columns).overruns) :
    (p.evaluateColumns columns).HasOneVerdict p s where
  length_constraints := by
    have hoverruns : (p.evaluateColumns columns).overruns.length = p.versions := by
      simp [evaluateColumns, totals, budgets, valid.cost.1, valid.budget.1]
    rw [← hoverruns, ← map_overrun_constraints valid, List.length_map]
  record hj := ⟨_, getElem?_constraints valid hj, rfl, getElem?_rawCost valid hj,
    getElem?_budget valid hj, getElem?_overruns valid hj, isWithin_overrun_rowSum_iff valid hj⟩
  described := describeConstraints_evaluateColumns valid
  verdicts := by
    have hsolution : s.isFeasible = (p.evaluateColumns columns).isFeasible := by
      rw [Solution.isFeasible, hs, Assessment.isFeasible]
    have hrecords : (p.evaluateColumns columns).isFeasible
        ↔ ∀ record ∈ (p.evaluateColumns columns).constraints, record.isFeasible := by
      rw [Assessment.isFeasible, ← map_overrun_constraints valid, List.all_map, List.all_eq_true]
      rfl
    tfae_have 1 ↔ 2 := by rw [hsolution]
    tfae_have 2 ↔ 3 := Assessment.isFeasible_iff_maxViolation_eq _
    tfae_have 2 ↔ 4 := Assessment.isFeasible_iff_maxViolation_le _
    tfae_have 2 ↔ 5 := hrecords
    tfae_finish

/-- **There is one verdict.**  An assessment whose overruns are a flat array, of any length and of
any doubles, is feasible exactly if its largest overrun is not positive.  And whatever solution is
evaluated successfully, by any evaluator of a problem, all verdicts on it agree. -/
theorem verdicts_agree :
    (∀ (minimized overruns : Datum) (a : ArrayAssessment) (n : Nat),
      ArrayAssessment.create minimized overruns = .ok a → a.overrunSides = [n] →
        ∃ violation, a.maxViolation? = .ok violation ∧ (a.isFeasible ↔ violation.le 0))
    ∧ ∀ (e : Evaluator) (s : Solution) (r : Evaluation), e.problem.WellFormed →
      (e.evaluateSolution s).answer = .ok r →
        r.HasOneVerdict e.problem (e.evaluateSolution s).state := by
  refine ⟨fun minimized overruns a n h flat => ?_, fun e s r valid h => ?_⟩
  · exact ⟨_, ArrayAssessment.maxViolation?_of_flat h flat, a.isFeasible_iff_maxViolation_le⟩
  · obtain ⟨columns, rfl, hstate⟩ := Evaluator.state_of_answer h
    exact Problem.hasOneVerdict_evaluateColumns valid columns (by rw [hstate])

/-- An infinite and an undefined overrun, and a selection that costs one more than its budget. -/
theorem verdicts_agree_sampleProblem :
    (∃ a violation, ArrayAssessment.create (.reals [1, 2]) (.reals [infinity true, nan]) = .ok a
      ∧ a.overrunSides = [2] ∧ a.maxViolation? = .ok violation
      ∧ (a.isFeasible ↔ violation.le 0))
    ∧ sampleProblem.WellFormed
      ∧ ∃ r s, (Evaluator.new sampleProblem (some .subset)).evaluateSolution
          ⟨[.subset ⟨.whole 12, .whole 0, .whole 12, [1, 3, 7, 9]⟩], [0, 0], [0, 0]⟩ = ⟨s, .ok r⟩
        ∧ r.HasOneVerdict sampleProblem s := by
  obtain ⟨violation, hviolation, hverdict⟩ :=
    verdicts_agree.1 (.reals [1, 2]) (.reals [infinity true, nan])
      ⟨⟨[1, 2], [infinity true, nan]⟩, [2], [2]⟩ 2 rfl rfl
  refine ⟨⟨_, violation, rfl, rfl, hviolation, hverdict⟩, wellFormed_sampleProblem, _, _, rfl, ?_⟩
  exact verdicts_agree.2 (.new sampleProblem (some .subset))
    ⟨[.subset ⟨.whole 12, .whole 0, .whole 12, [1, 3, 7, 9]⟩], [0, 0], [0, 0]⟩ _
    wellFormed_sampleProblem rfl

end MigrationPlan
