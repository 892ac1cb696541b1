import MigrationPlan.Proofs.Evaluation.Verdicts

/-!
# Proofs/Evaluation/Locality — what an evaluation does not depend on

Two problems of the same size can differ in other versions and in functionalities that are not
selected.  A variable selects the same columns in both, or is refused by both with the same fault
(`Evaluator.selection_congr`), and the sum of a row looks only at these columns (`rowSum_congr`).
So **`evaluate_local`**: what the two evaluations say about a version is the same if the problems
agree on what is selected in that version.
-/

namespace MigrationPlan

/-- **Two problems agree on a selection in a version**: on its values, on its costs and on the
budget. -/
structure Problem.AgreeAt (p q : Problem) (selected : Nat → Prop) (j : Nat) : Prop where
  value {f : Nat} : selected f → (p.value.getD j []).getD f 0 = (q.value.getD j []).getD f 0
  cost {f : Nat} : selected f → (p.cost.getD j []).getD f 0 = (q.cost.getD j []).getD f 0
  budget : p.budget.getD j 0 = q.budget.getD j 0

/-- **Two evaluations say the same about a version**, which both have. -/
structure Evaluation.SameAt (r t : Evaluation) (j : Nat) : Prop where
  minimized : ∃ x, r.minimized[j]? = some x ∧ t.minimized[j]? = some x
  overruns : ∃ x, r.overruns[j]? = some x ∧ t.overruns[j]? = some x
  rawCost : ∃ x, r.rawCost[j]? = some x ∧ t.rawCost[j]? = some x
  constraints : ∃ record, r.constraints[j]? = some record ∧ t.constraints[j]? = some record

namespace Problem

variable {p q : Problem} {columns : List Nat} {j : Nat}

/-- The sum of a row depends on the selected columns only. -/
theorem rowSum_congr (versions : Nat) {row row' : List Nat}
    (h : ∀ c ∈ columns, row.getD c 0 = row'.getD c 0) :
    rowSum versions row columns = rowSum versions row' columns := by
  have hterms : (columns.map fun c => Binary64.ofInt (row.getD c 0))
      = columns.map fun c => Binary64.ofInt (row'.getD c 0) :=
    List.map_congr_left fun c hc => by rw [h c hc]
  rw [rowSum, rowSum, hterms]

/-- **What is evaluated of a version depends on the selected columns of its rows and on its
budget.** -/
theorem sameAt_evaluateColumns (hp : p.WellFormed) (hq : q.WellFormed)
    (versions : p.versions = q.versions) (hj : j < p.versions)
    (agree : p.AgreeAt q (· ∈ columns) j) :
    (p.evaluateColumns columns).SameAt (q.evaluateColumns columns) j := by
  have hj' : j < q.versions := versions ▸ hj
  have hvalue : rowSum p.versions (p.value.getD j []) columns
      = rowSum q.versions (q.value.getD j []) columns := by
    rw [versions, rowSum_congr q.versions fun c hc => agree.value hc]
  have hcost : rowSum p.versions (p.cost.getD j []) columns
      = rowSum q.versions (q.cost.getD j []) columns := by
    rw [versions, rowSum_congr q.versions fun c hc => agree.cost hc]
  refine ⟨⟨_, getElem?_minimized hp hj, ?_⟩, ⟨_, getElem?_overruns hp hj, ?_⟩,
    ⟨_, getElem?_rawCost hp hj, ?_⟩, ⟨_, getElem?_constraints hp hj, ?_⟩⟩
  · rw [getElem?_minimized hq hj', hvalue]
  · rw [getElem?_overruns hq hj', hcost, agree.budget]
  · rw [getElem?_rawCost hq hj', hcost]
  · rw [getElem?_constraints hq hj', hcost, agree.budget]

end Problem

/-- **A variable selects the same columns in all problems of one size**, or is refused by all for
the same reason. -/
theorem Evaluator.selection_congr {p q : Problem} (encoding : Option Encoding)
    (functionalities : p.functionalities = q.functionalities) (v : Variable) :
    (Evaluator.new p encoding).selection v = (Evaluator.new q encoding).selection v := by
  obtain ⟨n, m, value, cost, budget⟩ := p
  obtain rfl : m = q.functionalities := functionalities
  rfl

/-- **Versions and unselected functionalities do not interfere.**  Let two well-formed problems have
the same size.  Under whatever encoding a variable is evaluated, it is refused in both with the same
fault, or it is evaluated in both, with the same columns; and the two evaluations say the same about
each version in which the problems agree on these columns, whatever else they hold.  A variable that
holds a selection is evaluated, and so the evaluations of a selection, under the same encoding or
not, say the same about each version in which the problems agree on it. -/
theorem evaluate_local {p q : Problem} (hp : p.WellFormed) (hq : q.WellFormed)
    (versions : p.versions = q.versions) (functionalities : p.functionalities = q.functionalities) :
    (∀ (encoding : Option Encoding) (v : Variable),
      (∃ fault, (Evaluator.new p encoding).evaluate v = .error fault
        ∧ (Evaluator.new q encoding).evaluate v = .error fault)
      ∨ ∃ r t, (Evaluator.new p encoding).evaluate v = .ok r
        ∧ (Evaluator.new q encoding).evaluate v = .ok t ∧ r.selected = t.selected
        ∧ ∀ j < p.versions, p.AgreeAt q (· ∈ r.selected) j → r.SameAt t j)
    ∧ ∀ (S : Finset Nat) (encoding encoding' : Encoding) (v w : Variable),
      Entry.IsWord p.functionalities → encoding.Holds p.functionalities S v →
        encoding'.Holds q.functionalities S w →
        ∃ r t, (Evaluator.new p (some encoding)).evaluate v = .ok r
          ∧ (Evaluator.new q (some encoding')).evaluate w = .ok t
          ∧ ∀ j < p.versions, p.AgreeAt q (· ∈ S) j → r.SameAt t j := by
  constructor
  · intro encoding v
    simp only [Evaluator.evaluate, Evaluator.selection_congr encoding functionalities v]
    rcases (Evaluator.new q encoding).selection v with fault | columns
    · exact .inl ⟨fault, rfl, rfl⟩
    · exact .inr ⟨_, _, rfl, rfl, rfl, fun j hj agree =>
        Problem.sameAt_evaluateColumns hp hq versions hj agree⟩
  · intro S encoding encoding' v w sized holds holds'
    refine ⟨_, _, holds.evaluate sized, holds'.evaluate (functionalities ▸ sized), ?_⟩
    intro j hj agree
    refine Problem.sameAt_evaluateColumns hp hq versions hj ?_
    simpa only [Finset.mem_sort] using agree

/-- The first version of the sample problem with four of its functionalities, and nothing else of
it. -/
def disturbedProblem : Problem where
  versions := 2
  functionalities := 12
  value := [[0, 7, 0, 1, 0, 0, 0, 5, 0, 2, 0, 0], [1, 2, 3, 4, 5, 6, 7, 8, 9, 10, 11, 12]]
  cost := [[9, 8, 9, 12, 9, 9, 9, 11, 9, 10, 9, 9], [12, 11, 10, 9, 8, 7, 6, 5, 4, 3, 2, 1]]
  budget := [40, 0]

theorem wellFormed_disturbedProblem : disturbedProblem.WellFormed := by
  decide

/-- Of the first version, the subset says in the one problem what the bits say in the other. -/
theorem evaluate_local_disturbedProblem :
    ∃ r t, (Evaluator.new sampleProblem (some .subset)).evaluate
        (.subset ⟨.whole 12, .whole 0, .whole 12, [1, 3, 7, 9]⟩) = .ok r
      ∧ (Evaluator.new disturbedProblem (some .binary)).evaluate
        (.binary ⟨[false, true, false, true, false, false, false, true, false, true, false, false]⟩)
          = .ok t
      ∧ r.SameAt t 0 := by
  have holds : Encoding.binary.Holds disturbedProblem.functionalities {1, 3, 7, 9} (.binary
      ⟨[false, true, false, true, false, false, false, true, false, true, false, false]⟩) :=
    Encoding.holds_toFinset_positions rfl
  obtain ⟨r, t, hr, ht, hsame⟩ :=
    (evaluate_local wellFormed_sampleProblem wellFormed_disturbedProblem rfl rfl).2 {1, 3, 7, 9}
      .subset .binary _ _ (by decide) Encoding.holds_sampleProblem holds
  refine ⟨r, t, hr, ht, hsame 0 (by decide) ⟨?_, ?_, rfl⟩⟩
  · decide
  · decide

end MigrationPlan
