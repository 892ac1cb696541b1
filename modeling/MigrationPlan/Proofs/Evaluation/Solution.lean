import MigrationPlan.Evaluation.Evaluator
import MigrationPlan.Proofs.Datum.Reading

/-!
# Proofs/Evaluation/Solution — what evaluating a solution leaves behind

An evaluation writes the objectives of a solution and then its constraints, and either write is
refused if the lengths differ.  A refusal of the first changes nothing; a refusal of the second
comes when the objectives are already replaced.  So an evaluation is all or nothing
(`Evaluator.AllOrNothing`) except in this one case: **`Evaluator.allOrNothing_iff`**.
-/

namespace MigrationPlan

/-! ## The two writes -/

namespace Solution

variable (s : Solution) (xs : List Binary64)

/-- There are zeros for a count if there is room for them. -/
theorem zeros_eq_ok [Memory] {n : Nat} {zeros : List Binary64} :
    Solution.zeros (.whole n) = .ok zeros ↔
      Fits 8 n ∧ List.replicate n 0 = zeros := by
  simp only [Solution.zeros, map_eq_ok, newSide?_natCast_eq_ok (show 1 ≤ 8 by decide)]
  constructor
  · rintro ⟨_, ⟨fits, rfl⟩, rfl⟩
    exact ⟨fits, rfl⟩
  · rintro ⟨fits, rfl⟩
    exact ⟨_, ⟨fits, rfl⟩, rfl⟩

theorem setObjectives_reals :
    s.setObjectives (.reals xs) = if xs.length = s.objectives.length then
      .ok { s with objectives := xs }
    else .error (.objectivesExpected s.objectives.length [xs.length]) := by
  simp only [setObjectives, Datum.doubles?_reals, ok_bind, List.cons.injEq, and_true]

theorem setConstraints_reals :
    s.setConstraints (.reals xs) = if xs.length = s.constraints.length then
      .ok { s with constraints := xs }
    else .error (.constraintsExpected s.constraints.length [xs.length]) := by
  simp only [setConstraints, Datum.doubles?_reals, ok_bind, List.cons.injEq, and_true]

end Solution

/-! ## Outcomes -/

namespace Evaluator

variable {e : Evaluator} {s : Solution} {v : Variable} {r : Evaluation}

/-- A solution has to have one variable. -/
theorem evaluateSolution_of_decisions (h : ∀ v, s.decisions ≠ [v]) :
    e.evaluateSolution s
      = ⟨s, .error (.decisionVariables e.variableCount s.decisions.length)⟩ := by
  rw [evaluateSolution]
  split
  · next v hv => exact absurd hv (h v)
  · rfl

/-- It has to be one that the evaluator takes. -/
theorem evaluateSolution_of_error {fault : Fault} (hv : s.decisions = [v])
    (h : e.evaluate v = .error fault) : e.evaluateSolution s = ⟨s, .error fault⟩ := by
  simp only [evaluateSolution, hv, h]

/-- **What becomes of a solution whose variable is evaluated**: both arrays have to be as long as
those that replace them, and the objectives are replaced before the constraints are looked at. -/
theorem evaluateSolution_of_ok (hv : s.decisions = [v]) (hr : e.evaluate v = .ok r) :
    e.evaluateSolution s =
      if r.minimized.length = s.objectives.length then
        if r.overruns.length = s.constraints.length then
          ⟨⟨s.decisions, r.minimized, r.overruns⟩, .ok r⟩
        else ⟨{ s with objectives := r.minimized },
          .error (.constraintsExpected s.constraints.length [r.overruns.length])⟩
      else ⟨s, .error (.objectivesExpected s.objectives.length [r.minimized.length])⟩ := by
  simp only [evaluateSolution, hv, hr, Solution.setObjectives_reals]
  by_cases hobjectives : r.minimized.length = s.objectives.length
  · simp only [if_pos hobjectives, Solution.setConstraints_reals]
    split_ifs <;> rfl
  · simp only [if_neg hobjectives]

/-! ## All or nothing -/

/-- **An evaluation that is all or nothing.**  Either it succeeds, its result replaces both arrays,
and whatever stood in them makes no difference; or it is refused and changes nothing. -/
def AllOrNothing (e : Evaluator) (s : Solution) : Prop :=
  (∃ r, ∀ f g : List Binary64, f.length = s.objectives.length → g.length = s.constraints.length →
      e.evaluateSolution ⟨s.decisions, f, g⟩ = ⟨⟨s.decisions, r.minimized, r.overruns⟩, .ok r⟩)
    ∨ ∃ fault, e.evaluateSolution s = ⟨s, .error fault⟩

/-- A success that both lengths allow is one whatever the arrays hold. -/
theorem allOrNothing_of_lengths (hv : s.decisions = [v]) (hr : e.evaluate v = .ok r)
    (hobjectives : r.minimized.length = s.objectives.length)
    (hconstraints : r.overruns.length = s.constraints.length) : e.AllOrNothing s := by
  refine .inl ⟨r, fun f g hf hg => ?_⟩
  have hsolution : (⟨s.decisions, f, g⟩ : Solution).decisions = [v] := hv
  rw [evaluateSolution_of_ok hsolution hr, if_pos (hobjectives.trans hf.symm),
    if_pos (hconstraints.trans hg.symm)]

/-- **The one way to fail half-way**: a solution with as many objectives as there are values, but
with another number of constraints, loses its objectives unless they are what replaces them. -/
theorem allOrNothing_iff (e : Evaluator) (s : Solution) :
    e.AllOrNothing s ↔ ∀ v r, s.decisions = [v] → e.evaluate v = .ok r →
      r.minimized.length = s.objectives.length →
      r.overruns.length = s.constraints.length ∨ r.minimized = s.objectives := by
  constructor
  · intro h v r hv hr hobjectives
    by_contra hboth
    obtain ⟨hconstraints, hne⟩ := not_or.mp hboth
    have hhalf := evaluateSolution_of_ok hv hr
    rw [if_pos hobjectives, if_neg hconstraints] at hhalf
    rcases h with ⟨r', hsuccess⟩ | ⟨fault, hrefusal⟩
    · have hanswer := congrArg (·.answer) ((hsuccess _ _ rfl rfl).symm.trans hhalf)
      exact nomatch hanswer
    · exact hne (congrArg (·.state.objectives) (hhalf.symm.trans hrefusal))
  · intro h
    by_cases hone : ∃ v, s.decisions = [v]
    · obtain ⟨v, hv⟩ := hone
      rcases hr : e.evaluate v with fault | r
      · exact .inr ⟨fault, evaluateSolution_of_error hv hr⟩
      by_cases hobjectives : r.minimized.length = s.objectives.length
      · by_cases hconstraints : r.overruns.length = s.constraints.length
        · exact allOrNothing_of_lengths hv hr hobjectives hconstraints
        · -- the objectives are replaced by themselves
          have hsame := (h v r hv hr hobjectives).resolve_left hconstraints
          have hkept := evaluateSolution_of_ok hv hr
          rw [if_pos hobjectives, if_neg hconstraints, hsame] at hkept
          exact .inr ⟨_, hkept⟩
      · exact .inr ⟨_, (evaluateSolution_of_ok hv hr).trans (if_neg hobjectives)⟩
    · exact .inr ⟨_, evaluateSolution_of_decisions (not_exists.mp hone)⟩

/-- The evaluator of one functionality in one version. -/
def loneEvaluator : Evaluator :=
  .new ⟨1, 1, [[3]], [[1]], [1]⟩ (some .binary)

/-- A solution for it with an objective but no constraint. -/
def unconstrainedSolution : Solution :=
  ⟨[.binary ⟨[true]⟩], [0], []⟩

/-- It is refused, and its objective is replaced. -/
theorem not_allOrNothing_unconstrainedSolution :
    (loneEvaluator.evaluateSolution unconstrainedSolution).answer
        = .error (.constraintsExpected 0 [1])
      ∧ ¬loneEvaluator.AllOrNothing unconstrainedSolution := by
  have hrefused : (loneEvaluator.evaluateSolution unconstrainedSolution).answer
      = .error (.constraintsExpected 0 [1]) := rfl
  have hreplaced : (loneEvaluator.evaluateSolution unconstrainedSolution).state.objectives
      = [Binary64.neg 3] := by decide +kernel
  refine ⟨hrefused, ?_⟩
  rintro (⟨r, hsuccess⟩ | ⟨fault, hrefusal⟩)
  · have hanswer := hrefused.symm.trans (congrArg (·.answer) (hsuccess [0] [] rfl rfl))
    exact nomatch hanswer
  · have hkept : [Binary64.neg 3] = [0] :=
      hreplaced.symm.trans (congrArg (·.state.objectives) hrefusal)
    exact absurd hkept (by decide +kernel)

end Evaluator

end MigrationPlan
