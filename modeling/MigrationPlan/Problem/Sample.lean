import MigrationPlan.Problem.Basic

/-!
# Problem/Sample — a problem to start with

Two versions of a product, a demonstration and a paid one, and twelve candidate functionalities.
-/

namespace MigrationPlan

/-- The problem that is meant where no file is named. -/
def sampleProblem : Problem where
  versions := 2
  functionalities := 12
  value :=
    [[27, 7, 16, 1, 2, 3, 25, 5, 24, 2, 2, 16],
     [8, 23, 3, 16, 24, 29, 23, 27, 16, 17, 27, 17]]
  cost :=
    [[6, 8, 1, 12, 8, 7, 10, 11, 3, 10, 6, 5],
     [1, 5, 1, 3, 12, 9, 4, 12, 10, 12, 4, 9]]
  budget := [40, 65]

theorem wellFormed_sampleProblem : sampleProblem.WellFormed := by
  decide

end MigrationPlan
