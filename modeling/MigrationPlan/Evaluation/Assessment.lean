import MigrationPlan.Evaluation.Constraint

/-!
# Evaluation/Assessment — objectives, overruns and the verdict

The search minimises, so an assessment holds the business values negated.  A plan is feasible if no
overrun is positive, and its violation is the largest overrun.
-/

namespace MigrationPlan

/-- The values to minimise and the overruns, one of each per version. -/
structure Assessment where
  minimized : List Binary64
  overruns : List Binary64
deriving DecidableEq

namespace Assessment

/-- The business values in their natural sense. -/
def objectives (a : Assessment) : List Binary64 :=
  a.minimized.map Binary64.neg

/-- No overrun is positive, and none is `nan`. -/
def isFeasible (a : Assessment) : Bool :=
  a.overruns.all isWithin

/-- The largest overrun, zero if none is positive, and `nan` if one is. -/
def maxViolation (a : Assessment) : Binary64 :=
  (a.overruns.map (·.max 0)).foldl Binary64.max 0

end Assessment

/-! ## Arrays of any shape -/

/-- An assessment made from arrays that need not be flat. -/
structure ArrayAssessment extends Assessment where
  minimizedSides : Shape
  overrunSides : Shape
deriving DecidableEq

namespace ArrayAssessment

/-- An assessment of the entries of two arrays. -/
def create (minimized overruns : Datum) : Except Fault ArrayAssessment := do
  let (minimizedSides, f) ← minimized.doubles?
  let (overrunSides, g) ← overruns.doubles?
  .ok ⟨⟨f, g⟩, minimizedSides, overrunSides⟩

/-- The largest overrun.  An array without sides cannot be counted, and one without entries has no
largest, except for the flat one. -/
def maxViolation? (a : ArrayAssessment) : Except Fault Binary64 :=
  match a.overrunSides with
  | [] => .error .notANumber
  | 0 :: _ => .ok 0
  | _ => if a.overruns.isEmpty then .error .emptyMaximum else .ok a.maxViolation

end ArrayAssessment

end MigrationPlan
