import MigrationPlan.Evaluation.Assessment
import MigrationPlan.Variable.Batch

/-!
# Evaluation/Solution — decision variables with their last assessment

A solution owns decision variables and keeps as many objectives and constraints as it was made with.
-/

namespace MigrationPlan

/-- Decision variables with their last assessment, zeros at first. -/
structure Solution where
  decisions : List Variable
  objectives : List Binary64
  constraints : List Binary64
deriving DecidableEq

namespace Solution

/-- A number of zeros. -/
def zeros [Memory] (n : Datum) : Except Fault (List Binary64) :=
  (newSide? 8 n).map fun count => List.replicate count 0

/-- All objectives and constraints start at zero. -/
def new [Memory] (decisions : List Variable) (objectives constraints : Datum) :
    Except Fault Solution := do
  let f ← zeros objectives
  let g ← zeros constraints
  .ok ⟨decisions, f, g⟩

/-- Replaces all objectives by as many others. -/
def setObjectives (s : Solution) (array : Datum) : Except Fault Solution := do
  let (sides, values) ← array.doubles?
  if sides = [s.objectives.length] then .ok { s with objectives := values }
  else .error (.objectivesExpected s.objectives.length sides)

/-- Replaces all constraints by as many others. -/
def setConstraints (s : Solution) (array : Datum) : Except Fault Solution := do
  let (sides, values) ← array.doubles?
  if sides = [s.constraints.length] then .ok { s with constraints := values }
  else .error (.constraintsExpected s.constraints.length sides)

/-- No constraint is positive, and none is `nan`. -/
def isFeasible (s : Solution) : Bool :=
  s.constraints.all isWithin

/-- The first variable. -/
def first? (s : Solution) : Except Fault Variable :=
  match s.decisions with
  | v :: _ => .ok v
  | [] => .error .positionOutside

/-- Changes the first variable. -/
def modifyFirst (s : Solution) (change : Variable → Except Fault Variable) :
    Except Fault Solution := do
  let v ← s.first?
  let w ← change v
  .ok { s with decisions := w :: s.decisions.drop 1 }

/-- Selects functionalities by their positions in the first variable: as members of a subset, or
else as bits. -/
def select (s : Solution) (indices : Datum) : Except Fault Solution :=
  s.modifyFirst fun
    | v@(.subset _) => v.setSubset indices
    | v => v.setBitset indices

end Solution

end MigrationPlan
