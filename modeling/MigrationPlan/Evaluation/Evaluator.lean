import MigrationPlan.Evaluation.Encoding
import MigrationPlan.Evaluation.Solution
import MigrationPlan.Evaluation.Sum
import MigrationPlan.Problem.Basic

/-!
# Evaluation/Evaluator — what a selection of functionalities is worth

A selection is worth, in each version, the sum of the values and of the costs of its
functionalities, in doubles.  Two encodings of a selection share this: a bit per functionality, or
the subset of the selected ones.  Both come down to the ascending list of selected columns
(`Evaluator.selection`), and `Evaluator.evaluate` is one function of that list.
-/

namespace MigrationPlan

/-! ## Sums over a selection -/

/-- Columns of the matrices, by a mark for each or by an array of positions; negative positions
count from the end. -/
inductive Selection where
  | mask (marks : List Bool)
  | columns (array : Datum)

/-- The column at a position among `n`. -/
def columnAt (n : Nat) (p : Int) : Except Fault Nat :=
  if 0 ≤ p && p < n then .ok p.toNat
  else if p < 0 && -n ≤ p then .ok (p + n).toNat
  else .error .positionOutside

/-- The selected columns among `n`, in the order in which they are named, and the shape of their
array.  A mask without marks selects nothing. -/
def Selection.resolve (n : Nat) : Selection → Except Fault (Shape × List Nat)
  | mask marks =>
    if marks.length = n || marks.isEmpty then .ok ([(positions marks).length], positions marks)
    else .error .positionOutside
  | columns array => do
    let (sides, ps) ← array.words?
    let columns ← ps.mapM (columnAt n)
    .ok (sides, columns)

namespace Problem

/-- A row's sum over columns, in doubles.  A single version is summed in blocks, several from left
to right. -/
def rowSum (versions : Nat) (row columns : List Nat) : Binary64 :=
  let terms := columns.map fun c => Binary64.ofInt (row.getD c 0)
  if versions = 1 then blockedSum terms else runningSum terms

/-- The value and the cost of a list of columns, per version. -/
def totals (p : Problem) (columns : List Nat) : List Binary64 × List Binary64 :=
  (p.value.map (rowSum p.versions · columns), p.cost.map (rowSum p.versions · columns))

/-- A row's sums over the first side of an array of columns, one sum for each place in the sides
behind it. -/
def rowSums (versions : Nat) (sides : Shape) (columns row : List Nat) : List Binary64 :=
  let size := (sides.drop 1).foldl (· * ·) 1
  if size = 1 then [rowSum versions row columns]
  else (List.range size).map fun i =>
    runningSum ((List.range (sides.headD 0)).map fun k =>
      Binary64.ofInt (row.getD (columns.getD (k * size + i) 0) 0))

/-- The value and the cost of a selection: their shape, and the entries per version. -/
def aggregate (p : Problem) (s : Selection) :
    Except Fault (Shape × List Binary64 × List Binary64) := do
  let (sides, columns) ← s.resolve p.functionalities
  if sides.isEmpty then .error .noSuchSide
  let sums := rowSums p.versions sides columns
  .ok (p.versions :: sides.drop 1, p.value.flatMap sums, p.cost.flatMap sums)

/-- The budgets as doubles. -/
def budgets (p : Problem) : List Binary64 :=
  p.budget.map fun (b : Nat) => Binary64.ofInt b

end Problem

/-! ## Evaluations -/

/-- An assessment with what it was made from. -/
structure Evaluation extends Assessment where
  selected : List Nat
  businessValue : List Binary64
  rawCost : List Binary64
  budget : List Binary64
  constraints : List ConstraintRecord
deriving DecidableEq

/-- **The evaluation of a list of columns.** -/
def Problem.evaluateColumns (p : Problem) (columns : List Nat) : Evaluation :=
  let (value, rawCost) := p.totals columns
  { minimized := value.map Binary64.neg
    overruns := List.zipWith overrun rawCost p.budgets
    selected := columns
    businessValue := value
    rawCost
    budget := p.budgets
    constraints := constraintRecords (constraintNames p.versions) rawCost p.budgets }

/-! ## Evaluators -/

/-- A problem with an encoding.  Without one, it still knows its sizes and names. -/
structure Evaluator where
  source : AnnouncedProblem
  encoding : Option Encoding
deriving DecidableEq

namespace Evaluator

/-- The evaluator of a problem under an encoding. -/
def new (p : Problem) (encoding : Option Encoding) : Evaluator :=
  ⟨p.announced, encoding⟩

/-- The evaluator of a problem as announced; versions are counted, so that their number has to be a
whole one. -/
def create (source : AnnouncedProblem) (encoding : Option Encoding) : Except Fault Evaluator :=
  (Datum.number source.versions).count?.map fun _ => ⟨source, encoding⟩

/-- The encoding of a name as given. -/
def encodingOf (name : Datum) : Except Fault Encoding :=
  match name with
  | .text s => (Encoding.ofName? s).elim (.error (.unknownEncoding name.quoted)) .ok
  | .leaf _ => .error (.unknownEncoding name.quoted)
  | .node _ => .error .notANumber

/-- The evaluator of an encoding by its name. -/
def ofName (source : AnnouncedProblem) (encoding : Datum) : Except Fault Evaluator := do
  create source (some (← encodingOf encoding))

def problem (e : Evaluator) : Problem :=
  e.source.problem

/-- The name of an evaluator in reports. -/
def name (e : Evaluator) : String :=
  if e.encoding = some .subset then "MigrationSubset" else "Migration"

/-- One decision variable holds the selection. -/
def variableCount (_ : Evaluator) : Nat := 1

/-- There is one objective per version. -/
def objectiveCount (e : Evaluator) : Number :=
  e.source.versions

/-- There is one constraint per version. -/
def constraintCount (e : Evaluator) : Number :=
  e.source.versions

/-- The names of the constraints, in the order of the versions. -/
def constraintNames (e : Evaluator) : List String :=
  MigrationPlan.constraintNames e.problem.versions

/-- A variable that selects nothing. -/
def newVariable [Memory] (e : Evaluator) : Except Fault Variable :=
  let n : Datum := .number e.source.functionalities
  match e.encoding with
  | none => .error .noEncoding
  | some .binary => (BinaryVariable.new n).map .binary
  | some .subset => (SubsetVariable.new n (.whole 0) n).map .subset

/-- Whether a subset is over all functionalities, with a capacity of no more than these. -/
def admits (e : Evaluator) (w : SubsetVariable) : Bool :=
  let n := e.source.functionalities
  let zero : Number := .whole 0
  w.lower.le zero && zero.le w.lower && w.upper.le n && n.le w.upper && !n.lt w.capacity

/-- The columns a variable selects, ascending, if the variable is of the encoding's kind and made
for the problem's functionalities. -/
def selection (e : Evaluator) (v : Variable) : Except Fault (List Nat) :=
  let n := e.problem.functionalities
  match e.encoding, v with
  | none, _ => .error .noEncoding
  | some .binary, .binary w =>
    if w.length = n then .ok (positions w.bits) else .error (.bitsForFunctionalities n w.length)
  | some .binary, v => .error (.encodingKind e.name .binary v.kind)
  | some .subset, .subset w =>
    if e.admits w then (Variable.subset w).asSubset.map fun ms => ms.map Int.toNat
    else .error (.subsetForFunctionalities e.source.functionalities w.lower w.upper w.capacity)
  | some .subset, v => .error (.encodingKind e.name .subset v.kind)

/-- **Evaluates a decision variable.** -/
def evaluate (e : Evaluator) (v : Variable) : Except Fault Evaluation :=
  (e.selection v).map e.problem.evaluateColumns

/-- Evaluates several decision variables, in order. -/
def evaluateBatch (e : Evaluator) (vs : List Variable) : Except Fault (List Evaluation) :=
  vs.mapM e.evaluate

/-- A solution that selects nothing. -/
def newSolution [Memory] (e : Evaluator) : Except Fault Solution := do
  let v ← e.newVariable
  Solution.new [v] (.number e.objectiveCount) (.number e.constraintCount)

/-- Evaluates a solution and replaces its objectives and then its constraints.  Objectives stay
replaced if the constraints are then refused. -/
def evaluateSolution (e : Evaluator) (s : Solution) : Outcome Solution Evaluation :=
  match s.decisions with
  | [v] =>
    match e.evaluate v with
    | .error fault => ⟨s, .error fault⟩
    | .ok result =>
      match s.setObjectives (.reals result.minimized) with
      | .error fault => ⟨s, .error fault⟩
      | .ok s =>
        match s.setConstraints (.reals result.overruns) with
        | .error fault => ⟨s, .error fault⟩
        | .ok s => ⟨s, .ok result⟩
  | vs => ⟨s, .error (.decisionVariables e.variableCount vs.length)⟩

end Evaluator

end MigrationPlan
