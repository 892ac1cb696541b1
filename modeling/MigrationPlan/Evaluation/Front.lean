import MigrationPlan.Evaluation.Population
import MigrationPlan.Settings.Basic

/-!
# Evaluation/Front — searches and the solutions that they find

A search is handed a population, whose rows it may have evaluated, and the numbers that it goes by.
It returns rows and their values to minimise.  `Population.solutions` makes of each row the
selection that it stands for and returns the values to their natural sense.

One evaluation dominates another if it is at least as good in every version and better in one.
`exhaustive` is a search: it looks at every row and returns those of the feasible selections that no
feasible selection dominates.
-/

namespace MigrationPlan

/-! ## Searches -/

/-- An array with one side, which is a row by itself, or with two. -/
inductive RowArray (α : Type) where
  | row (entries : List α)
  | table (rows : List (List α))

/-- The rows of an array. -/
def RowArray.rows {α : Type} : RowArray α → List (List α)
  | row entries => [entries]
  | table rows => rows

/-- What a search has found: rows of marks, and their values to minimise. -/
structure Findings where
  marks : RowArray Bool
  minimized : RowArray Binary64

/-- Searches the rows of a population.  There may be nothing to be found. -/
abbrev Search := Population → SearchSettings → Except Fault (Option Findings)

/-- A selection that was found: its functionalities, its decision variable and its business
values. -/
structure FoundSelection where
  selected : List Nat
  decision : Variable
  businessValue : List Binary64
deriving DecidableEq

namespace Population

/-- What a row is that was found.  The values were negated for the search. -/
def foundSelection [Memory] (p : Population) (row : List Bool) (minimized : List Binary64) :
    Except Fault FoundSelection := do
  let v ← p.toVariable (.flags row)
  let selected ← p.evaluator.selection v
  .ok ⟨selected, v, minimized.map Binary64.neg⟩

/-- **What the rows are that were found**, row by row. -/
def solutions [Memory] (p : Population) (found : Option Findings) :
    Except Fault (List FoundSelection) :=
  match found with
  | none => .ok []
  | some found =>
    (found.marks.rows.zip found.minimized.rows).mapM fun (row, minimized) =>
      p.foundSelection row minimized

end Population

/-! ## Domination -/

/-- **At least as good in every version and better in one**: values to minimise, none larger and one
smaller. -/
def dominates (xs ys : List Binary64) : Bool :=
  (List.zipWith Binary64.le xs ys).all id && (List.zipWith Binary64.lt xs ys).any id

/-- The candidates that are admitted and that no admitted one dominates. -/
def undominated {α : Type} (admitted : α → Bool) (values : α → List Binary64) (xs : List α) :
    List α :=
  let rivals := xs.filter admitted
  rivals.filter fun x => !rivals.any fun y => dominates (values y) (values x)

/-! ## All selections -/

/-- The nonempty ascending lists of `count` positions from `first` on, in lexicographic order. -/
def nonemptySelections (first : Nat) : (count : Nat) → List (List Nat)
  | 0 => []
  | count + 1 =>
    let later := nonemptySelections (first + 1) count
    ([] :: later).map (first :: ·) ++ later

/-- The ascending lists of positions below `n`, in lexicographic order. -/
def selections (n : Nat) : List (List Nat) :=
  [] :: nonemptySelections 0 n

/-- The marks of selected positions among `n`. -/
def marksOf (n : Nat) (selected : List Nat) : List Bool :=
  (List.range n).map fun (i : Nat) => selected.contains i

/-- **Looks at every row**, whatever numbers it is told to go by. -/
def exhaustive [Memory] : Search := fun p _ => do
  let rows := (selections p.evaluator.problem.functionalities).map
    (marksOf p.evaluator.problem.functionalities)
  let results ← (p.evaluateRows (rows.map Datum.flags)).answer
  let found := undominated (fun c => c.2.isFeasible) (fun c => c.2.minimized) (rows.zip results)
  .ok <| if found.isEmpty then none
    else some ⟨.table (found.map (·.1)), .table (found.map fun c => c.2.minimized)⟩

end MigrationPlan
