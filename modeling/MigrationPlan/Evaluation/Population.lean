import MigrationPlan.Evaluation.Evaluator

/-!
# Evaluation/Population — rows of marks as candidates

A population search hands over rows of truth values, one per functionality.  Each row is written
into a fresh decision variable of the evaluator's encoding: as bits, or as the subset of the marked
positions.  The rows that were evaluated are counted.

The search calls again and again, each time with rows and with two tables of its own to be filled.
-/

namespace MigrationPlan

/-- An evaluator, and the number of rows it has evaluated. -/
structure Population where
  evaluator : Evaluator
  evaluations : Nat
deriving DecidableEq

namespace Population

/-- Nothing evaluated yet. -/
def new (evaluator : Evaluator) : Population :=
  ⟨evaluator, 0⟩

/-- A population that can be searched, for which the number of functionalities has to be a whole
number. -/
def new? [Memory] (evaluator : Evaluator) : Except Fault Population := do
  let _ ← newSide? 8 (.number evaluator.source.functionalities)
  .ok (new evaluator)

/-- The decision variable of a row. -/
def toVariable [Memory] (p : Population) (row : Datum) : Except Fault Variable := do
  let v ← p.evaluator.newVariable
  match p.evaluator.encoding with
  | some .subset => do
    let (_, marks) ← row.bits?
    v.setSubset (.wholes ((positions marks).map fun (i : Nat) => (i : Int)))
  | _ => v.setBinary row

/-- Evaluates rows.  All of them are made into variables before the first is evaluated, and they are
counted only if all are. -/
def evaluateRows [Memory] (p : Population) (rows : List Datum) :
    Outcome Population (List Evaluation) :=
  Outcome.commit p do
    let vs ← rows.mapM p.toVariable
    let results ← p.evaluator.evaluateBatch vs
    .ok ({ p with evaluations := p.evaluations + rows.length }, results)

end Population

/-! ## Calls -/

/-- Rows of numbers, one number per column. -/
structure Table where
  columns : Nat
  rows : List (List Binary64)
deriving DecidableEq

/-- What a search wants to be filled: the objectives and the overruns of its rows. -/
structure Tables where
  minimized : Option Table
  overruns : Option Table
deriving DecidableEq

/-- Rows to be evaluated, and the tables for them as they are so far. -/
structure Call where
  rows : List Datum
  tables : Tables

/-- The table of some lists of numbers per version. -/
def Evaluator.table (e : Evaluator) (rows : List (List Binary64)) : Table :=
  ⟨e.problem.versions, rows⟩

namespace Population

/-- **Evaluates the rows of a call and fills its tables.** -/
def fill [Memory] (p : Population) (call : Call) : Outcome (Population × Tables) Unit :=
  let out := p.evaluateRows call.rows
  match out.answer with
  | .ok results =>
    let minimized := p.evaluator.table (results.map fun r => r.minimized)
    let overruns := p.evaluator.table (results.map fun r => r.overruns)
    ⟨(out.state, ⟨some minimized, some overruns⟩), .ok ()⟩
  | .error fault => ⟨(out.state, call.tables), .error fault⟩

/-- What comes of each of several calls, one after the other. -/
def run [Memory] (p : Population) : List Call → List (Outcome (Population × Tables) Unit)
  | [] => []
  | call :: calls => p.fill call :: (p.fill call).state.1.run calls

/-- The population behind several calls. -/
def after [Memory] (p : Population) (calls : List Call) : Population :=
  calls.foldl (fun q call => (q.fill call).state.1) p

end Population

end MigrationPlan
