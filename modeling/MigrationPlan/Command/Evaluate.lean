import MigrationPlan.Command.Arguments
import MigrationPlan.Command.Files
import MigrationPlan.Evaluation.Evaluator
import MigrationPlan.Report
import MigrationPlan.Text.Split

/-!
# Command/Evaluate — the worth of one selection

The command evaluates a selection that is given by its bits or by a list of indices, and prints the
evaluation.  The two ways of giving a selection come down to a list of indices
(`Evaluate.Request.indices`), and `Evaluate.evaluation` is a function of that list.
-/

namespace MigrationPlan.Command.Evaluate

/-! ## Requests -/

/-- What is to be evaluated.  Bits go before indices. -/
structure Request where
  problemFile : Option Datum := none
  encoding : Datum := .text "binary"
  bits : Option Datum := none
  select : Datum := .text ""

/-- The options of the command. -/
def options : Options :=
  [⟨"-h", false⟩, ⟨"--help", false⟩, ⟨"--instance", true⟩, ⟨"--encoding", true⟩, ⟨"--select", true⟩,
   ⟨"--bits", true⟩, ⟨"--verbose", false⟩]

/-- The request of a command line. -/
def Request.ofArguments (arguments : List String) : Except Fault Request := do
  let given ← options.read arguments
  given.refuseHelp
  let encoding ← given.lastChecked? "--encoding" encodingName?
  .ok
    { problemFile := given.last? "--instance"
      encoding := encoding.getD (.text "binary")
      bits := given.last? "--bits"
      select := (given.last? "--select").getD (.text "") }

/-! ## Selections -/

/-- The positions of the ones among `n` binary digits. -/
def indicesOfBits (n : Nat) (bits : Datum) : Except Fault (List Int) :=
  let cs := match bits with
    | .text s => s.toList
    | _ => []
  if cs.length = n && cs.all fun c => c = '0' || c = '1' then
    .ok ((positions (cs.map (· = '1'))).map fun (i : Nat) => (i : Int))
  else .error (.bitString n bits.quoted)

/-- The integers between commas; blank items count for nothing. -/
def indicesOfList (s : String) : Except Fault (List Int) :=
  ((Text.split ',' s.toList).filter fun item => !item.all Text.isBlank).mapM fun item =>
    Text.readInteger (String.ofList item)

/-- The selected indices, for a problem with `n` functionalities. -/
def Request.indices (r : Request) (n : Nat) : Except Fault (List Int) :=
  match r.bits, r.select with
  | some bits, _ => indicesOfBits n bits
  | none, .text s => indicesOfList s
  | none, _ => .ok []

/-! ## Evaluations -/

/-- A selection written into a fresh solution and evaluated there: the decision variable and the
evaluation. -/
def evaluation [Memory] (e : Evaluator) (indices : List Int) :
    Except Fault (Variable × Evaluation) := do
  let fresh ← e.newSolution
  let solution ← fresh.select (.wholes indices)
  let v ← solution.first?
  let result ← (e.evaluateSolution solution).answer
  .ok (v, result)

/-- The printed evaluation. -/
def report (e : Evaluator) (v : Variable) (r : Evaluation) : Report :=
  .record
    [("evaluator", .text e.name), ("variable", .text v.text), ("F", .reals r.minimized),
     ("objectives", .reals r.objectives), ("G", .reals r.overruns),
     ("is_feasible", .flag r.isFeasible), ("max_violation", .real r.maxViolation),
     ("raw_cost", .reals r.rawCost), ("budget", .reals r.budget)]

/-- The report on a request about a problem. -/
def Request.reportOn [Memory] (r : Request) (p : Problem) : Except Fault Report := do
  let e ← Evaluator.ofName p.announced r.encoding
  let indices ← r.indices p.functionalities
  let (v, result) ← evaluation e indices
  .ok (report e v result)

/-- **Runs the command**; `read` finds files. -/
def run {m : Type → Type} [Monad m] [Memory] (read : FileReader m) (arguments : List String) :
    ExceptT Fault m Report := do
  let request ← Request.ofArguments arguments
  let p ← loadProblem read request.problemFile
  request.reportOn p

end MigrationPlan.Command.Evaluate
