import MigrationPlan.Command.Arguments
import MigrationPlan.Command.Files
import MigrationPlan.Evaluation.Front
import MigrationPlan.Report

/-!
# Command/Front — the front of a problem

The command takes settings from a file, lays the options over them, and searches the population of
the problem that they name.  It prints what has been found, with business values in their natural
sense.  How documents and settings are read and how the search goes is left to `Tools`.
-/

namespace MigrationPlan.Command.Front

/-! ## Requests -/

/-- Where the settings come from and what is laid over them. -/
structure Request where
  settingsFile : Option Datum := none
  problemFile : Option Datum := none
  encoding : Option Datum := none
  populationSize : Option Datum := none
  generations : Option Datum := none
  seed : Option Datum := none

/-- The options of the command. -/
def options : Options :=
  [⟨"-h", false⟩, ⟨"--help", false⟩, ⟨"--config", true⟩, ⟨"--instance", true⟩, ⟨"--encoding", true⟩,
   ⟨"--pop", true⟩, ⟨"--gen", true⟩, ⟨"--seed", true⟩, ⟨"--verbose", false⟩]

/-- The request of a command line.  A settings file without a name is none. -/
def Request.ofArguments (arguments : List String) : Except Fault Request := do
  let given ← options.read arguments
  given.refuseHelp
  let integer := fun (name : String) =>
    given.lastChecked? name fun s => (Text.readInteger s).toOption.map .whole
  let encoding ← given.lastChecked? "--encoding" encodingName?
  let populationSize ← integer "--pop"
  let generations ← integer "--gen"
  let seed ← integer "--seed"
  .ok
    { settingsFile := (given.last? "--config").filter Datum.truth
      problemFile := given.last? "--instance"
      encoding, populationSize, generations, seed }

/-- What is laid over the settings, as a document. -/
def Request.overrides (r : Request) : Document :=
  let given := fun (x : Option Datum) => x.elim Document.missing .ofDatum
  .mapping
    [("instance", given r.problemFile), ("encoding", given r.encoding),
     ("optimization", .mapping
       [("pop_size", given r.populationSize), ("n_gen", given r.generations),
        ("seed", given r.seed)])]

/-! ## Summaries -/

/-- What the command prints. -/
structure Summary where
  evaluator : Evaluator
  search : SearchSettings
  solutions : List FoundSelection

/-- One solution. -/
def solutionReport (c : FoundSelection) : Report :=
  .record
    [("selected", .positions c.selected), ("variable", .text c.decision.text),
     ("business_value", .reals c.businessValue)]

/-- A summary as it is printed. -/
def Summary.report (s : Summary) : Report :=
  let p := s.evaluator.problem
  .record
    [("evaluator", .text s.evaluator.name), ("n_versions", .whole p.versions),
     ("n_functionalities", .whole p.functionalities), ("n_pareto", .whole s.solutions.length),
     ("pop_size", .whole s.search.populationSize), ("n_gen", .whole s.search.generations),
     ("seed", .whole s.search.seed), ("constraint_names", .texts s.evaluator.constraintNames),
     ("solutions", .list (s.solutions.map solutionReport))]

/-! ## Runs -/

/-- What the command leaves to others: to find documents in texts and settings in documents, and to
search. -/
structure Tools [Memory] where
  parse : Parser := Markup.documentOf Settings.levels
  validate : Validator := Settings.ofDocument
  search : Search := exhaustive

variable {m : Type → Type} [Monad m] [Memory]

/-- The settings and the problem that a command line names; `read` finds files. -/
def named (tools : Tools) (read : FileReader m) (arguments : List String) :
    ExceptT Fault m (Settings × Problem) := do
  let request ← Request.ofArguments arguments
  let base ← loadSettings read tools.parse tools.validate request.settingsFile
  let settings ← base.merge request.overrides tools.validate
  let p ← loadProblem read (settings.problemFile.map .text)
  return (settings, p)

/-- The summary of what is found in the population of a problem. -/
def summarize (tools : Tools) (settings : Settings) (p : Problem) : Except Fault Summary := do
  let e ← Evaluator.create p.announced (some settings.encoding)
  let population ← Population.new? e
  let found ← tools.search population settings.search
  let solutions ← population.solutions found
  .ok ⟨e, settings.search, solutions⟩

/-- **Runs the command**; `read` finds files. -/
def run (read : FileReader m) (arguments : List String) (tools : Tools := {}) :
    ExceptT Fault m Summary := do
  let (settings, p) ← named tools read arguments
  summarize tools settings p

end MigrationPlan.Command.Front
