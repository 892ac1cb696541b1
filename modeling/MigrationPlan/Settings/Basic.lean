import MigrationPlan.Evaluation.Encoding
import MigrationPlan.Markup.Document

/-!
# Settings/Basic — what a search is told

Settings name the problem file and the encoding of selections, and give the search its sizes, its
seed and its two probabilities.  `Settings.toDocument` writes them as a document, every field
present.
-/

namespace MigrationPlan

/-- The numbers of a search.  Without a mutation probability the search chooses one. -/
structure SearchSettings where
  populationSize : Nat := 100
  generations : Nat := 500
  seed : Nat := 42
  crossover : Binary64 := 1
  mutation : Option Binary64 := none
deriving DecidableEq

/-- Settings of a search.  Without a problem file the sample problem is meant. -/
structure Settings where
  problemFile : Option String := none
  encoding : Encoding := .binary
  search : SearchSettings := {}
deriving DecidableEq

namespace SearchSettings

/-- The numbers under their keys. -/
def toDocument (s : SearchSettings) : Document :=
  .mapping
    [("pop_size", .number (.whole s.populationSize)),
     ("n_gen", .number (.whole s.generations)),
     ("seed", .number (.whole s.seed)),
     ("crossover_prob", .number (.real s.crossover)),
     ("mutation_prob", s.mutation.elim .missing fun p => .number (.real p))]

end SearchSettings

namespace Settings

/-- The settings under their keys, the numbers of the search in a mapping of their own. -/
def toDocument (s : Settings) : Document :=
  .mapping
    [("instance", s.problemFile.elim .missing .text),
     ("encoding", .text s.encoding.name),
     ("optimization", s.search.toDocument)]

end Settings

end MigrationPlan
