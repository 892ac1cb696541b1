import MigrationPlan.Markup.Content
import MigrationPlan.Markup.Spelling
import MigrationPlan.Settings.Check

/-!
# Settings/Text — settings as files

A settings file holds a document; one that says nothing stands for the default settings.  `render`
writes every field, in alphabetical order.
-/

namespace MigrationPlan

/-- Finds the document in a text. -/
abbrev Parser := String → Except Fault Document

namespace Settings

/-- The levels of mappings in a settings file. -/
def levels : Nat := 2

/-- **Reads settings from the text of a file**: `parse` finds the document in it, and `validate` the
settings that the document holds. -/
def ofFileText (s : String) (parse : Parser := Markup.documentOf levels)
    (validate : Validator := ofDocument) : Except Fault Settings := do
  let d ← parse s
  validate (if d.isEmpty then .mapping [] else d)

/-- The text of a value that may be missing. -/
def orNull {α : Type} (write : α → String) (x : Option α) : String :=
  x.elim "null" write

/-- One line of a settings file. -/
def entryLine (indent key value : String) : String :=
  indent ++ key ++ ": " ++ value ++ "\n"

/-- The column in which the name of the problem file is written. -/
def fileColumn : Nat := "instance: ".length

/-- **Writes a settings file.** -/
def render (s : Settings) : String :=
  let probability := settingsLayout.write
  entryLine "" "encoding" s.encoding.name
    ++ entryLine "" "instance" (orNull (Markup.spell fileColumn) s.problemFile)
    ++ "optimization:\n"
    ++ entryLine "  " "crossover_prob" (probability s.search.crossover)
    ++ entryLine "  " "mutation_prob" (orNull probability s.search.mutation)
    ++ entryLine "  " "n_gen" (toString s.search.generations)
    ++ entryLine "  " "pop_size" (toString s.search.populationSize)
    ++ entryLine "  " "seed" (toString s.search.seed)

end Settings

end MigrationPlan
