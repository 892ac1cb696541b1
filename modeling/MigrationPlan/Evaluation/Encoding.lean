/-!
# Evaluation/Encoding — two ways of writing a selection down

A selection of functionalities is a bit for each of them, or the subset of the selected ones.
-/

namespace MigrationPlan

/-- How a decision variable stands for a selection. -/
inductive Encoding where
  | binary
  | subset
deriving DecidableEq, Repr

namespace Encoding

/-- The word for an encoding. -/
def name : Encoding → String
  | binary => "binary"
  | subset => "subset"

/-- The encoding that a word stands for. -/
def ofName? : String → Option Encoding
  | "binary" => some binary
  | "subset" => some subset
  | _ => none

end Encoding

theorem Encoding.ofName?_name (e : Encoding) : Encoding.ofName? e.name = some e := by
  cases e <;> rfl

end MigrationPlan
