/-!
# Variable/Kind — the five kinds of decision variable
-/

namespace MigrationPlan

/-- The closed list of kinds. -/
inductive VariableKind where
  | real
  | integer
  | binary
  | subset
  | permutation
deriving DecidableEq, Repr

namespace VariableKind

/-- The name of a kind in messages. -/
def name : VariableKind → String
  | real => "RealVariable"
  | integer => "IntegerVariable"
  | binary => "BinaryVariable"
  | subset => "SubsetVariable"
  | permutation => "PermutationVariable"

/-- A kind that was asked for and not found, in words. -/
def wanted : VariableKind → String
  | real => "a real variable"
  | integer => "an integer variable"
  | binary => "a binary variable"
  | subset => "a subset"
  | permutation => "a permutation"

end VariableKind

end MigrationPlan
