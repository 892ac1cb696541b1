/-!
# Settings/Fault — what can be wrong with settings

Values of settings may not be admissible: then there is one `Issue` per offending field, in the
order of the fields.
-/

namespace MigrationPlan

/-- What is wrong with a value. -/
inductive IssueKind where
  | notAnInteger
  | notAnIntegerText
  | tooManyDigits
  | fractional
  | notFinite
  | notANumber
  | notANumberText
  | belowLeast
  | aboveGreatest
  | notAChoice
  | notAPath
  | notAMapping
  | brokenText
deriving DecidableEq, Repr

/-- The code of an issue kind. -/
def IssueKind.code : IssueKind → String
  | notAnInteger => "int_type"
  | notAnIntegerText => "int_parsing"
  | tooManyDigits => "int_parsing_size"
  | fractional => "int_from_float"
  | notFinite => "finite_number"
  | notANumber => "float_type"
  | notANumberText => "float_parsing"
  | belowLeast => "greater_than_equal"
  | aboveGreatest => "less_than_equal"
  | notAChoice => "literal_error"
  | notAPath => "path_type"
  | notAMapping => "model_type"
  | brokenText => "string_unicode"

/-- A value that is not admissible, under the keys that lead to it. -/
structure Issue where
  keys : List String
  kind : IssueKind
deriving DecidableEq, Repr

/-- The keys that lead to the value, joined by points. -/
def Issue.location (i : Issue) : String :=
  ".".intercalate i.keys

/-- What is wrong with the value. -/
def Issue.message (i : Issue) : String :=
  i.location ++ ": " ++ i.kind.code

end MigrationPlan
