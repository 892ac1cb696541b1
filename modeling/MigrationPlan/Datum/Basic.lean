import MigrationPlan.Nested
import MigrationPlan.Numeric.Number
import MigrationPlan.Text.Quoted

/-!
# Datum/Basic — what callers hand over

A value arrives as a number, as text, as a list of such values, or not at all.  An operation looks
at the kind of a value only when it needs it, so values are kept as they came until then.  Messages
show them by `Datum.display`, and inside a list by `Datum.quoted`.
-/

namespace MigrationPlan

/-- A value that is no list. -/
inductive Entry where
  | missing
  | number (x : Number)
  | text (s : String)
deriving DecidableEq

/-- The spelling of an entry inside a list: text stands between quotes. -/
def Entry.quoted : Entry → String
  | missing => "None"
  | number x => x.text
  | text s => Text.quoted s

/-- The spelling of an entry by itself: text is shown as it is. -/
def Entry.display : Entry → String
  | text s => s
  | e => e.quoted

/-- A value as given. -/
abbrev Datum := Nested Entry

namespace Datum

@[match_pattern] abbrev missing : Datum := .leaf .missing

@[match_pattern] abbrev number (x : Number) : Datum := .leaf (.number x)

@[match_pattern] abbrev text (s : String) : Datum := .leaf (.text s)

@[match_pattern] abbrev whole (i : Int) : Datum := .leaf (.number (.whole i))

@[match_pattern] abbrev real (x : Binary64) : Datum := .leaf (.number (.real x))

@[match_pattern] abbrev flag (b : Bool) : Datum := .leaf (.number (.flag b))

mutual

/-- The spelling of a value inside a list. -/
def quoted : Datum → String
  | .leaf e => e.quoted
  | .node parts => "[" ++ ", ".intercalate (quotedParts parts) ++ "]"

def quotedParts : List Datum → List String
  | [] => []
  | p :: rest => quoted p :: quotedParts rest

end

/-- The spelling of a value by itself. -/
def display : Datum → String
  | .leaf e => e.display
  | d => d.quoted

end Datum

end MigrationPlan
