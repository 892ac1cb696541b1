import MigrationPlan.Text.Split

/-!
# Text/Path — the normal form of a path

Slashes in a row count as one, and a part that is a single point as nothing; two points stay.  A
path that starts with exactly two slashes keeps both, and a path without parts is a single point.
-/

namespace MigrationPlan.Text

/-- The parts of a path that count. -/
def pathParts (cs : List Char) : List (List Char) :=
  (split '/' cs).filter fun part => !part.isEmpty && part ≠ ['.']

/-- The slashes at the start of a path in normal form. -/
def pathRoot (cs : List Char) : List Char :=
  match (cs.takeWhile (· = '/')).length with
  | 0 => []
  | 2 => ['/', '/']
  | _ => ['/']

/-- The path with a root and some parts. -/
def pathOfParts (root : List Char) (parts : List (List Char)) : String :=
  if root.isEmpty && parts.isEmpty then "." else String.ofList (root ++ join '/' parts)

/-- The normal form of a path. -/
def normalPath (s : String) : String :=
  pathOfParts (pathRoot s.toList) (pathParts s.toList)

/-- The path without its last part. -/
def parentPath (s : String) : String :=
  pathOfParts (pathRoot s.toList) (pathParts s.toList).dropLast

end MigrationPlan.Text
