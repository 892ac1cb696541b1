/-!
# Markup/Token — the words and signs of a document

A text is first taken apart into tokens: scalars and their properties, the signs that are written
down, and the beginnings and ends of blocks, which only the indentation tells.
-/

namespace MigrationPlan.Markup

/-- The text of a scalar; there is none if some of what it names by code is no character.  A plain
one stands without quotes. -/
structure Word where
  text : Option String
  plain : Bool
deriving DecidableEq, Repr

/-- A line before a document that says how to read it. -/
inductive Directive where
  | version (major : Nat)
  | handle (name stem : String)
  | other
deriving DecidableEq, Repr

/-- A word or sign. -/
inductive Token where
  | directive (d : Directive)
  | documentStart
  | documentEnd
  | streamEnd
  | blockSequence
  | blockMapping
  | blockEnd
  | openSequence
  | closeSequence
  | openMapping
  | closeMapping
  | item
  | comma
  | key
  | value
  | alias (name : String)
  | anchor (name : String)
  | tag (handle : Option String) (suffix : String)
  | scalar (word : Word)
deriving DecidableEq, Repr

end MigrationPlan.Markup
