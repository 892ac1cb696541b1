/-!
# Markup/Fault — why a text is no document

A text is refused at the first place that does not fit.  `SyntaxFault` sorts the reasons by what was
being made at that place; `DateFault` says which part of a date or time is out of its range.
-/

namespace MigrationPlan

/-- What could not be made: the characters of a text, its tokens, their order, the nodes that they
name, or the values of the nodes. -/
inductive SyntaxFault where
  | unprintable
  | scanning
  | parsing
  | composing
  | constructing
deriving DecidableEq, Repr

/-- What is wrong with the text. -/
def SyntaxFault.message : SyntaxFault → String
  | unprintable => "the text holds characters that are not printable"
  | scanning => "the text holds characters that form no token"
  | parsing => "the text is not a document"
  | composing => "the text names what it does not hold, or holds more than one document"
  | constructing => "the text holds a node that has no value"

/-- The part of a date or time that is out of its range. -/
inductive DateFault where
  | year (n : Nat)
  | month
  | day
  | hour
  | minute
  | second
  | offset (negative : Bool) (minutes : Nat)
deriving DecidableEq, Repr

namespace DateFault

/-- A span of time as days and seconds; a part that is zero is left out. -/
def spanText (days : Int) (seconds : Nat) : String :=
  let parts := (if days = 0 then [] else ["days=" ++ toString days])
    ++ (if seconds = 0 then [] else ["seconds=" ++ toString seconds])
  "datetime.timedelta(" ++ (if parts.isEmpty then "0" else ", ".intercalate parts) ++ ")"

/-- The span of so many minutes, with seconds that are never negative. -/
def offsetText (negative : Bool) (minutes : Nat) : String :=
  let seconds : Int := if negative then -(minutes * 60) else minutes * 60
  spanText (seconds / 86400) (seconds % 86400).toNat

/-- What is wrong with the date or time. -/
def message : DateFault → String
  | year n => "year " ++ toString n ++ " is out of range"
  | month => "month must be in 1..12"
  | day => "day is out of range for month"
  | hour => "hour must be in 0..23"
  | minute => "minute must be in 0..59"
  | second => "second must be in 0..59"
  | offset negative minutes =>
    "offset must be a timedelta strictly between -timedelta(hours=24) and timedelta(hours=24), not "
      ++ offsetText negative minutes ++ "."

end DateFault

end MigrationPlan
