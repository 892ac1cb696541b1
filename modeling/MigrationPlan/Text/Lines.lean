/-!
# Text/Lines — where lines end

Text in memory and text in a file are cut into lines by different rules.  In memory every line and
paragraph separator ends a line; in a file only a line feed, a carriage return or the two together
do.  Under both rules a carriage return followed by a line feed is one end, and an end at the very
end of the text opens no further line.
-/

namespace MigrationPlan.Text

/-- A rule of what ends a line beside carriage returns and line feeds. -/
abbrev LineRule := Char → Bool

/-- In a file nothing else does. -/
def fileRule : LineRule := fun _ => false

/-- In memory the other vertical separators do as well. -/
def memoryRule : LineRule := fun c =>
  [0x0B, 0x0C, 0x1C, 0x1D, 0x1E, 0x85, 0x2028, 0x2029].contains c.toNat

/-- Cuts a text into lines; `line` holds the characters of the current line, last first. -/
def linesFrom (rule : LineRule) : (line : List Char) → List Char → List (List Char)
  | [], [] => []
  | line, [] => [line.reverse]
  | line, '\r' :: '\n' :: rest => line.reverse :: linesFrom rule [] rest
  | line, c :: rest =>
    if c = '\n' || c = '\r' || rule c then line.reverse :: linesFrom rule [] rest
    else linesFrom rule (c :: line) rest

/-- The lines of a text under a rule. -/
def lines (rule : LineRule) (s : String) : List (List Char) :=
  linesFrom rule [] s.toList

end MigrationPlan.Text
