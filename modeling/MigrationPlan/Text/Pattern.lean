import MigrationPlan.Text.Characters

/-!
# Text/Pattern — lines made of words, blanks and numbers

A pattern is a list of tokens that a line has to match from its first character to its last.  White
space and digits are those of every script.  No token can take over characters of its neighbour in
the patterns of the program, so each is matched greedily.
-/

namespace MigrationPlan.Text

/-- A part of a line. -/
inductive Token where
  | word (s : String)
  | blanks
  | someBlanks
  | number
deriving DecidableEq, Repr

/-- The parts of a line from left to right. -/
abbrev Pattern := List Token

/-- What is left of a text after a word at its start. -/
def afterWord? : List Char → List Char → Option (List Char)
  | [], cs => some cs
  | w :: ws, c :: cs => if w = c then afterWord? ws cs else none
  | _ :: _, [] => none

/-- The digits of the numbers in a text that matches the pattern as a whole. -/
def Pattern.match? : Pattern → List Char → Option (List (List Char))
  | [], cs => if cs.isEmpty then some [] else none
  | .word s :: rest, cs => (afterWord? s.toList cs).bind (match? rest)
  | .blanks :: rest, cs => match? rest (cs.dropWhile isBlank)
  | .someBlanks :: rest, cs =>
    match cs with
    | c :: more => if isBlank c then match? rest (more.dropWhile isBlank) else none
    | [] => none
  | .number :: rest, cs =>
    let digits := cs.takeWhile isDigit
    if digits.isEmpty then none
    else (match? rest (cs.dropWhile isDigit)).map (digits :: ·)

end MigrationPlan.Text
