import MigrationPlan.Text.IntegerLiteral

/-!
# Text/RealLiteral — doubles written by hand

A real literal is a signed decimal, `inf`, `infinity` or `nan`, with digits of any script, single
underscores between digits and white space around the whole.
-/

namespace MigrationPlan.Text

/-- A decimal digit of any script as an ASCII digit; other characters stay as they are. -/
def asciiDigit (c : Char) : Char :=
  match digitValue? c with
  | some d => Nat.digitChar d
  | none => c

/-- The text without its underscores, if each stands between two digits; `before` is the character
in front. -/
def withoutGaps? (before : Option Char) : List Char → Option (List Char)
  | [] => some []
  | '_' :: c :: rest =>
    if before.any Char.isDigit && c.isDigit then (withoutGaps? (some c) rest).map (c :: ·) else none
  | ['_'] => none
  | c :: rest => (withoutGaps? (some c) rest).map (c :: ·)

/-- Reads a real literal. -/
def readReal (s : String) : Except Fault Binary64 :=
  let cs := (s.toList.map asciiDigit).dropWhile literalBlank
  let body := (cs.reverse.dropWhile literalBlank).reverse
  match (withoutGaps? none body).bind fun cs => Binary64.read? (String.ofList cs) with
  | some x => .ok x
  | none => .error (.notARealText s)

end MigrationPlan.Text
