import MigrationPlan.Text.Visible

/-!
# Text/Quoted — text between quotes, as messages show it

Offending text is quoted in messages so that every character of it can be told: single quotes, or
double quotes around text that holds a single quote and no double one; a backslash before a
backslash and before the quote in use; `\n`, `\r` and `\t`; and code point escapes, of the shortest
form that fits, for other invisible characters.
-/

namespace MigrationPlan.Text

/-- The quote that surrounds a text. -/
def quoteFor (cs : List Char) : Char :=
  if cs.contains '\'' && !cs.contains '"' then '"' else '\''

/-- The last `width` lower-case hexadecimal digits of `n`. -/
def hexDigits : (width : Nat) → Nat → List Char
  | 0, _ => []
  | width + 1, n => hexDigits width (n / 16) ++ [Nat.digitChar (n % 16)]

/-- A code point by two, four or eight hexadecimal digits. -/
def codePointEscape (n : Nat) : List Char :=
  if n < 0x100 then '\\' :: 'x' :: hexDigits 2 n
  else if n < 0x10000 then '\\' :: 'u' :: hexDigits 4 n
  else '\\' :: 'U' :: hexDigits 8 n

/-- One character between quotes. -/
def quotedChar (quote c : Char) : List Char :=
  if c = quote || c = '\\' then ['\\', c]
  else if c = '\n' then ['\\', 'n']
  else if c = '\r' then ['\\', 'r']
  else if c = '\t' then ['\\', 't']
  else if isVisible c then [c]
  else codePointEscape c.toNat

/-- A text between quotes. -/
def quotedChars (cs : List Char) : List Char :=
  let quote := quoteFor cs
  quote :: cs.flatMap (quotedChar quote) ++ [quote]

/-- A text between quotes. -/
def quoted (s : String) : String :=
  String.ofList (quotedChars s.toList)

/-- At most the first `limit` characters of a text between quotes. -/
def quotedUpTo (limit : Nat) (s : String) : String :=
  String.ofList ((quotedChars s.toList).take limit)

end MigrationPlan.Text
