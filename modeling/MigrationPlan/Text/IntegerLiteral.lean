import MigrationPlan.Fault

/-!
# Text/IntegerLiteral — integers written by hand

An integer literal is an optional sign and digits, decimal ones of any script, with single
underscores between digits and white space around the whole.  More than 4300 decimal digits are
refused before anything that follows them is looked at.

Digits of base 2, 8 and 16 (`readIntegerIn`) may have the base in front, as in `0x1F`, and there may
be any number of them.
-/

namespace MigrationPlan.Text

/-- The most decimal digits an integer may be written with. -/
def digitLimit : Nat := 4300

/-- The number that digits spell, if there are not too many of them. -/
def digitsToNat (ds : List Char) : Except Fault Nat :=
  if digitLimit < ds.length then .error (.tooManyDigits ds.length) else .ok (digitsValue ds)

/-- White space around a literal; the separators U+001C to U+001F do not count. -/
def literalBlank (c : Char) : Bool :=
  isBlank c && !(0x1C ≤ c.toNat && c.toNat ≤ 0x1F)

/-- An optional sign, and whether it is a minus sign. -/
def splitSign : List Char → Bool × List Char
  | '-' :: cs => (true, cs)
  | '+' :: cs => (false, cs)
  | cs => (false, cs)

/-- An integer with a sign. -/
def signed (negative : Bool) (n : Nat) : Int :=
  if negative then -n else n

/-! ## Digits of a base -/

/-- The value of a digit, with letters for the digits from ten on. -/
def digitOrLetter? (c : Char) : Option Nat :=
  match digitValue? c with
  | some d => some d
  | none =>
    if 'a' ≤ c && c ≤ 'z' then some (c.toNat - 'a'.toNat + 10)
    else if 'A' ≤ c && c ≤ 'Z' then some (c.toNat - 'A'.toNat + 10)
    else none

/-- A digit of a base. -/
def isDigitIn (base : Nat) (c : Char) : Bool :=
  (digitOrLetter? c).any (· < base)

/-- The number that digits of a base spell. -/
def digitsValueIn (base : Nat) (cs : List Char) : Nat :=
  cs.foldl (fun n c => base * n + (digitOrLetter? c).getD 0) 0

/-- Digits with single underscores between them, and what follows.  There is no answer if an
underscore does not stand between two digits. -/
def digitRun? (isDigit : Char → Bool) : List Char → Option (List Char × List Char)
  | [] => some ([], [])
  | '_' :: c :: rest =>
    if isDigit c then (digitRun? isDigit rest).map fun (ds, left) => (c :: ds, left) else none
  | ['_'] => none
  | c :: rest =>
    if isDigit c then (digitRun? isDigit rest).map fun (ds, left) => (c :: ds, left)
    else some ([], c :: rest)

/-! ## Literals -/

/-- Reads an integer literal. -/
def readInteger (s : String) : Except Fault Int := do
  let invalid := Fault.notAnIntegerText 10 s
  let (negative, body) := splitSign (s.toList.dropWhile literalBlank)
  if body.head? = some '_' then .error invalid
  match digitRun? isDigit body with
  | none => .error invalid
  | some (ds, left) =>
    if ds.isEmpty then .error invalid
    let n ← digitsToNat ds
    if left.all literalBlank then .ok (signed negative n) else .error invalid

/-- The letters that announce a base behind a zero. -/
def baseLetters (base : Nat) : List Char :=
  match base with
  | 2 => ['b', 'B']
  | 8 => ['o', 'O']
  | 16 => ['x', 'X']
  | _ => []

/-- The digits behind the announcement of a base, if there is one; an underscore may stand between
the two. -/
def behindBase (base : Nat) : List Char → List Char
  | '0' :: c :: rest =>
    if (baseLetters base).contains c then
      (match rest with
        | '_' :: more => more
        | rest => rest)
    else '0' :: c :: rest
  | cs => cs

/-- Reads an integer literal in base 2, 8 or 16. -/
def readIntegerIn (base : Nat) (s : String) : Except Fault Int :=
  let invalid := Fault.notAnIntegerText base s
  let (negative, body) := splitSign (s.toList.dropWhile literalBlank)
  let body := behindBase base body
  if body.head? = some '_' then .error invalid
  else match digitRun? (isDigitIn base) body with
    | none => .error invalid
    | some (ds, left) =>
      if ds.isEmpty || !left.all literalBlank then .error invalid
      else .ok (signed negative (digitsValueIn base ds))

end MigrationPlan.Text
