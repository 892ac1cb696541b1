import MigrationPlan.Markup.Cursor
import MigrationPlan.Text.Split

/-!
# Markup/Tag — what a node is

A node is of the kind that its tag names.  A plain scalar without a tag is a number, a truth value,
a time or nothing if it is spelled like one (`Tag.ofPlain`), and any other scalar without a tag is
text.
-/

namespace MigrationPlan.Markup

/-- The kinds of nodes.  A `merge` key stands for the entries of its value, and a `default` key for
the mapping that it belongs to. -/
inductive Tag where
  | missing
  | flag
  | whole
  | real
  | time
  | bytes
  | text
  | sequence
  | mapping
  | set
  | ordered
  | pairs
  | merge
  | default
  | unknown
deriving DecidableEq, Repr

namespace Tag

/-- The stem of the names of all known kinds. -/
def stem : String := "tag:yaml.org,2002:"

/-- The kind that a full name stands for. -/
def ofName (name : String) : Tag :=
  (([("null", missing), ("bool", flag), ("int", whole), ("float", real), ("timestamp", time),
    ("binary", bytes), ("str", text), ("seq", sequence), ("map", mapping), ("set", set),
    ("omap", ordered), ("pairs", pairs), ("merge", merge), ("value", default)] :
    List (String × Tag)).map fun (word, tag) => (stem ++ word, tag)).lookup name |>.getD unknown

/-! ## Spellings -/

def trueWords : List String :=
  ["yes", "Yes", "YES", "true", "True", "TRUE", "on", "On", "ON"]

def falseWords : List String :=
  ["no", "No", "NO", "false", "False", "FALSE", "off", "Off", "OFF"]

def missingWords : List String :=
  ["", "~", "null", "Null", "NULL"]

/-- Digits and underscores. -/
def isDigitOrGap (c : Char) : Bool :=
  c.isDigit || c = '_'

/-- A text without a sign in front. -/
def unsigned : List Char → List Char
  | '-' :: cs => cs
  | '+' :: cs => cs
  | cs => cs

/-- One or two digits of a number below sixty. -/
def isSixtieth : List Char → Bool
  | [a] => a.isDigit
  | [a, b] => '0' ≤ a && a ≤ '5' && b.isDigit
  | _ => false

/-- Sixtieths behind a colon each; there is one at least. -/
def isSixtieths (parts : List (List Char)) : Bool :=
  !parts.isEmpty && parts.all isSixtieth

/-- A run of characters of a kind, which is not empty. -/
def isRun (kind : Char → Bool) (cs : List Char) : Bool :=
  !cs.isEmpty && cs.all kind

/-- A whole number without its sign: binary, octal, hexadecimal, decimal or in sixtieths, with
underscores among the digits. -/
def isWhole : List Char → Bool
  | ['0'] => true
  | '0' :: 'b' :: cs => isRun (fun c => c = '0' || c = '1' || c = '_') cs
  | '0' :: 'x' :: cs => isRun (fun c => isHex c || c = '_') cs
  | '0' :: cs => isRun (fun c => ('0' ≤ c && c ≤ '7') || c = '_') cs
  | c :: cs =>
    match Text.split ':' cs with
    | first :: parts => c.isDigit && first.all isDigitOrGap && (parts.isEmpty || isSixtieths parts)
    | [] => false
  | [] => false

/-- Nothing, or an exponent with its sign. -/
def isExponent : List Char → Bool
  | [] => true
  | e :: sign :: ds => (e = 'e' || e = 'E') && (sign = '+' || sign = '-') && isRun Char.isDigit ds
  | _ => false

/-- Digits before a point, perhaps in sixtieths, and what stands behind it: digits, and an exponent
unless there are sixtieths. -/
def isPointed (cs : List Char) : Bool :=
  match cs.takeWhile (· ≠ '.'), cs.dropWhile (· ≠ '.') with
  | c :: more, '.' :: rest =>
    let tail := rest.dropWhile isDigitOrGap
    match Text.split ':' more with
    | first :: parts => c.isDigit && first.all isDigitOrGap
        && if parts.isEmpty then isExponent tail else isSixtieths parts && tail.isEmpty
    | [] => false
  | _, _ => false

/-- A point with digits behind it. -/
def isFraction : List Char → Bool
  | '.' :: c :: rest => c.isDigit && isExponent (rest.dropWhile isDigitOrGap)
  | _ => false

/-- A number that need not be whole; only a number with digits before the point or an infinite one
may have a sign. -/
def isReal (cs : List Char) : Bool :=
  isPointed (unsigned cs) || isFraction cs
    || [".inf", ".Inf", ".INF"].any (·.toList = unsigned cs)
    || [".nan", ".NaN", ".NAN"].any (·.toList = cs)

/-- Some digits, at least and at most so many. -/
def takeDigits? (least most : Nat) (cs : List Char) : Option (List Char × List Char) :=
  let ds := (cs.takeWhile Char.isDigit).take most
  if least ≤ ds.length then some (ds, cs.drop ds.length) else none

/-- The parts of a time as they are written. -/
structure TimeParts where
  year : List Char
  month : List Char
  day : List Char
  clock : Option (List Char × List Char × List Char) := none
  zone : Option (Char × List Char × List Char) := none

/-- Nothing, `Z`, or a sign with the hours and perhaps the minutes of an offset. -/
def zoneParts? (cs : List Char) : Option (Option (Char × List Char × List Char)) := do
  match cs.dropWhile fun c => c = ' ' || c = '\t' with
  | [] => if cs.isEmpty then some none else none
  | ['Z'] => some none
  | sign :: rest =>
    if sign ≠ '+' && sign ≠ '-' then none
    let (hours, rest) ← takeDigits? 1 2 rest
    match rest with
    | [] => some (some (sign, hours, []))
    | ':' :: rest =>
      let (minutes, rest) ← takeDigits? 2 2 rest
      if rest.isEmpty then some (some (sign, hours, minutes)) else none
    | _ => none

/-- The parts of a time of day, its fraction passed over, and of its offset. -/
def clockParts? (parts : TimeParts) (cs : List Char) : Option TimeParts := do
  let (hour, rest) ← takeDigits? 1 2 cs
  let ':' :: rest := rest | none
  let (minute, rest) ← takeDigits? 2 2 rest
  let ':' :: rest := rest | none
  let (second, rest) ← takeDigits? 2 2 rest
  let rest := match rest with
    | '.' :: more => more.dropWhile Char.isDigit
    | rest => rest
  let zone ← zoneParts? rest
  some { parts with clock := some (hour, minute, second), zone }

/-- The parts of a date, or of a date and a time behind a `T` or blanks. -/
def timeParts? (cs : List Char) : Option TimeParts := do
  let (year, rest) ← takeDigits? 4 4 cs
  let '-' :: rest := rest | none
  let (month, rest) ← takeDigits? 1 2 rest
  let '-' :: rest := rest | none
  let (day, rest) ← takeDigits? 1 2 rest
  let parts : TimeParts := { year, month, day }
  match rest with
  | [] => some parts
  | c :: rest =>
    if c = 'T' || c = 't' then clockParts? parts rest
    else if c = ' ' || c = '\t' then
      clockParts? parts (rest.dropWhile fun c => c = ' ' || c = '\t')
    else none

/-- A date with all its digits, or a date with a time. -/
def isTime (cs : List Char) : Bool :=
  (timeParts? cs).any fun parts =>
    parts.clock.isSome || (parts.month.length = 2 && parts.day.length = 2)

/-- A text without a line feed at its end. -/
def withoutLastBreak (cs : List Char) : List Char :=
  if cs.getLast? = some '\n' then cs.dropLast else cs

/-- **The kind of a plain scalar.**  A line feed at the end does not count, except that nothing else
is no value. -/
def ofPlain (s : String) : Tag :=
  let cs := withoutLastBreak s.toList
  let word := String.ofList cs
  if s.isEmpty then missing
  else if word.isEmpty then text
  else if trueWords.contains word || falseWords.contains word then flag
  else if isReal cs then real
  else if isWhole (unsigned cs) then whole
  else if word = "<<" then merge
  else if missingWords.contains word then missing
  else if isTime cs then time
  else if word = "=" then default
  else if ["!", "&", "*"].contains word then unknown
  else text

end Tag

end MigrationPlan.Markup
