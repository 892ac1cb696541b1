/-!
# Markup/Cursor — places in a text

Layout counts in a document, so a `Cursor` knows its line and column beside what is left of the
text.  A line ends at a line feed, which also stands for a carriage return, alone or before a line
feed (`evenBreaks`), and at the next-line character and the line and paragraph separators.
-/

namespace MigrationPlan.Markup

/-! ## Characters -/

/-- Characters that end a line. -/
def isBreak (c : Char) : Bool :=
  c = '\n' || c = '\r' || [0x85, 0x2028, 0x2029].contains c.toNat

/-- Spaces, tabs and line ends. -/
def isSpace (c : Char) : Bool :=
  c = ' ' || c = '\t' || isBreak c

/-- The end of the text or of a line. -/
def lineEndsAt (cs : List Char) : Bool :=
  cs.head?.all isBreak

/-- The end of the text, a space, a tab or the end of a line. -/
def spaceAhead (cs : List Char) : Bool :=
  cs.head?.all isSpace

/-- The end of the text, a space or the end of a line, but no tab. -/
def gapAhead (cs : List Char) : Bool :=
  cs.head?.all fun c => c = ' ' || isBreak c

/-- Line ends count as line feeds, except for line and paragraph separators. -/
def lineEnd (c : Char) : Char :=
  if [0x2028, 0x2029].contains c.toNat then c else '\n'

/-- Three hyphens or three points on their own. -/
def isMarker (mark : Char) : List Char → Bool
  | a :: b :: c :: rest => a = mark && b = mark && c = mark && spaceAhead rest
  | _ => false

/-- The start or the end of a document. -/
def isAnyMarker (cs : List Char) : Bool :=
  isMarker '-' cs || isMarker '.' cs

/-- Letters, digits, hyphens and underscores make up names. -/
def isNameChar (c : Char) : Bool :=
  c.isAlphanum || c = '-' || c = '_'

def isHex (c : Char) : Bool :=
  c.isDigit || ('a' ≤ c && c ≤ 'f') || ('A' ≤ c && c ≤ 'F')

def hexValue (c : Char) : Nat :=
  if c.isDigit then c.toNat - '0'.toNat
  else if 'a' ≤ c then c.toNat - 'a'.toNat + 10
  else c.toNat - 'A'.toNat + 10

/-- Control characters and code points without a character are not part of any document; tabs, line
ends and the next-line character are. -/
def isPrintable (c : Char) : Bool :=
  c = '\t' || c = '\n' || c = '\r' || (' ' ≤ c && c ≤ '~') || c.toNat = 0x85
    || (0xA0 ≤ c.toNat && c.toNat ≠ 0xFFFE && c.toNat ≠ 0xFFFF)

/-- Each carriage return, alone or with a line feed behind it, as one line feed. -/
def evenBreaks : List Char → List Char
  | [] => []
  | '\r' :: '\n' :: cs => '\n' :: evenBreaks cs
  | '\r' :: cs => '\n' :: evenBreaks cs
  | c :: cs => c :: evenBreaks cs

/-! ## Places -/

/-- Where in a text a character stands. -/
structure Place where
  index : Nat := 0
  line : Nat := 0
  column : Nat := 0
deriving DecidableEq, Repr

/-- The place behind a character; the byte order mark takes up no column. -/
def Place.behind (c : Char) (p : Place) : Place :=
  if isBreak c then ⟨p.index + 1, p.line + 1, 0⟩
  else ⟨p.index + 1, p.line, if c.toNat = 0xFEFF then p.column else p.column + 1⟩

/-- A place with the text from there on. -/
structure Cursor extends Place where
  rest : List Char
deriving DecidableEq, Repr

namespace Cursor

/-- The start of a text. -/
def ofText (cs : List Char) : Cursor :=
  ⟨{}, cs⟩

/-- One character further. -/
def next (here : Cursor) : Cursor :=
  match here.rest with
  | [] => here
  | c :: cs => ⟨here.toPlace.behind c, cs⟩

/-- Some characters further. -/
def advance : (count : Nat) → Cursor → Cursor
  | 0, here => here
  | count + 1, here => advance count here.next

/-- The character at the cursor. -/
def peek? (here : Cursor) : Option Char :=
  here.rest.head?

/-- The character at the cursor is a given one. -/
def isAt (c : Char) (here : Cursor) : Bool :=
  here.peek? = some c

/-- The longest run of characters of a kind, and the place behind it. -/
def takeWhile (kind : Char → Bool) (here : Cursor) : List Char × Cursor :=
  let cs := here.rest.takeWhile kind
  (cs, here.advance cs.length)

/-- The place behind the longest run of characters of a kind. -/
def skipWhile (kind : Char → Bool) (here : Cursor) : Cursor :=
  (here.takeWhile kind).2

/-- The place behind spaces. -/
def skipSpaces (here : Cursor) : Cursor :=
  here.skipWhile (· = ' ')

/-- The place behind a comment, if there is one; it reaches to the end of its line. -/
def skipComment (here : Cursor) : Cursor :=
  if here.isAt '#' then here.skipWhile (!isBreak ·) else here

/-- The line end at the cursor, or nothing, and the place behind it. -/
def takeBreak (here : Cursor) : List Char × Cursor :=
  match here.peek? with
  | some c => if isBreak c then ([lineEnd c], here.next) else ([], here)
  | none => ([], here)

end Cursor

end MigrationPlan.Markup
