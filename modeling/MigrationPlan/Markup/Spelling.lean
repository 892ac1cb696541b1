import MigrationPlan.Markup.Tag
import MigrationPlan.Markup.Word
import MigrationPlan.Text.Quoted

/-!
# Markup/Spelling — how text is written in a document

`spell` chooses the plainest of three spellings from which a text reads back: plain, between single
quotes, or between double quotes with escapes.  Lines that become too long are folded.
-/

namespace MigrationPlan.Markup

/-- Printable ASCII characters and line feeds need no escape. -/
def isOrdinary (c : Char) : Bool :=
  c = '\n' || (' ' ≤ c && c ≤ '~')

/-- A colon before a space, or a number sign after one, inside a text. -/
def hasSeparator : List Char → Bool
  | [] => false
  | c :: rest =>
    (c = ':' && spaceAhead rest) || (isSpace c && rest.head? = some '#') || hasSeparator rest

/-- A beginning that a plain text may not have. -/
def badStart : List Char → Bool
  | '-' :: '-' :: '-' :: _ => true
  | '.' :: '.' :: '.' :: _ => true
  | c :: rest => isIndicator c || ((c = '?' || c = ':' || c = '-') && spaceAhead rest)
  | [] => false

/-- A space next to a line feed. -/
def hasRaggedBreak : List Char → Bool
  | a :: b :: rest =>
    (a = ' ' && b = '\n') || (a = '\n' && b = ' ') || hasRaggedBreak (b :: rest)
  | _ => false

/-- No space or line feed at either end. -/
def hasTightEnds (cs : List Char) : Bool :=
  let loose := fun (c : Option Char) => c = some ' ' || c = some '\n'
  !loose cs.head? && !loose cs.getLast?

/-- A text that may stand without quotes. -/
def isPlain (cs : List Char) : Bool :=
  !cs.isEmpty && cs.all (fun c => isOrdinary c && c ≠ '\n') && hasTightEnds cs && !badStart cs
    && !hasSeparator cs

/-- The column behind which a line is folded. -/
def lineWidth : Nat := 80

/-- The indent of the further lines of a text. -/
def hang : List Char := "\n  ".toList

/-- A single space, neither first nor last, behind which a line may be folded. -/
def isGap (before : Option Char) (c : Char) (rest : List Char) : Bool :=
  c = ' ' && before.any (· ≠ ' ') && rest.head?.any (· ≠ ' ')

/-- A plain text; a space in a line that has become too long is written as a line end. -/
def foldPlain (column : Nat) (before : Option Char) : List Char → List Char
  | [] => []
  | c :: rest =>
    if isGap before c rest && lineWidth < column then hang ++ foldPlain 2 (some c) rest
    else c :: foldPlain (column + 1) (some c) rest

/-- A text between single quotes; a quote inside is written twice, and a run of line feeds with one
more, before the indent of the next line. -/
def foldSingle (column : Nat) (before : Option Char) : List Char → List Char
  | [] => if before = some '\n' then [' ', ' '] else []
  | c :: rest =>
    if c = '\n' then
      (if before = some '\n' then ['\n'] else ['\n', '\n']) ++ foldSingle 2 (some c) rest
    else
      let indent := if before = some '\n' then [' ', ' '] else []
      if isGap before c rest && lineWidth < column then
        hang ++ foldSingle 2 (some c) rest
      else if c = '\'' then indent ++ '\'' :: '\'' :: foldSingle (column + 2) (some c) rest
      else indent ++ c :: foldSingle (column + 1) (some c) rest

/-- The letter behind a backslash that stands for a character. -/
def escapeLetter? (c : Char) : Option Char :=
  (List.lookup c.toNat
    [(0x00, '0'), (0x07, 'a'), (0x08, 'b'), (0x09, 't'), (0x0A, 'n'), (0x0B, 'v'), (0x0C, 'f'),
     (0x0D, 'r'), (0x1B, 'e'), (0x22, '"'), (0x5C, '\\'), (0x85, 'N'), (0xA0, '_'), (0x2028, 'L'),
     (0x2029, 'P')])

/-- The escape of a character that needs one between double quotes. -/
def doubleQuotedEscape? (c : Char) : Option (List Char) :=
  match escapeLetter? c with
  | some l => some ['\\', l]
  | none =>
    if ' ' ≤ c && c ≤ '~' then none
    else some ((Text.codePointEscape c.toNat).mapIdx fun i d => if i < 2 then d else d.toUpper)

/-- A text between double quotes.  A line that has become too long ends in a backslash, behind an
escape or before a space, which then has a backslash of its own. -/
def foldDouble (column : Nat) (first afterEscape : Bool) : List Char → List Char
  | [] => []
  | c :: rest =>
    let inner := !first && !rest.isEmpty
    match doubleQuotedEscape? c with
    | some escape =>
      let column := column + escape.length
      if inner && lineWidth + 1 < column then
        let guard := if rest.head? = some ' ' then ['\\'] else []
        escape ++ '\\' :: hang ++ guard ++ foldDouble (2 + guard.length) false true rest
      else escape ++ foldDouble column false true rest
    | none =>
      if inner && (c = ' ' || afterEscape) && lineWidth < column then
        let guard := if c = ' ' then ['\\'] else []
        '\\' :: hang ++ guard ++ c :: foldDouble (3 + guard.length) false false rest
      else c :: foldDouble (column + 1) false false rest

/-- **The plainest spelling from which a text reads back**, begun in some column. -/
def spell (column : Nat) (s : String) : String :=
  let cs := s.toList
  if isPlain cs && Tag.ofPlain s = .text then
    String.ofList (foldPlain column none cs)
  else if cs.all isOrdinary && !hasRaggedBreak cs then
    "'" ++ String.ofList (foldSingle (column + 1) none cs) ++ "'"
  else "\"" ++ String.ofList (foldDouble (column + 1) true false cs) ++ "\""

end MigrationPlan.Markup
