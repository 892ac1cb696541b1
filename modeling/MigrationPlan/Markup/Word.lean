import MigrationPlan.Fault
import MigrationPlan.Markup.Cursor
import MigrationPlan.Markup.Token

/-!
# Markup/Word — scalars that are plain or stand between quotes

Such a scalar may go on over several lines, which are then folded: a single line end counts as a
space, and of several in a row all but the first count.  Scalars are read character by character;
what the blanks and line ends before a character amount to (`Held`) is settled by that character.
-/

namespace MigrationPlan.Markup

/-- What was read but not yet settled. -/
inductive Held where
  | nothing
  /-- Blanks in the middle of a line. -/
  | blanks (cs : List Char)
  /-- Line ends, behind a backslash or not. -/
  | breaks (escaped : Bool) (cs : List Char)
  /-- A backslash. -/
  | escape
  /-- Part of a character code, with the number of digits to come. -/
  | code (digits value : Nat)
  /-- A single quote, which ends the scalar unless another follows. -/
  | quote
deriving DecidableEq, Repr

namespace Held

/-- Line ends in a row, folded. -/
def fold : List Char → List Char
  | [] => []
  | ['\n'] => [' ']
  | '\n' :: more => more
  | cs => cs

/-- The text that blanks and line ends amount to. -/
def text : Held → List Char
  | blanks cs => cs
  | breaks false cs => fold cs
  | breaks true cs => cs.drop 1
  | _ => []

/-- One more line end; the blanks before it are dropped. -/
def addBreak (c : Char) : Held → Held
  | breaks escaped cs => breaks escaped (cs ++ [lineEnd c])
  | _ => breaks false [lineEnd c]

/-- One more blank; a blank at the start of a line is dropped. -/
def addBlank (c : Char) : Held → Held
  | blanks cs => blanks (cs ++ [c])
  | breaks escaped cs => breaks escaped cs
  | _ => blanks [c]

def isBreaks : Held → Bool
  | breaks .. => true
  | _ => false

end Held

/-- What was read of a scalar, last character first, and whether all of it are characters. -/
structure Draft where
  text : List Char := []
  whole : Bool := true
deriving DecidableEq, Repr

namespace Draft

/-- More text. -/
def add (cs : List Char) (d : Draft) : Draft :=
  { d with text := cs.reverse ++ d.text }

/-- The character of a code.  Half of a surrogate pair is no character. -/
def addCode (n : Nat) (d : Draft) : Except Fault Draft :=
  if n.isValidChar then .ok (d.add [Char.ofNat n])
  else if n < 0x110000 then .ok { d with whole := false }
  else if n < 0x80000000 then .error .codePointTooLarge
  else .error .numberTooLarge

/-- The scalar as a word. -/
def word (plain : Bool) (d : Draft) : Word :=
  ⟨if d.whole then some (String.ofList d.text.reverse) else none, plain⟩

end Draft

/-! ## Between quotes -/

/-- The character that a letter behind a backslash stands for. -/
def escapedChar? (c : Char) : Option Char :=
  [('0', 0x00), ('a', 0x07), ('b', 0x08), ('t', 0x09), ('\t', 0x09), ('n', 0x0A), ('v', 0x0B),
   ('f', 0x0C), ('r', 0x0D), ('e', 0x1B), (' ', 0x20), ('"', 0x22), ('/', 0x2F), ('\\', 0x5C),
   ('N', 0x85), ('_', 0xA0), ('L', 0x2028), ('P', 0x2029)].lookup c |>.map Char.ofNat

/-- The number of digits of the code behind a backslash and a letter. -/
def codeDigits? : Char → Option Nat
  | 'x' => some 2
  | 'u' => some 4
  | 'U' => some 8
  | _ => none

/-- A scalar between quotes, from the character behind the first one. -/
def quotedFrom (double : Bool) (held : Held) (d : Draft) (p : Place) :
    List Char → Except Fault (Word × Cursor)
  | [] => if held = .quote then .ok (d.word false, ⟨p, []⟩) else .error (.malformed .scanning)
  | c :: cs =>
    let after := p.behind c
    match held with
    | .quote =>
      if c = '\'' then quotedFrom double .nothing (d.add [c]) after cs
      else .ok (d.word false, ⟨p, c :: cs⟩)
    | .code digits value =>
      let value := 16 * value + hexValue c
      if !isHex c then .error (.malformed .scanning)
      else if 1 < digits then quotedFrom double (.code (digits - 1) value) d after cs
      else match d.addCode value with
        | .ok d => quotedFrom double .nothing d after cs
        | .error fault => .error fault
    | .escape =>
      if isBreak c then quotedFrom double (.breaks true [lineEnd c]) d after cs
      else match escapedChar? c, codeDigits? c with
        | some e, _ => quotedFrom double .nothing (d.add [e]) after cs
        | none, some n => quotedFrom double (.code n 0) d after cs
        | none, none => .error (.malformed .scanning)
    | held =>
      if held.isBreaks && p.column = 0 && isAnyMarker (c :: cs) then .error (.malformed .scanning)
      else if isBreak c then quotedFrom double (held.addBreak c) d after cs
      else if c = ' ' || c = '\t' then quotedFrom double (held.addBlank c) d after cs
      else
        let d := d.add held.text
        if double && c = '"' then .ok (d.word false, ⟨after, cs⟩)
        else if double && c = '\\' then quotedFrom double .escape d after cs
        else if !double && c = '\'' then quotedFrom double .quote d after cs
        else quotedFrom double .nothing (d.add [c]) after cs

/-- The scalar between quotes that begins here. -/
def quoted (double : Bool) (here : Cursor) : Except Fault (Word × Cursor) :=
  quotedFrom double .nothing {} here.next.toPlace here.next.rest

/-! ## Plain -/

/-- Where a plain scalar stands: in a block, whose words stand right of some column, or between
brackets. -/
inductive Surroundings where
  | block (least : Nat)
  | brackets
deriving DecidableEq, Repr

/-- The characters that divide words between brackets. -/
def bracketIndicators : List Char :=
  [',', '?', '[', ']', '\x7b', '\x7d']

/-- A colon before a space ends a plain scalar, and between brackets other signs do, too. -/
def endsPlain (around : Surroundings) (c : Char) (rest : List Char) : Bool :=
  match around with
  | .block _ => c = ':' && spaceAhead rest
  | .brackets =>
    (c = ':' && (spaceAhead rest || rest.head?.any ",[]\x7b\x7d".toList.contains))
      || bracketIndicators.contains c

/-- A further line of a block that does not belong to its plain scalar. -/
def endsBlock (around : Surroundings) (column : Nat) : Bool :=
  match around with
  | .block least => column < least
  | .brackets => false

/-- A plain scalar from inside: its word, the place behind the blanks and line ends that follow it,
and whether a line end is among these. -/
def plainFrom (around : Surroundings) (held : Held) (d : Draft) (p : Place) :
    List Char → Word × Cursor × Bool
  | [] => (d.word true, ⟨p, []⟩, held.isBreaks)
  | c :: cs =>
    let after := p.behind c
    if isBreak c then plainFrom around (held.addBreak c) d after cs
    else if c = ' ' then plainFrom around (held.addBlank c) d after cs
    else if c = '\t' || endsPlain around c cs || (held ≠ .nothing && c = '#')
        || (held.isBreaks && (endsBlock around p.column || (p.column = 0 && isAnyMarker (c :: cs))))
    then (d.word true, ⟨p, c :: cs⟩, held.isBreaks)
    else plainFrom around .nothing ((d.add held.text).add [c]) after cs

/-- The plain scalar that begins here. -/
def plain (around : Surroundings) (here : Cursor) : Word × Cursor × Bool :=
  plainFrom around .nothing {} here.toPlace here.rest

/-- Characters that may not begin a plain scalar. -/
def isIndicator (c : Char) : Bool :=
  "#,[]\x7b\x7d&*!|>'\"%@`".toList.contains c

/-- A plain scalar can begin here. -/
def startsPlain (around : Surroundings) : List Char → Bool
  | [] => false
  | c :: rest =>
    if c = '-' then !spaceAhead rest
    else if c = '?' || c = ':' then around ≠ .brackets && !spaceAhead rest
    else !isIndicator c && !isSpace c

end MigrationPlan.Markup
