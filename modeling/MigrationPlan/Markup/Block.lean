import MigrationPlan.Fault
import MigrationPlan.Markup.Cursor
import MigrationPlan.Markup.Token

/-!
# Markup/Block — scalars that are written as blocks of lines

Behind a bar the lines of an indented block are a text as they stand; behind an angle they are
folded, except for those that begin with a blank.  What line ends there are at the end of the block
is kept, dropped or cut down to one, as the block's head says.
-/

namespace MigrationPlan.Markup

/-- What becomes of the line ends at the end of a block. -/
inductive Chomping where
  | clip
  | strip
  | keep
deriving DecidableEq, Repr

/-- What the head of a block says. -/
structure BlockHead where
  chomping : Chomping := .clip
  increment : Option Nat := none
deriving DecidableEq, Repr

namespace BlockHead

/-- The sign for what becomes of the line ends. -/
def takeChomping (here : Cursor) : Chomping × Cursor :=
  if here.isAt '+' then (.keep, here.next)
  else if here.isAt '-' then (.strip, here.next)
  else (.clip, here)

/-- The digit by how much the block is indented; there is none for not at all. -/
def takeIncrement (here : Cursor) : Except Fault (Option Nat × Cursor) :=
  match here.peek? with
  | some c =>
    if c = '0' then .error (.malformed .scanning)
    else if c.isDigit then .ok (some (c.toNat - '0'.toNat), here.next)
    else .ok (none, here)
  | none => .ok (none, here)

/-- The head of a block, whose two signs stand in either order, up to the end of its line. -/
def take (here : Cursor) : Except Fault (BlockHead × Cursor) := do
  let (first, here) := takeChomping here
  let (increment, here) ← takeIncrement here
  let (second, here) :=
    if first = .clip && increment.isSome then takeChomping here else (first, here)
  if !gapAhead here.rest then .error (.malformed .scanning)
  let here := here.skipSpaces.skipComment
  if !lineEndsAt here.rest then .error (.malformed .scanning)
  .ok (⟨second, increment⟩, here.takeBreak.2)

end BlockHead

/-- Spaces and line ends at the start of a block: the line ends, the greatest column among the
spaces, and the place behind.  There are at most `fuel` of them. -/
def leadingBreaks : (fuel widest : Nat) → Cursor → List Char × Nat × Cursor
  | 0, widest, here => ([], widest, here)
  | fuel + 1, widest, here =>
    match here.peek? with
    | some c =>
      if c = ' ' then leadingBreaks fuel (max widest here.next.column) here.next
      else if isBreak c then
        let (breaks, widest, there) := leadingBreaks fuel widest here.next
        (lineEnd c :: breaks, widest, there)
      else ([], widest, here)
    | none => ([], widest, here)

/-- Spaces up to a column. -/
def skipIndent (indent : Nat) (here : Cursor) : Cursor :=
  here.advance (min (here.takeWhile (· = ' ')).1.length (indent - here.column))

/-- Line ends, with spaces up to a column before and behind each, and the place behind. -/
def takeBreaks (indent : Nat) : (fuel : Nat) → Cursor → List Char × Cursor
  | 0, here => ([], here)
  | fuel + 1, here =>
    let here := skipIndent indent here
    match here.takeBreak with
    | ([], _) => ([], here)
    | (c, there) =>
      let (breaks, there) := takeBreaks indent fuel there
      (c ++ breaks, there)

/-- A block that was read: its text, last character first, the end of its last line, and the line
ends behind it. -/
structure BlockDraft where
  text : List Char := []
  lineEnd : List Char := []
  breaks : List Char := []
deriving DecidableEq, Repr

/-- The lines of a block that begin in a column; at most `fuel` of them. -/
def blockLines (folded : Bool) (indent : Nat) : (fuel : Nat) → BlockDraft → Cursor →
    BlockDraft × Cursor
  | 0, d, here => (d, here)
  | fuel + 1, d, here =>
    let inside := fun (c : Cursor) => c.column = indent && !c.rest.isEmpty
    let startsBlank := fun (c : Cursor) => c.isAt ' ' || c.isAt '\t'
    if !inside here then (d, here)
    else
      let (line, there) := here.takeWhile (!isBreak ·)
      let (lineEnd, there) := there.takeBreak
      let (breaks, there) := takeBreaks indent (there.rest.length + 1) there
      let text := line.reverse ++ (d.breaks.reverse ++ d.text)
      if !inside there then (⟨text, lineEnd, breaks⟩, there)
      else
        let joined :=
          if folded && lineEnd = ['\n'] && !startsBlank here && !startsBlank there then
            if breaks.isEmpty then [' '] else []
          else lineEnd
        blockLines folded indent fuel ⟨joined ++ text, lineEnd, breaks⟩ there

/-- The scalar whose sign is here, in a block that is indented to a column, or not at all. -/
def block (folded : Bool) (indent : Int) (here : Cursor) : Except Fault (Word × Cursor) := do
  let (head, here) ← BlockHead.take here.next
  let least := max 1 (indent + 1).toNat
  let fuel := here.rest.length + 1
  let (breaks, column, here) := match head.increment with
    | some n =>
      let column := least + n - 1
      let (breaks, here) := takeBreaks column fuel here
      (breaks, column, here)
    | none =>
      let (breaks, widest, here) := leadingBreaks fuel 0 here
      (breaks, max least widest, here)
  let (d, there) := blockLines folded column fuel ⟨[], [], breaks⟩ here
  let text := d.text.reverse ++ match head.chomping with
    | .strip => []
    | .clip => d.lineEnd
    | .keep => d.lineEnd ++ d.breaks
  .ok (⟨some (String.ofList text), false⟩, there)

end MigrationPlan.Markup
