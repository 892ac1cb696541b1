import MigrationPlan.Fault
import MigrationPlan.Markup.Cursor
import MigrationPlan.Markup.Token
import MigrationPlan.Text.IntegerLiteral

/-!
# Markup/Name — anchors, aliases, tags and directives

A node may be given a name (an anchor) by which an alias stands for it, and a tag that says what it
is.  A tag is written in full between angles, or as the name of a handle and a suffix; directives
before a document say what handles stand for.
-/

namespace MigrationPlan.Markup

/-- The refusal of characters that form no token. -/
def noToken {α : Type} : Except Fault α :=
  .error (.malformed .scanning)

/-- A name, which is not empty. -/
def takeName (here : Cursor) : Except Fault (String × Cursor) :=
  match here.takeWhile isNameChar with
  | ([], _) => noToken
  | (name, there) => .ok (String.ofList name, there)

/-- The name of an anchor or alias, behind its sign. -/
def nodeName (here : Cursor) : Except Fault (String × Cursor) := do
  let (name, there) ← takeName here.next
  if spaceAhead there.rest || there.peek?.any "?:,]\x7d%@`".toList.contains then .ok (name, there)
  else noToken

/-! ## Tags -/

/-- Characters of tags besides letters, digits, hyphens and underscores. -/
def isTagChar (c : Char) : Bool :=
  isNameChar c || ";/?:@&=+$,.!~*'()[]%".toList.contains c

/-- The bytes that are written by a percent sign and two digits each, as characters. -/
def takeBytes : (fuel : Nat) → Cursor → Except Fault (List UInt8 × Cursor)
  | 0, here => .ok ([], here)
  | fuel + 1, here =>
    match here.rest with
    | '%' :: a :: b :: _ =>
      if isHex a && isHex b then do
        let (bytes, there) ← takeBytes fuel (here.advance 3)
        .ok ((16 * hexValue a + hexValue b).toUInt8 :: bytes, there)
      else noToken
    | '%' :: _ => noToken
    | _ => .ok ([], here)

/-- Characters of a tag up to one that is none. -/
def takeTagChars : (fuel : Nat) → Cursor → Except Fault (List Char × Cursor)
  | 0, here => .ok ([], here)
  | fuel + 1, here =>
    match here.peek? with
    | some c =>
      if c = '%' then do
        let (bytes, there) ← takeBytes (here.rest.length + 1) here
        match String.fromUTF8? ⟨bytes.toArray⟩ with
        | some s =>
          let (cs, there) ← takeTagChars fuel there
          .ok (s.toList ++ cs, there)
        | none => noToken
      else if isTagChar c then do
        let (cs, there) ← takeTagChars fuel here.next
        .ok (c :: cs, there)
      else .ok ([], here)
    | none => .ok ([], here)

/-- The characters of a tag, of which there has to be one. -/
def tagText (here : Cursor) : Except Fault (String × Cursor) := do
  let (cs, there) ← takeTagChars (here.rest.length + 1) here
  if there.index = here.index then noToken else .ok (String.ofList cs, there)

/-- A handle: a name between exclamation marks, or one such mark before a space. -/
def tagHandle (here : Cursor) : Except Fault (String × Cursor) :=
  if !here.isAt '!' then noToken
  else if here.next.isAt ' ' then .ok ("!", here.next)
  else
    let (name, there) := here.next.takeWhile isNameChar
    if there.isAt '!' then .ok (String.ofList ('!' :: name ++ ['!']), there.next) else noToken

/-- A tag, at its exclamation mark. -/
def takeTag (here : Cursor) : Except Fault (Token × Cursor) := do
  let inside := here.next
  let (tag, there) ←
    if inside.isAt '<' then do
      let (suffix, there) ← tagText inside.next
      if there.isAt '>' then .ok (Token.tag none suffix, there.next) else noToken
    else if spaceAhead inside.rest then .ok (.tag none "!", inside)
    else if (inside.takeWhile fun c => c ≠ ' ' && !isBreak c).1.contains '!' then do
      let (handle, there) ← tagHandle here
      let (suffix, there) ← tagText there
      .ok (.tag (some handle) suffix, there)
    else do
      let (suffix, there) ← tagText inside
      .ok (.tag (some "!") suffix, there)
  if gapAhead there.rest then .ok (tag, there) else noToken

/-! ## Directives -/

/-- A number in a directive. -/
def directiveNumber (here : Cursor) : Except Fault (Nat × Cursor) := do
  match here.takeWhile Char.isDigit with
  | ([], _) => noToken
  | (ds, there) => .ok (← Text.digitsToNat ds, there)

/-- The version in a directive: two numbers with a point between them. -/
def versionDirective (here : Cursor) : Except Fault (Directive × Cursor) := do
  let (major, there) ← directiveNumber here.skipSpaces
  if !there.isAt '.' then noToken
  let (_, there) ← directiveNumber there.next
  if gapAhead there.rest then .ok (.version major, there) else noToken

/-- A handle in a directive and what it stands for. -/
def handleDirective (here : Cursor) : Except Fault (Directive × Cursor) := do
  let (handle, there) ← tagHandle here.skipSpaces
  if !there.isAt ' ' then noToken
  let (stem, there) ← tagText there.skipSpaces
  if gapAhead there.rest then .ok (.handle handle stem, there) else noToken

/-- A directive, at its percent sign, and the rest of its line. -/
def takeDirective (here : Cursor) : Except Fault (Directive × Cursor) := do
  let (name, there) ← takeName here.next
  if !gapAhead there.rest then noToken
  let (directive, there) ←
    if name = "YAML" then versionDirective there
    else if name = "TAG" then handleDirective there
    else .ok (.other, there.skipWhile (!isBreak ·))
  let there := there.skipSpaces.skipComment
  if lineEndsAt there.rest then .ok (directive, there.takeBreak.2) else noToken

end MigrationPlan.Markup
