import MigrationPlan.Markup.Block
import MigrationPlan.Markup.Name
import MigrationPlan.Markup.Word

/-!
# Markup/Stream — the tokens of a text, as far as they go

A text is taken apart from left to right.  That a word is a key shows only at the colon behind it,
which has to follow on the same line within 1024 characters; until then the word is a candidate, and
neither it nor what follows can be told.  A text that stops making sense still has the tokens before
that place, and its `failure` counts only if they are not enough to refuse it.
-/

namespace MigrationPlan.Markup

/-- A word that may turn out to be a key.  A required one begins a line of a block mapping. -/
structure KeyCandidate where
  number : Nat
  required : Bool
  place : Place
deriving DecidableEq, Repr

/-- A text partly taken apart: the tokens so far, the last one first, and what they leave open.
Brackets may be closed that were never opened. -/
structure Scan where
  here : Cursor
  tokens : List Token := []
  count : Nat := 0
  brackets : Int := 0
  indent : Int := -1
  indents : List Int := []
  keyAllowed : Bool := true
  candidates : List (Int × KeyCandidate) := []

/-- The tokens of a text up to a place where it makes no sense, and the fault there. -/
structure Stream where
  tokens : List Token
  failure : Option Fault

namespace Scan

/-! ## Tokens and keys -/

/-- One more token. -/
def push (t : Token) (s : Scan) : Scan :=
  { s with tokens := t :: s.tokens, count := s.count + 1 }

/-- A token before the one of a given number. -/
def insert (number : Nat) (t : Token) (s : Scan) : Scan :=
  let later := s.count - number
  { s with
    tokens := s.tokens.take later ++ t :: s.tokens.drop later
    count := s.count + 1 }

/-- Outside of all brackets the layout counts. -/
def inBlock (s : Scan) : Bool :=
  s.brackets = 0

/-- Gives up the candidates for which a colon can no longer follow; a required one has to be a key.
-/
def dropStale (s : Scan) : Except Fault Scan :=
  let isStale := fun (c : KeyCandidate) =>
    c.place.line ≠ s.here.line || 1024 < s.here.index - c.place.index
  let (stale, fresh) := s.candidates.partition fun (_, c) => isStale c
  if stale.any fun (_, c) => c.required then noToken else .ok { s with candidates := fresh }

/-- Gives up the candidate at the present depth of brackets. -/
def dropCandidate (s : Scan) : Except Fault Scan :=
  match s.candidates.lookup s.brackets with
  | some c =>
    if c.required then noToken
    else .ok { s with candidates := s.candidates.filter fun (depth, _) => depth ≠ s.brackets }
  | none => .ok s

/-- The next token is a candidate, where a key may stand. -/
def markCandidate (s : Scan) : Except Fault Scan := do
  if s.keyAllowed then
    let required := s.inBlock && s.indent = s.here.column
    let s ← s.dropCandidate
    .ok { s with candidates := (s.brackets, ⟨s.count, required, s.here.toPlace⟩) :: s.candidates }
  else .ok s

/-! ## Indentation -/

/-- Ends the blocks that are indented further than a column. -/
def closeBlocks (column : Int) : (indents : List Int) → Scan → Scan
  | [], s => s
  | outer :: indents, s =>
    if s.inBlock && column < s.indent then
      closeBlocks column indents { s.push .blockEnd with indent := outer, indents }
    else s

/-- Ends the blocks that are indented further than a column. -/
def unwind (column : Int) (s : Scan) : Scan :=
  closeBlocks column s.indents s

/-- A column that is further right than the present indentation becomes the new one. -/
def indentTo? (column : Nat) (s : Scan) : Option Scan :=
  if s.indent < column then some { s with indents := s.indent :: s.indents, indent := column }
  else none

/-- Begins a block in the present column, unless there is one. -/
def openBlock (t : Token) (s : Scan) : Scan :=
  match s.indentTo? s.here.column with
  | some s => s.push t
  | none => s

/-! ## Signs -/

/-- The place behind spaces, comments and line ends; behind a line end in a block there may be a
key.  At most `fuel` lines are passed. -/
def skipBlank : (fuel : Nat) → Scan → Scan
  | 0, s => s
  | fuel + 1, s =>
    let here := s.here.skipSpaces.skipComment
    match here.takeBreak with
    | ([], _) => { s with here }
    | (_, there) => skipBlank fuel { s with here := there, keyAllowed := s.keyAllowed || s.inBlock }

/-- Goes on to where the next token begins, less than `fuel` lines further; a byte order mark at the
start is passed over. -/
def toNextToken (fuel : Nat) (s : Scan) : Scan :=
  let isMark := fun (c : Char) => c.toNat = 0xFEFF
  let here := if s.here.index = 0 && s.here.peek?.any isMark then s.here.next else s.here
  skipBlank fuel { s with here }

/-- Goes on by some characters that are a token. -/
def sign (count : Nat) (t : Token) (s : Scan) : Scan :=
  { s with here := s.here.advance count }.push t

/-- The text is at its end. -/
def finish (s : Scan) : Except Fault Scan := do
  let s ← (s.unwind (-1)).dropCandidate
  .ok { s.push .streamEnd with keyAllowed := false, candidates := [] }

/-- A directive. -/
def directive (s : Scan) : Except Fault Scan := do
  let s ← (s.unwind (-1)).dropCandidate
  let (d, there) ← takeDirective s.here
  .ok { s.push (.directive d) with here := there, keyAllowed := false }

/-- The start or end of a document. -/
def marker (t : Token) (s : Scan) : Except Fault Scan := do
  let s ← (s.unwind (-1)).dropCandidate
  .ok { s.sign 3 t with keyAllowed := false }

/-- An opening bracket. -/
def openBracket (t : Token) (s : Scan) : Except Fault Scan := do
  let s ← s.markCandidate
  .ok { s.sign 1 t with brackets := s.brackets + 1, keyAllowed := true }

/-- A closing bracket. -/
def closeBracket (t : Token) (s : Scan) : Except Fault Scan := do
  let s ← s.dropCandidate
  .ok { s.sign 1 t with brackets := s.brackets - 1, keyAllowed := false }

/-- A comma between brackets. -/
def commaSign (s : Scan) : Except Fault Scan := do
  let s ← s.dropCandidate
  .ok { s.sign 1 .comma with keyAllowed := true }

/-- The hyphen before an item. -/
def itemSign (s : Scan) : Except Fault Scan := do
  if s.inBlock && !s.keyAllowed then noToken
  let s := if s.inBlock then s.openBlock .blockSequence else s
  let s ← s.dropCandidate
  .ok { s.sign 1 .item with keyAllowed := true }

/-- The question mark before a key. -/
def keySign (s : Scan) : Except Fault Scan := do
  if s.inBlock && !s.keyAllowed then noToken
  let s := if s.inBlock then s.openBlock .blockMapping else s
  let s ← s.dropCandidate
  .ok { s.sign 1 .key with keyAllowed := s.inBlock }

/-- The colon before a value.  It makes a key of the candidate, if there is one. -/
def valueSign (s : Scan) : Except Fault Scan := do
  match s.candidates.lookup s.brackets with
  | some c =>
    let s := { s with candidates := s.candidates.filter fun (depth, _) => depth ≠ s.brackets }
    let s := s.insert c.number .key
    let s := if s.inBlock then
        match s.indentTo? c.place.column with
        | some s => s.insert c.number .blockMapping
        | none => s
      else s
    .ok { s.sign 1 .value with keyAllowed := false }
  | none =>
    if s.inBlock && !s.keyAllowed then noToken
    let s := if s.inBlock then s.openBlock .blockMapping else s
    .ok { s.sign 1 .value with keyAllowed := s.inBlock }

/-! ## Words -/

/-- A word that may be a key. -/
def word (read : Cursor → Except Fault (Token × Cursor)) (s : Scan) : Except Fault Scan := do
  let s ← s.markCandidate
  let (t, there) ← read s.here
  .ok { s.push t with here := there, keyAllowed := false }

/-- A plain scalar; behind a line end there may be a key. -/
def plainWord (around : Surroundings) (s : Scan) : Except Fault Scan := do
  let s ← s.markCandidate
  let (w, there, passed) := plain around s.here
  .ok { s.push (.scalar w) with here := there, keyAllowed := passed }

/-- A scalar that is written as a block. -/
def blockWord (folded : Bool) (s : Scan) : Except Fault Scan := do
  let s ← s.dropCandidate
  let (w, there) ← block folded s.indent s.here
  .ok { s.push (.scalar w) with here := there, keyAllowed := true }

/-- A scalar between quotes. -/
def quotedWord (double : Bool) : Scan → Except Fault Scan :=
  word fun here => do
    let (w, there) ← quoted double here
    .ok (.scalar w, there)

/-- An alias or anchor. -/
def nameWord (token : String → Token) : Scan → Except Fault Scan :=
  word fun here => do
    let (name, there) ← nodeName here
    .ok (token name, there)

/-- Where a plain scalar would stand. -/
def surroundings (s : Scan) : Surroundings :=
  if s.inBlock then .block (s.indent + 1).toNat else .brackets

/-! ## Steps -/

/-- The next token, and what goes with it. -/
def token (s : Scan) : Except Fault Scan :=
  let atStart := s.here.column = 0
  match s.here.rest with
  | [] => s.finish
  | c :: rest =>
    let spaced := !s.inBlock || spaceAhead rest
    if c = '%' && atStart then s.directive
    else if atStart && isMarker '-' (c :: rest) then s.marker .documentStart
    else if atStart && isMarker '.' (c :: rest) then s.marker .documentEnd
    else if c = '[' then s.openBracket .openSequence
    else if c = '\x7b' then s.openBracket .openMapping
    else if c = ']' then s.closeBracket .closeSequence
    else if c = '\x7d' then s.closeBracket .closeMapping
    else if c = ',' then s.commaSign
    else if c = '-' && spaceAhead rest then s.itemSign
    else if c = '?' && spaced then s.keySign
    else if c = ':' && spaced then s.valueSign
    else if c = '*' then nameWord .alias s
    else if c = '&' then nameWord .anchor s
    else if c = '!' then word takeTag s
    else if c = '|' && s.inBlock then s.blockWord false
    else if c = '>' && s.inBlock then s.blockWord true
    else if c = '\'' then quotedWord false s
    else if c = '"' then quotedWord true s
    else if startsPlain s.surroundings (c :: rest) then s.plainWord s.surroundings
    else noToken

/-- Goes on to the next token and takes it. -/
def step (fuel : Nat) (s : Scan) : Except Fault Scan := do
  let s ← (s.toNextToken fuel).dropStale
  let s ← (s.unwind s.here.column).token
  s.dropStale

/-- The tokens that do not hang on a candidate. -/
def settled (s : Scan) : List Token :=
  let pending := s.candidates.map fun (_, c) => c.number
  s.tokens.reverse.take (pending.foldl min s.count)

/-- Takes a text apart; it has fewer than `fuel` characters. -/
def run : (fuel : Nat) → Scan → Stream
  | 0, s => ⟨s.settled, none⟩
  | fuel + 1, s =>
    match s.step (fuel + 1) with
    | .error fault => ⟨s.settled, some fault⟩
    | .ok next =>
      if next.tokens.head? = some .streamEnd then ⟨next.tokens.reverse, none⟩ else run fuel next

end Scan

/-- **The tokens of a text.** -/
def Stream.ofText (cs : List Char) : Stream :=
  Scan.run (cs.length + 2) { here := .ofText cs }

end MigrationPlan.Markup
