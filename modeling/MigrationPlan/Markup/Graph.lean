import MigrationPlan.Markup.Stream
import MigrationPlan.Markup.Tag

/-!
# Markup/Graph — the nodes of a document

The tokens of a document spell out its nodes.  An anchor gives a node a name, and an alias stands
for the node of that name, so that nodes make up a graph: `Graph.ofStream?`.  A stream holds one
document at most.
-/

namespace MigrationPlan.Markup

/-- What a node holds; other nodes are given by their numbers. -/
inductive Body where
  | scalar (text : Option String)
  | sequence (items : List Nat)
  | mapping (entries : List (Nat × Nat))
deriving DecidableEq, Repr

/-- A node. -/
structure Node where
  tag : Tag
  body : Body
deriving DecidableEq, Repr

/-- The nodes of a document, of which one is its root. -/
structure Graph where
  nodes : Array Node
  root : Nat

/-- A graph partly made, with the tokens that are left. -/
structure Assembly where
  tokens : List Token
  failure : Option Fault
  nodes : Array Node := #[]
  anchors : List (String × Nat) := []
  handles : List (String × String) := []
  depth : Nat := 0

/-- The most collections that may stand inside each other. -/
def nestingLimit : Nat := 492

/-- A step in making a graph. -/
abbrev Assemble := StateT Assembly (Except Fault)

namespace Assemble

/-! ## Tokens -/

/-- The refusal of tokens in an order that no document has. -/
def misplaced {α : Type} : Assemble α :=
  throw (.malformed .parsing)

/-- The next token; if there are no more, the text made no sense from there on. -/
def peek : Assemble Token := do
  let s ← get
  match s.tokens, s.failure with
  | t :: _, _ => return t
  | [], some fault => throw fault
  | [], none => misplaced

/-- Goes on to the next token. -/
def skip : Assemble Unit :=
  modify fun s => { s with tokens := s.tokens.tail }

/-- Goes on if the next token is a given one, and says whether it is. -/
def accept (t : Token) : Assemble Bool := do
  if (← peek) = t then
    skip
    return true
  return false

/-- The next token is one of some. -/
def isAmong (ts : List Token) : Assemble Bool := do
  return ts.contains (← peek)

/-! ## Nodes -/

/-- What stands in front of a node: a name and a tag. -/
structure Properties where
  anchor : Option String := none
  tag : Option String := none

namespace Properties

def isEmpty (p : Properties) : Bool :=
  p.anchor.isNone && p.tag.isNone

/-- The kind of a collection. -/
def tagOr (kind : Tag) (p : Properties) : Tag :=
  match p.tag with
  | none => kind
  | some name => if name = "!" then kind else .ofName name

/-- The kind of a scalar.  An exclamation mark alone makes it as good as plain. -/
def tagOfWord (w : Word) (p : Properties) : Tag :=
  let spelled := w.text.elim .text .ofPlain
  match p.tag with
  | none => if w.plain then spelled else .text
  | some name => if name = "!" then spelled else .ofName name

end Properties

/-- The full name of a tag. -/
def tagName : (handle : Option String) → (suffix : String) → Assemble String
  | none, suffix => return suffix
  | some handle, suffix => do
    match (← get).handles.lookup handle with
    | some stem => return stem ++ suffix
    | none => misplaced

/-- The anchor that comes next, if one does. -/
def takeAnchor : Assemble (Option String) := do
  match ← peek with
  | .anchor name =>
    skip
    return some name
  | _ => return none

/-- The tag that comes next, if one does. -/
def takeTag : Assemble (Option (Option String × String)) := do
  match ← peek with
  | .tag handle suffix =>
    skip
    return some (handle, suffix)
  | _ => return none

/-- An anchor and a tag in either order. -/
def takeProperties : Assemble Properties := do
  let first ← takeAnchor
  let tag ← takeTag
  let anchor ← if first.isNone && tag.isSome then takeAnchor else pure first
  match tag with
  | some (handle, suffix) => return ⟨anchor, some (← tagName handle suffix)⟩
  | none => return ⟨anchor, none⟩

/-- A new node, by its number.  A name that is given twice is refused. -/
def addNode (p : Properties) (node : Node) : Assemble Nat := do
  let s ← get
  let i := s.nodes.size
  let anchors ← match p.anchor with
    | none => pure s.anchors
    | some name =>
      if (s.anchors.lookup name).isSome then throw (.malformed .composing)
      else pure ((name, i) :: s.anchors)
  set { s with nodes := s.nodes.push node, anchors }
  return i

/-- Nothing at all, where a node may be left out. -/
def addEmpty : Assemble Nat :=
  addNode {} ⟨.missing, .scalar (some "")⟩

/-- Fills in what a node holds. -/
def fill (i : Nat) (body : Body) : Assemble Unit :=
  modify fun s => { s with nodes := s.nodes.modify i fun node => { node with body } }

/-- The node that an alias stands for. -/
def aliased (name : String) : Assemble Nat := do
  match (← get).anchors.lookup name with
  | some i => return i
  | none => throw (.malformed .composing)

/-- Where a node stands: in a block, behind a key or its colon in a block, or between brackets. -/
inductive Setting where
  | block
  | entry
  | brackets
deriving DecidableEq, Repr

/-- Goes into a collection. -/
def descend : Assemble Unit := do
  let depth := (← get).depth + 1
  if nestingLimit < depth then throw .nestedTooDeep
  modify fun s => { s with depth }

/-- Comes back out of a collection. -/
def ascend : Assemble Unit :=
  modify fun s => { s with depth := s.depth - 1 }

/-- A collection, whose name is known before what it holds. -/
def collection (p : Properties) (kind : Tag) (content : Assemble Body) : Assemble Nat := do
  descend
  let i ← addNode p ⟨p.tagOr kind, .sequence []⟩
  fill i (← content)
  ascend
  return i

/-- What has a name or a tag may be left out; anything else may not. -/
def leftOut (p : Properties) : Assemble Nat :=
  if p.isEmpty then misplaced else addNode p ⟨p.tagOfWord ⟨some "", true⟩, .scalar (some "")⟩

mutual

/-- The next node.  Behind a key or its colon a sequence need not be indented any further. -/
def node : (fuel : Nat) → Setting → Assemble Nat
  | 0, _ => misplaced
  | fuel + 1, setting => do
    if let .alias name := ← peek then
      skip
      aliased name
    else
      let p ← takeProperties
      match ← peek, setting with
      | .scalar w, _ =>
        skip
        addNode p ⟨p.tagOfWord w, .scalar w.text⟩
      | .openSequence, _ => collection p .sequence do
        skip
        return .sequence (← bracketItems fuel true)
      | .openMapping, _ => collection p .mapping do
        skip
        return .mapping (← bracketEntries fuel true)
      | .item, .entry => collection p .sequence do
        return .sequence (← looseItems fuel)
      | .blockSequence, .brackets => leftOut p
      | .blockSequence, _ => collection p .sequence do
        skip
        return .sequence (← blockItems fuel)
      | .blockMapping, .brackets => leftOut p
      | .blockMapping, _ => collection p .mapping do
        skip
        return .mapping (← blockEntries fuel)
      | _, _ => leftOut p

/-- The next node, which is left out if one of some tokens comes next. -/
def nodeUnless : (fuel : Nat) → Setting → List Token → Assemble Nat
  | 0, _, _ => misplaced
  | fuel + 1, setting, ts => do
    if ← isAmong ts then addEmpty else node fuel setting

/-- The items of a block sequence up to its end. -/
def blockItems : (fuel : Nat) → Assemble (List Nat)
  | 0 => misplaced
  | fuel + 1 => do
    if ← accept .item then
      let i ← nodeUnless fuel .block [.item, .blockEnd]
      return i :: (← blockItems fuel)
    else if ← accept .blockEnd then return []
    else misplaced

/-- The items of a sequence that is not indented, which has no end of its own. -/
def looseItems : (fuel : Nat) → Assemble (List Nat)
  | 0 => misplaced
  | fuel + 1 => do
    if ← accept .item then
      let i ← nodeUnless fuel .block [.item, .key, .value, .blockEnd]
      return i :: (← looseItems fuel)
    else return []

/-- The entries of a block mapping up to its end. -/
def blockEntries : (fuel : Nat) → Assemble (List (Nat × Nat))
  | 0 => misplaced
  | fuel + 1 => do
    if ← accept .key then
      let key ← nodeUnless fuel .entry [.key, .value, .blockEnd]
      let value ←
        if ← accept .value then nodeUnless fuel .entry [.key, .value, .blockEnd] else addEmpty
      return (key, value) :: (← blockEntries fuel)
    else if ← accept .blockEnd then return []
    else misplaced

/-- The items of a sequence up to its closing bracket.  An item may be a single entry of a
mapping. -/
def bracketItems : (fuel : Nat) → (first : Bool) → Assemble (List Nat)
  | 0, _ => misplaced
  | fuel + 1, first => do
    if ← accept .closeSequence then return []
    if !first then
      if !(← accept .comma) then misplaced
    if ← accept .closeSequence then return []
    if ← accept .key then
      let i ← collection {} .mapping do
        let key ← nodeUnless fuel .brackets [.value, .comma, .closeSequence]
        let value ←
          if ← accept .value then nodeUnless fuel .brackets [.comma, .closeSequence] else addEmpty
        return .mapping [(key, value)]
      return i :: (← bracketItems fuel false)
    else
      let i ← node fuel .brackets
      return i :: (← bracketItems fuel false)

/-- The entries of a mapping up to its closing bracket.  A node without a colon is a key without a
value. -/
def bracketEntries : (fuel : Nat) → (first : Bool) → Assemble (List (Nat × Nat))
  | 0, _ => misplaced
  | fuel + 1, first => do
    if ← accept .closeMapping then return []
    if !first then
      if !(← accept .comma) then misplaced
    if ← accept .closeMapping then return []
    if ← accept .key then
      let key ← nodeUnless fuel .brackets [.value, .comma, .closeMapping]
      let value ←
        if ← accept .value then nodeUnless fuel .brackets [.comma, .closeMapping] else addEmpty
      return (key, value) :: (← bracketEntries fuel false)
    else
      let key ← node fuel .brackets
      let value ← addEmpty
      return (key, value) :: (← bracketEntries fuel false)

end

/-! ## Documents -/

/-- The handles that every document has. -/
def commonHandles : List (String × String) :=
  [("!", "!"), ("!!", Tag.stem)]

/-- The directives before a document: the version at most once, and each handle at most once. -/
def directives : (fuel : Nat) → (versionSeen : Bool) → Assemble Unit
  | 0, _ => misplaced
  | fuel + 1, versionSeen => do
    match ← peek with
    | .directive (.version major) =>
      skip
      if versionSeen || major ≠ 1 then misplaced else directives fuel true
    | .directive (.handle name stem) =>
      skip
      if ((← get).handles.lookup name).isSome then misplaced
      else
        modify fun s => { s with handles := (name, stem) :: s.handles }
        directives fuel versionSeen
    | .directive .other =>
      skip
      directives fuel versionSeen
    | _ => modify fun s => { s with handles := s.handles ++ commonHandles }

/-- Passes over the ends of documents. -/
def skipEnds : (fuel : Nat) → Assemble Unit
  | 0 => misplaced
  | fuel + 1 => do
    if ← accept .documentEnd then skipEnds fuel

/-- The start of a document that announces itself, or the end of the stream. -/
def start (fuel : Nat) : Assemble Bool := do
  skipEnds fuel
  if (← peek) = .streamEnd then return false
  modify fun s => { s with handles := [] }
  directives fuel false
  if ← accept .documentStart then return true
  misplaced

/-- The root of the only document, which may hold nothing, or not be there at all. -/
def document (fuel : Nat) : Assemble (Option Nat) := do
  let first ← peek
  let root ←
    if isFrame first && first ≠ .documentEnd then
      if ← start fuel then
        if isFrame (← peek) then some <$> addEmpty else some <$> node fuel .block
      else pure none
    else some <$> node fuel .block
  if root.isSome then
    let _ ← accept .documentEnd
    if ← start fuel then throw (.malformed .composing)
  return root
where
  /-- What stands around documents. -/
  isFrame : Token → Bool
    | .directive _ | .documentStart | .documentEnd | .streamEnd => true
    | _ => false

end Assemble

/-- **The graph of the document in a stream**, if there is one. -/
def Graph.ofStream? (s : Stream) : Except Fault (Option Graph) := do
  let fuel := 3 * s.tokens.length + 8
  let start : Assembly :=
    { tokens := s.tokens, failure := s.failure, handles := Assemble.commonHandles }
  let (root, end_) ← (Assemble.document fuel).run start
  .ok (root.map fun root => ⟨end_.nodes, root⟩)

end MigrationPlan.Markup
