import MigrationPlan.Markup.Graph
import MigrationPlan.Markup.Scalar

/-!
# Markup/Content — what the nodes of a document stand for

Nodes are looked at level by level, from the root on, and the first one that stands for nothing is
the fault of the document.  Before the entries of a mapping count, those under a merge key are laid
below them.  `Markup.documentOf` is the document of a text, down to a given depth, for a node may
hold itself.
-/

namespace MigrationPlan.Markup

/-- A node that stands for nothing. -/
def noValue {α : Type} : Except Fault α :=
  .error (.malformed .constructing)

namespace Graph

/-- The node of a number. -/
def node (g : Graph) (i : Nat) : Node :=
  g.nodes.getD i ⟨.missing, .scalar none⟩

/-- The kind of a node. -/
def tag (g : Graph) (i : Nat) : Tag :=
  (g.node i).tag

/-- The entries of a node. -/
def entries (g : Graph) (i : Nat) : List (Nat × Nat) :=
  match (g.node i).body with
  | .mapping entries => entries
  | _ => []

/-- Puts something else in the place of a node. -/
def set (g : Graph) (i : Nat) (n : Node) : Graph :=
  { g with nodes := g.nodes.modify i fun _ => n }

/-- Other entries for a node. -/
def setEntries (g : Graph) (i : Nat) (entries : List (Nat × Nat)) : Graph :=
  g.set i ⟨g.tag i, .mapping entries⟩

/-! ## Merging -/

/-- The number of merge keys. -/
def mergeCount (g : Graph) : Nat :=
  (g.nodes.toList.flatMap fun n => match n.body with
    | .mapping entries => entries.filter fun (key, _) => g.tag key = .merge
    | _ => []).length

/-- A key that stands for the mapping it belongs to is text where it is a key. -/
def settleKey (g : Graph) (i : Nat) : Graph :=
  if g.tag i = .default then g.set i ⟨.text, (g.node i).body⟩ else g

/-- The entries of a mapping with others laid below them. -/
def layBelow (below : List (Nat × Nat)) (i : Nat) (g : Graph) : Graph :=
  let own := g.entries i
  let g := own.foldl (fun g (key, _) => g.settleKey key) g
  if below.isEmpty then g else g.setEntries i (below ++ own)

/-- Lays the entries under the merge keys of a mapping below its own, and `below` under all of them.
A merge key holds a mapping, or a sequence of mappings of which the first goes on top.  There are
fewer than `fuel` merge keys in the graph. -/
def merge : (fuel : Nat) → (below : List (Nat × Nat)) → (i : Nat) → Graph → Except Fault Graph
  | 0, below, i, g => .ok (g.layBelow below i)
  | fuel + 1, below, i, g =>
    let entries := g.entries i
    match entries.find? fun (key, _) => g.tag key = .merge with
    | none => .ok (g.layBelow below i)
    | some (_, value) => do
      let g := g.setEntries i (entries.eraseP fun (key, _) => g.tag key = .merge)
      match (g.node value).body with
      | .mapping _ =>
        let g ← merge fuel [] value g
        merge fuel (below ++ g.entries value) i g
      | .sequence items =>
        let add := fun (more, g) v => do
          match (g.node v).body with
          | .mapping _ =>
            let g ← merge fuel [] v g
            .ok (g.entries v ++ more, g)
          | _ => noValue
        let (more, g) ← items.foldlM add ([], g)
        merge fuel (below ++ more) i g
      | .scalar _ => noValue

/-! ## Values -/

/-- The kinds of nodes that hold others. -/
def isCollection (tag : Tag) : Bool :=
  [.sequence, .mapping, .set, .ordered, .pairs].contains tag

/-- The text of a scalar.  A mapping with a key that stands for it has the text of the value there;
at most `fuel` mappings are gone through. -/
def text : (fuel : Nat) → Graph → (i : Nat) → Except Fault (Option String)
  | 0, _, _ => noValue
  | fuel + 1, g, i =>
    match (g.node i).body with
    | .scalar s => .ok s
    | .sequence _ => noValue
    | .mapping entries =>
      match entries.find? fun (key, _) => g.tag key = .default with
      | some (_, value) => text fuel g value
      | none => noValue

/-- What a node that holds no others stands for. -/
def value (g : Graph) (i : Nat) : Except Fault Document :=
  match g.tag i with
  | .merge | .default | .unknown => noValue
  | tag => do tag.value (← g.text (g.nodes.size + 1) i)

/-- A graph whose nodes are looked at, with the collections that were met and those of them that are
still to be looked into, the last one first. -/
structure Survey where
  graph : Graph
  met : List Nat := []
  pending : List Nat := []

namespace Survey

/-- Looks at a node: a collection is put aside, and anything else has to stand for something. -/
def visit (s : Survey) (i : Nat) : Except Fault Survey :=
  if isCollection (s.graph.tag i) then
    if s.met.contains i then .ok s
    else .ok { s with met := i :: s.met, pending := i :: s.pending }
  else (s.graph.value i).map fun _ => s

/-- Looks at an entry of a mapping.  A collection is no key. -/
def visitEntry (s : Survey) (entry : Nat × Nat) : Except Fault Survey := do
  let s ← s.visit entry.1
  if isCollection (s.graph.tag entry.1) then noValue
  s.visit entry.2

/-- Looks at an item that is a mapping of a single entry. -/
def visitPair (s : Survey) (i : Nat) : Except Fault Survey := do
  match (s.graph.node i).body with
  | .mapping [(key, value)] => (← s.visit key).visit value
  | _ => noValue

/-- Looks into a collection. -/
def enter (s : Survey) (i : Nat) : Except Fault Survey := do
  match s.graph.tag i, (s.graph.node i).body with
  | .sequence, .sequence items => items.foldlM visit s
  | .ordered, .sequence items | .pairs, .sequence items => items.foldlM visitPair s
  | .mapping, .mapping _ | .set, .mapping _ =>
    let graph ← s.graph.merge (s.graph.mergeCount + 1) [] i
    (graph.entries i).foldlM visitEntry { s with graph }
  | _, _ => noValue

/-- Looks into all collections, level by level; there are at most `fuel` levels. -/
def complete : (fuel : Nat) → Survey → Except Fault Survey
  | 0, s => .ok s
  | fuel + 1, s =>
    if s.pending.isEmpty then .ok s
    else do complete fuel (← s.pending.reverse.foldlM enter { s with pending := [] })

end Survey

/-- The graph with merged mappings, if all of its nodes stand for something. -/
def check (g : Graph) : Except Fault Graph := do
  let s ← ({ graph := g } : Survey).visit g.root
  (s.complete (g.nodes.size + 1)).map (·.graph)

/-! ## Documents -/

/-- The document that a node of a checked graph stands for.  Below the given number of levels
collections are empty; a mapping has the fields whose keys are text. -/
def unroll (g : Graph) : (depth : Nat) → (i : Nat) → Except Fault Document
  | 0, i => if isCollection (g.tag i) then .ok (.sequence []) else g.value i
  | depth + 1, i => do
    match g.tag i, (g.node i).body with
    | .sequence, .sequence items => return .sequence (← items.mapM (unroll g depth))
    | .ordered, .sequence items | .pairs, .sequence items =>
      return .sequence (items.map fun _ => .missing)
    | .set, .mapping entries => return .sequence (entries.map fun _ => .missing)
    | .mapping, .mapping entries =>
      let fields ← entries.filterMapM fun (key, v) => do
        if isCollection (g.tag key) then return none
        match ← g.value key with
        | .text key => return some (key, ← unroll g depth v)
        | _ => return none
      return .mapping (fields.foldl (fun fs (key, d) => Fields.put key d fs) [])
    | _, _ => g.value i

end Graph

/-- **The document of a text**, down to a number of levels.  A text without a document stands for
nothing. -/
def documentOf (depth : Nat) (s : String) : Except Fault Document := do
  if !s.toList.all isPrintable then .error (.malformed .unprintable)
  match ← Graph.ofStream? (.ofText (evenBreaks s.toList)) with
  | none => .ok .missing
  | some g =>
    let g ← g.check
    g.unroll depth g.root

end MigrationPlan.Markup
