/-!
# Nested — lists of lists and their shape

Matrices, vectors and decision rows arrive as nested lists.  `Nested.extent` is the list of side
lengths shared by all parts, together with whether that is the whole story: a *full* array has all
its leaves at one depth, below rows of equal lengths.
-/

namespace MigrationPlan

/-- A single entry, or a list of such. -/
inductive Nested (α : Type) where
  | leaf (a : α)
  | node (parts : List (Nested α))

/-- Side lengths, outermost first. -/
abbrev Shape := List Nat

/-- A shape in parentheses, with a comma after a single side: `()`, `(3,)`, `(1, 2)`. -/
def Shape.text : Shape → String
  | [] => "()"
  | [n] => "(" ++ toString n ++ ",)"
  | sides => "(" ++ ", ".intercalate (sides.map toString) ++ ")"

/-- The side lengths that all parts share, and whether the array is full. -/
structure Extent where
  sides : Shape
  full : Bool
deriving DecidableEq, Repr

namespace Extent

/-- The leading sides on which two shapes agree. -/
def shared : Shape → Shape → Shape
  | m :: s, n :: t => if m = n then m :: shared s t else []
  | _, _ => []

/-- The extent of a list of two arrays is made from theirs. -/
def meet (x y : Extent) : Extent :=
  ⟨shared x.sides y.sides, x.full && y.full && decide (x.sides = y.sides)⟩

end Extent

namespace Nested

variable {α β : Type}

mutual

/-- The extent of an array; a single entry has no sides. -/
def extent : Nested α → Extent
  | leaf _ => ⟨[], true⟩
  | node parts =>
    let inner := extentOfParts parts
    ⟨parts.length :: inner.sides, inner.full⟩

/-- What the extents of the parts have in common. -/
def extentOfParts : List (Nested α) → Extent
  | [] => ⟨[], true⟩
  | [p] => extent p
  | p :: q :: rest => (extent p).meet (extentOfParts (q :: rest))

end

mutual

/-- The entries from left to right. -/
def entries : Nested α → List α
  | leaf a => [a]
  | node parts => entriesOfParts parts

def entriesOfParts : List (Nested α) → List α
  | [] => []
  | p :: rest => entries p ++ entriesOfParts rest

end

/-- A list of entries as an array with one side. -/
def ofList (xs : List α) : Nested α :=
  node (xs.map leaf)

/-- The parts of a list, and `[]` for a single entry. -/
def parts : Nested α → List (Nested α)
  | leaf _ => []
  | node ps => ps

end Nested

end MigrationPlan
