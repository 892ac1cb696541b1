import MigrationPlan.Codec.Binary
import MigrationPlan.Ordered

/-!
# Variable/Basic — decision variables and how they are made

A decision variable is one of five kinds, each with its own admissible values.  `create` builds a
variable from what a caller hands over and refuses what is not admissible; the `new…` functions
start it at its least, empty or identity value.  `Variable.Valid` is the invariant that a variable
of each kind is meant to keep.

Bounds, capacities and lengths stay in the form in which they were given; a length of `3` and one of
`3.0` admit the same orders and are shown differently.
-/

namespace MigrationPlan

/-! ## The five kinds -/

/-- A real in `[lower, upper]`; the value stays in the form in which it was given. -/
structure RealVariable where
  lower : Binary64
  upper : Binary64
  value : Number
deriving DecidableEq

/-- An integer in `[lower, upper]`. -/
structure IntegerVariable where
  lower : Entry
  upper : Entry
  value : Entry
deriving DecidableEq

/-- A bit vector of a fixed length. -/
structure BinaryVariable where
  bits : Bits
deriving DecidableEq

/-- At most `capacity` members of `[lower, upper)`, ascending. -/
structure SubsetVariable where
  capacity : Number
  lower : Number
  upper : Number
  members : List Int
deriving DecidableEq

/-- An ordering of `0, …, length - 1`. -/
structure PermutationVariable where
  length : Number
  order : List Nat
deriving DecidableEq

/-- A decision variable. -/
inductive Variable where
  | real (v : RealVariable)
  | integer (v : IntegerVariable)
  | binary (v : BinaryVariable)
  | subset (v : SubsetVariable)
  | permutation (v : PermutationVariable)
deriving DecidableEq

/-! ## Making variables -/

namespace RealVariable

/-- Bounds become doubles and have to be finite and in order; without a value, or with `nan`, the
variable starts at its lower bound. -/
def create (lower upper : Datum) (value : Option Datum) : Except Fault RealVariable := do
  let l ← lower.toReal?
  let u ← upper.toReal?
  if !(l.isFinite && u.isFinite) || u.lt l then .error (.realBounds l u)
  match value with
  | none => .ok ⟨l, u, .real l⟩
  | some d => do
    let x ← d.number?
    if ← x.isNan? then .ok ⟨l, u, .real l⟩
    else if (Number.real l).le x && x.le (.real u) then .ok ⟨l, u, x⟩
    else .error (.outsideBounds (.number x) (.number (.real l)) (.number (.real u)))

def text (v : RealVariable) : String :=
  "RealVariable(lower=" ++ v.lower.text ++ ", upper=" ++ v.upper.text ++ ", value="
    ++ v.value.text ++ ")"

end RealVariable

namespace IntegerVariable

/-- Bounds have to be in order; without a value the variable starts at its lower bound. -/
def create (lower upper : Datum) (value : Option Datum) : Except Fault IntegerVariable := do
  let l ← lower.entry?
  let u ← upper.entry?
  if ← u.lt? l then .error (.integerBounds l u)
  match value with
  | none => .ok ⟨l, u, l⟩
  | some d => do
    let x ← d.entry?
    if ← x.within? l u then .ok ⟨l, u, x⟩ else .error (.outsideBounds x l u)

/-- Between integers. -/
def new (lower upper : Datum) : Except Fault IntegerVariable := do
  let l ← lower.toInt?
  let u ← upper.toInt?
  create (.whole l) (.whole u) none

def text (v : IntegerVariable) : String :=
  "IntegerVariable(lower=" ++ v.lower.quoted ++ ", upper=" ++ v.upper.quoted ++ ", value="
    ++ v.value.quoted ++ ")"

end IntegerVariable

namespace BinaryVariable

/-- A bit vector has one side and at least one bit. -/
def create (array : Datum) : Except Fault BinaryVariable := do
  let (sides, bits) ← array.bits?
  if sides.length = 1 && !bits.isEmpty then .ok ⟨bits⟩ else .error (.emptyOrNotAVector sides)

/-- All bits clear. -/
def new [Memory] (length : Datum) : Except Fault BinaryVariable := do
  let n ← length.number?
  if n.lt (.whole 1) then .error (.vectorLength n)
  let count ← newSide? 1 length
  .ok ⟨List.replicate count false⟩

def length (v : BinaryVariable) : Nat :=
  v.bits.length

/-- One character per bit, the least significant first. -/
def text (v : BinaryVariable) : String :=
  String.ofList (v.bits.map fun b => if b then '1' else '0')

end BinaryVariable

namespace SubsetVariable

/-- Whether an integer may be a member. -/
def isSelectable (v : SubsetVariable) (m : Int) : Bool :=
  !(Number.whole m).lt v.lower && !v.upper.le (.whole m)

/-- Whether there are more members than the capacity allows. -/
def isOverfull (v : SubsetVariable) : Bool :=
  v.capacity.lt (.whole v.members.length)

/-- The range may be empty, and the capacity is at most its length. -/
def checkCapacity (capacity lower upper : Datum) : Except Fault (Number × Number × Number) := do
  let l ← lower.entry?
  let u ← upper.entry?
  if ← u.lt? l then .error (.selectableRange l u)
  let c ← capacity.number?
  let l ← l.number?
  let u ← u.number?
  let length ← u.sub l
  if (Number.whole 0).le c && c.le length then .ok (c, l, u)
  else .error (.capacityRange c length l u)

/-- The members, repeats counted once, are in the range and fill no more than the capacity. -/
def create (capacity lower upper members : Datum) : Except Fault SubsetVariable := do
  let (c, l, u) ← checkCapacity capacity lower upper
  let items ← (← members.items?).mapM Datum.toInt?
  let v : SubsetVariable := ⟨c, l, u, memberList items⟩
  if v.isOverfull then .error (.overCapacity v.members.length c)
  if v.members.all v.isSelectable then .ok v else .error (.membersOutside v.members l u)

/-- No members. -/
def new (capacity lower upper : Datum) : Except Fault SubsetVariable :=
  create capacity lower upper (.node [])

def text (v : SubsetVariable) : String :=
  "\x7b" ++ ",".intercalate (v.members.map toString) ++ "\x7d"

end SubsetVariable

namespace PermutationVariable

/-- Whether the integers are `0, …, length - 1` in some order. -/
def isOrder (length : Nat) (order : List Int) : Bool :=
  sortInts order = (List.range length).map Int.ofNat

/-- An array of words as an ordering of the given length. -/
def order? (length : Number) (array : Datum) : Except Fault (List Nat) := do
  let (sides, order) ← array.words?
  let n : Number := .whole order.length
  if sides.length = 1 && n.le length && length.le n then
    if isOrder order.length order then .ok (order.map Int.toNat)
    else .error (.notAPermutation (← length.sub (.whole 1)) order)
  else .error (.permutationSize length order.length)

/-- How many numbers `0, 1, …` lie below a length. -/
def count? [Memory] (length : Number) : Except Fault Nat :=
  match length.ceil? with
  | .ok n => if Entry.IsWord n then room? 8 n else .error .sequenceTooLong
  | .error .nanAsInteger => .error .uncountable
  | .error _ => .error .sequenceTooLong

/-- Without an order, the identity. -/
def create [Memory] (length : Datum) (order : Option Datum) :
    Except Fault PermutationVariable := do
  let n ← length.number?
  if n.lt (.whole 1) then .error (.permutationLength n)
  match order with
  | none => (count? n).map fun k => ⟨n, List.range k⟩
  | some array => (order? n array).map (⟨n, ·⟩)

def text (v : PermutationVariable) : String :=
  ",".intercalate (v.order.map toString)

end PermutationVariable

/-! ## All kinds together -/

namespace Variable

def kind : Variable → VariableKind
  | real _ => .real
  | integer _ => .integer
  | binary _ => .binary
  | subset _ => .subset
  | permutation _ => .permutation

def text : Variable → String
  | real v => v.text
  | integer v => v.text
  | binary v => v.text
  | subset v => v.text
  | permutation v => v.text

/-- A variable made anew from the fields of another. -/
def copy [Memory] : Variable → Except Fault Variable
  | real v =>
    (RealVariable.create (.real v.lower) (.real v.upper) (some (.number v.value))).map real
  | integer v =>
    (IntegerVariable.create (.leaf v.lower) (.leaf v.upper) (some (.leaf v.value))).map integer
  | binary v => .ok (binary v)
  | subset v =>
    (SubsetVariable.create (.number v.capacity) (.number v.lower) (.number v.upper)
      (.wholes v.members)).map subset
  | permutation v =>
    (PermutationVariable.create (.number v.length)
      (some (.wholes (v.order.map fun (i : Nat) => (i : Int))))).map permutation

/-- The number of members, bits or positions; the other kinds have none. -/
def size? : Variable → Except Fault Number
  | binary v => .ok (.whole v.length)
  | subset v => .ok (.whole v.members.length)
  | permutation v => .ok v.length
  | v => .error (.noSize v.kind)

/-- **The invariant of each kind.**  A real lies between finite bounds and is a number; an integer
lies between its bounds and is whole; a bit vector is not empty; a subset is ascending, within its
range and its capacity; a permutation lists each of its positions once. -/
def Valid : Variable → Prop
  | real v => v.lower.isFinite ∧ v.upper.isFinite ∧ (Number.real v.lower).le v.value
      ∧ v.value.le (.real v.upper)
  | integer v => ∃ l u i, v.lower.whole? = some l ∧ v.upper.whole? = some u
      ∧ v.value.whole? = some i ∧ l ≤ i ∧ i ≤ u
  | binary v => v.bits ≠ []
  | subset v => v.members.Pairwise (· < ·) ∧ ∃ c l u, v.capacity.whole? = some c
      ∧ v.lower.whole? = some l ∧ v.upper.whole? = some u ∧ v.members.length ≤ c
      ∧ ∀ m ∈ v.members, l ≤ m ∧ m < u
  | permutation v => ∃ n : Nat, v.length.whole? = some (n : Int) ∧ v.order.Perm (List.range n)

end Variable

end MigrationPlan
