import MigrationPlan.Codec.Quantize
import MigrationPlan.Variable.Basic

/-!
# Variable/Access — reading and writing one variable

Each reading and each writing is for one kind and refuses the others.  A write checks what it is
given in full and only then makes the new variable, so that a refused write changes nothing.
-/

namespace MigrationPlan.Variable

/-! ## Kinds -/

/-- The content of a real variable. -/
def real? : Variable → Except Fault RealVariable
  | real v => .ok v
  | v => .error (.wrongKind .real v.kind)

/-- The content of a bit vector. -/
def binary? : Variable → Except Fault BinaryVariable
  | binary v => .ok v
  | v => .error (.wrongKind .binary v.kind)

/-- The content of a subset. -/
def subset? : Variable → Except Fault SubsetVariable
  | subset v => .ok v
  | v => .error (.wrongKind .subset v.kind)

/-- The content of a permutation. -/
def permutation? : Variable → Except Fault PermutationVariable
  | permutation v => .ok v
  | v => .error (.wrongKind .permutation v.kind)

/-! ## Reals and integers -/

/-- The double that a value would be stored as, if it lies in the bounds. -/
def checkReal (v : RealVariable) (value : Datum) : Except Fault Binary64 := do
  let x ← value.toReal?
  if v.lower.le x && x.le v.upper then .ok x
  else .error (.outsideBounds (.number (.real x)) (.number (.real v.lower))
    (.number (.real v.upper)))

/-- The integer that a value would be stored as.  The form of the value is looked at first, then the
kind of the variable, then its bounds. -/
def checkInt (v : Variable) (value : Datum) : Except Fault Int := do
  value.refuseFraction
  match v with
  | integer w => do
    let x ← value.entry?
    if ← x.within? w.lower w.upper then x.toInt? else .error (.outsideBounds x w.lower w.upper)
  | real w => do
    let _ ← checkReal w value
    value.toInt?
  | other => .error (.wrongKind .integer other.kind)

/-- Reads a real. -/
def asReal (v : Variable) : Except Fault Number :=
  v.real?.map RealVariable.value

/-- Writes a number between the bounds, as a double. -/
def setReal (v : Variable) (value : Datum) : Except Fault Variable := do
  let w ← v.real?
  let x ← checkReal w value
  .ok (real { w with value := .real x })

/-- Reads an integer; a real is read as the greatest integer not above it. -/
def asInt : Variable → Except Fault Int
  | integer v => v.value.toInt?
  | real v => v.value.floor?
  | v => .error (.wrongKind .integer v.kind)

/-- Writes an integer into an integer variable, or its double into a real one. -/
def setInt (v : Variable) (value : Datum) : Except Fault Variable := do
  let i ← checkInt v value
  match v with
  | integer w => .ok (integer { w with value := .number (.whole i) })
  | other => other.setReal (.whole i)

/-! ## Bits -/

/-- Reads all bits. -/
def asBinary (v : Variable) : Except Fault Bits :=
  v.binary?.map BinaryVariable.bits

/-- Replaces all bits by as many others. -/
def setBinary (v : Variable) (array : Datum) : Except Fault Variable := do
  let w ← v.binary?
  let (sides, bits) ← array.bits?
  if sides = [w.length] then .ok (binary ⟨bits⟩)
  else .error (.bitsExpected w.length bits.length)

/-- The positions of the set bits, ascending. -/
def asBitset (v : Variable) : Except Fault (List Nat) :=
  v.binary?.map fun w => positions w.bits

/-- The bits of a given length that are set exactly at some positions. -/
def bitsAt (length : Nat) (indices : List Int) : Bits :=
  (List.range length).map fun (i : Nat) => indices.contains (i : Int)

/-- Sets exactly the bits at the given positions; repeats are harmless. -/
def setBitset (v : Variable) (indices : Datum) : Except Fault Variable := do
  let w ← v.binary?
  let items ← (← indices.items?).mapM Datum.toInt?
  if items.any fun i => i < 0 || w.length ≤ i then .error (.bitIndices (sortInts items) w.length)
  else .ok (binary ⟨bitsAt w.length items⟩)

/-- A bit vector of one bit. -/
def boolean? (v : Variable) : Except Fault Bool := do
  match (← v.binary?).bits with
  | [b] => .ok b
  | bits => .error (.notABoolean bits.length)

/-- Reads the bit of a vector of one. -/
def asBoolean (v : Variable) : Except Fault Bool :=
  v.boolean?

/-- Replaces the bit of a vector of one. -/
def setBoolean (v : Variable) (value : Bool) : Except Fault Variable := do
  let _ ← v.boolean?
  .ok (binary ⟨[value]⟩)

/-! ## Subsets and permutations -/

/-- The members in ascending order, as words. -/
def asSubset (v : Variable) : Except Fault (List Int) := do
  let w ← v.subset?
  w.members.mapM Entry.word?

/-- Replaces all members.  Repeats are looked at first, then the capacity, then the range. -/
def setSubset (v : Variable) (members : Datum) : Except Fault Variable := do
  let w ← v.subset?
  let items ← (← members.items?).mapM Datum.toInt?
  let new : SubsetVariable := { w with members := memberList items }
  if new.members.length ≠ items.length then .error (.duplicateMembers (sortInts items))
  if new.isOverfull then .error (.overCapacity new.members.length new.capacity)
  let outside := new.members.filter fun m => !w.isSelectable m
  if outside.isEmpty then .ok (subset new)
  else .error (.membersOutside outside w.lower w.upper)

/-- Reads the order. -/
def asPermutation (v : Variable) : Except Fault (List Nat) :=
  v.permutation?.map PermutationVariable.order

/-- Replaces the order by another of the same positions. -/
def setPermutation (v : Variable) (array : Datum) : Except Fault Variable := do
  let w ← v.permutation?
  let order ← PermutationVariable.order? w.length array
  .ok (permutation { w with order })

/-! ## From real to bits and back -/

/-- The second variable with its bits replaced by the code of the first one's value. -/
def encodeInto (source target : Variable) (gray : Bool) : Except Fault Variable := do
  let r ← source.real?
  let b ← target.binary?
  let bits ← Codec.encodeReal r.value (.real r.lower) (.real r.upper) b.length gray
  .ok (binary ⟨bits⟩)

/-- The second variable with its value replaced by the one that the first one's bits stand for. -/
def decodeInto (source target : Variable) (gray : Bool) : Except Fault Variable := do
  let b ← source.binary?
  let r ← target.real?
  let value ← Codec.decodeReal b.bits (.real r.lower) (.real r.upper) gray
  .ok (real { r with value })

end MigrationPlan.Variable
