import MigrationPlan.Datum.Basic
import MigrationPlan.Numeric.Conversion
import MigrationPlan.Text.RealLiteral

/-!
# Datum/Reading — values taken for what an operation needs

A reading either finds in a value what is asked for or names the fault.  Text counts as the number
it spells where a number is made from it (`toInt?`, `toReal?`), but not where numbers are compared
(`number?`).  Lists of lists are read as arrays, entry by entry (`read?`).
-/

namespace MigrationPlan

namespace Entry

/-- All but zeros, empty text and what is missing counts as true. -/
def truth : Entry → Bool
  | missing => false
  | number x => x.truth
  | text s => !s.isEmpty

/-- A number, as it is. -/
def number? : Entry → Except Fault Number
  | number x => .ok x
  | _ => .error .notANumber

/-- The whole number or truth value that an entry is. -/
def whole? : Entry → Option Int
  | number x => x.whole?
  | _ => none

/-- An integer, also one that is spelled out; a fractional part is dropped. -/
def toInt? : Entry → Except Fault Int
  | missing => .error .notANumber
  | number x => x.toInt?
  | text s => Text.readInteger s

/-- A double, also one that is spelled out. -/
def toReal? : Entry → Except Fault Binary64
  | missing => .error .notANumber
  | number x => x.toReal?
  | text s => Text.readReal s

/-- A double in an array, where `nan` stands for what is missing. -/
def toRealOrNan? : Entry → Except Fault Binary64
  | missing => .ok .nan
  | e => e.toReal?

/-- Whether an entry is below another of its kind: a number by value, a text by its characters. -/
def lt? : Entry → Entry → Except Fault Bool
  | number x, number y => .ok (x.lt y)
  | text s, text t => .ok (decide (s < t))
  | _, _ => .error .notANumber

/-- Whether an entry is not above another of its kind. -/
def le? : Entry → Entry → Except Fault Bool
  | number x, number y => .ok (x.le y)
  | text s, text t => .ok (!decide (t < s))
  | _, _ => .error .notANumber

/-- Whether an entry lies between two bounds.  One that is below the lower bound is not compared
with the upper one. -/
def within? (e lower upper : Entry) : Except Fault Bool := do
  if ← lower.le? e then e.le? upper else .ok false

/-- The whole numbers of a signed 64-bit word, from `-2 ^ 63` up to `2 ^ 63`. -/
def IsWord (i : Int) : Prop :=
  -0x8000000000000000 ≤ i ∧ i < 0x8000000000000000

instance (i : Int) : Decidable (IsWord i) :=
  inferInstanceAs (Decidable (_ ∧ _))

/-- An integer that fits a word. -/
def word? (i : Int) : Except Fault Int :=
  if IsWord i then .ok i else .error .numberTooLarge

/-- An entry of an array of words. -/
def toWord? (e : Entry) : Except Fault Int := do
  word? (← e.toInt?)

end Entry

namespace Datum

/-- Like entries; a list is true unless it is empty. -/
def truth : Datum → Bool
  | .leaf e => e.truth
  | .node parts => !parts.isEmpty

/-- An entry, which a list is not. -/
def entry? : Datum → Except Fault Entry
  | .leaf e => .ok e
  | .node _ => .error .notANumber

/-- A number, as it is. -/
def number? (d : Datum) : Except Fault Number := do
  (← d.entry?).number?

/-- An integer, also one that is spelled out; a fractional part is dropped. -/
def toInt? (d : Datum) : Except Fault Int := do
  (← d.entry?).toInt?

/-- A double, also one that is spelled out. -/
def toReal? (d : Datum) : Except Fault Binary64 := do
  (← d.entry?).toReal?

/-- A whole number or truth value, which alone can stand for a count or a position. -/
def count? (d : Datum) : Except Fault Int := do
  match (← d.number?).whole? with
  | some i => .ok i
  | none => .error .notANumber

/-- A double has to be a whole number where an integer is meant. -/
def refuseFraction (d : Datum) : Except Fault Unit :=
  match d with
  | .number x => x.fractional?.elim (.ok ()) fun y => .error (.notAnInteger y)
  | _ => .ok ()

/-- The items of a list; those of a text are its characters. -/
def items? : Datum → Except Fault (List Datum)
  | .node parts => .ok parts
  | .text s => .ok (s.toList.map fun c => .text c.toString)
  | _ => .error .notANumber

/-- Integers as a list. -/
def wholes (is : List Int) : Datum :=
  .node (is.map Datum.whole)

/-- Doubles as a list. -/
def reals (xs : List Binary64) : Datum :=
  .node (xs.map Datum.real)

/-- Truth values as a list. -/
def flags (bs : List Bool) : Datum :=
  .node (bs.map Datum.flag)

end Datum

/-! ## Arrays -/

/-- The bytes that one array may address, `2 ^ 63 - 1`. -/
def byteLimit : Int := 0x7FFFFFFFFFFFFFFF

/-- **The memory of the machine**: as many bytes as one array may fill. -/
class Memory where
  bytes : Nat

/-- A machine with `2 ^ 40` bytes. -/
instance : Memory := ⟨0x10000000000⟩

/-- The number of elements of a new array, of so many bytes each. -/
def room? [Memory] (bytes : Nat) (n : Int) : Except Fault Nat :=
  if byteLimit < n * bytes then .error .arrayTooLarge
  else if Memory.bytes < n * bytes then .error .outOfMemory
  else .ok n.toNat

/-- The side of a new array of elements of so many bytes each.  A truth value is no side. -/
def newSide? [Memory] (bytes : Nat) (side : Datum) : Except Fault Nat :=
  match side with
  | .whole n =>
    if n < 0 then .error .negativeSide
    else if byteLimit < n then .error .sideTooLarge
    else room? bytes n
  | _ => .error .notANumber

/-- The most sides of an array. -/
def sideLimit : Nat := 64

/-- A full array read entry by entry: its shape and its entries from left to right.  It has at most
`sideLimit` sides. -/
def Nested.read? {α β : Type} (read : α → Except Fault β) (a : Nested α) :
    Except Fault (Shape × List β) :=
  let extent := a.extent
  if extent.full then
    if sideLimit < extent.sides.length then .error .tooManySides
    else do
      let entries ← a.entries.mapM read
      .ok (extent.sides, entries)
  else if sideLimit ≤ extent.sides.length then .error .tooManySides
  else .error (.unevenArray extent.sides)

namespace Datum

/-- An array of truth values. -/
def bits? (d : Datum) : Except Fault (Shape × List Bool) :=
  d.read? fun e => .ok e.truth

/-- An array of words. -/
def words? (d : Datum) : Except Fault (Shape × List Int) :=
  d.read? Entry.toWord?

/-- An array of doubles. -/
def doubles? (d : Datum) : Except Fault (Shape × List Binary64) :=
  d.read? Entry.toRealOrNan?

end Datum

end MigrationPlan
