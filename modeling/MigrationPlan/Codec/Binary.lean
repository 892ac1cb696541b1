import MigrationPlan.Datum.Reading

/-!
# Codec/Binary — natural numbers and Gray codes on bits

A bit vector is a list of truth values with the least significant bit first; `bitsValue` is the
number it stands for.  A code word has between 1 and 63 bits, so that every value fits a signed
64-bit word.

Reflected Gray codes are the sums of neighbouring bits: `toGray` adds to each bit the one above it,
and `fromGray` adds up all bits above and including each.
-/

namespace MigrationPlan

/-- A bit vector, least significant bit first. -/
abbrev Bits := List Bool

namespace Codec

/-! ## Widths -/

/-- The widths of a code word. -/
def IsWidth (n : Int) : Prop :=
  1 ≤ n ∧ n ≤ 63

instance (n : Int) : Decidable (IsWidth n) :=
  inferInstanceAs (Decidable (_ ∧ _))

/-- Refuses a width that is not admitted. -/
def checkWidth (n : Int) : Except Fault Unit :=
  if IsWidth n then .ok () else .error (.bitCount (.whole n))

/-- The flat bit vector behind a list of numbers, each counted as a bit by its truth. -/
def vector? (a : Datum) : Except Fault Bits := do
  let (sides, bits) ← a.bits?
  if sides.length = 1 then .ok bits else .error (.notAVector sides)

/-! ## Natural numbers -/

/-- The number whose binary digits are the bits. -/
def bitsValue : Bits → Nat
  | [] => 0
  | b :: bs => (if b then 1 else 0) + 2 * bitsValue bs

/-- The lowest `n` binary digits of a number. -/
def bitsOf : (n : Nat) → Nat → Bits
  | 0, _ => []
  | n + 1, v => (v % 2 = 1) :: bitsOf n (v / 2)

/-- The number of code words of `n` bits, `2 ^ n`. -/
def codeCount (n : Nat) : Nat :=
  Nat.pow 2 n

/-- Writes a natural number on `n` bits. -/
def encodeNat (value : Int) (n : Int) : Except Fault Bits := do
  if value < 0 then .error (.negativeInteger value)
  checkWidth n
  if codeCount n.toNat ≤ value then .error (.tooFewBits value (.whole n))
  .ok (bitsOf n.toNat value.toNat)

/-- Writes a number without a fractional part on `n` bits. -/
def encodeBinary (value : Number) (n : Int) : Except Fault Bits := do
  if let some x := value.fractional? then .error (.notAnInteger x)
  let i ← value.toInt?
  encodeNat i n

/-- Reads a bit vector of an admissible width. -/
def decodeBinary (bits : Bits) : Except Fault Nat := do
  checkWidth bits.length
  .ok (bitsValue bits)

/-! ## Gray codes -/

/-- Each bit plus the one above it; the top bit is copied. -/
def toGray : Bits → Bits
  | [] => []
  | [b] => [b]
  | b :: c :: rest => (c ^^ b) :: toGray (c :: rest)

/-- Each bit plus all bits above it: the running sum from the top bit down. -/
def fromGray : Bits → Bits
  | [] => []
  | g :: rest =>
    let decoded := fromGray rest
    (decoded.headD false ^^ g) :: decoded

end Codec

end MigrationPlan
