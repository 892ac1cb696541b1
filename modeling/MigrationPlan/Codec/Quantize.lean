import MigrationPlan.Codec.Binary

/-!
# Codec/Quantize — bounded reals on bits

`n` bits divide `[lower, upper]` into `2 ^ n - 1` equal steps.  `encodeReal` writes the index of the
step nearest to a value, halves going up, and `decodeReal` reads the value of an index.  Both
compute in the arithmetic of `Number`, so bounds given as whole numbers are exact until they meet a
double.
-/

namespace MigrationPlan.Codec

/-- The largest index of `n` bits. -/
def maxIndex (n : Nat) : Nat :=
  codeCount n - 1

/-- Bounds are finite, and the upper one is the larger. -/
def checkBounds (lower upper : Number) : Except Fault Unit := do
  let finite ← (do
    if ← lower.isFinite? then upper.isFinite? else .ok false)
  if !finite || upper.le lower then .error (.degenerateBounds lower.text upper.text) else .ok ()

/-- The value lies between the bounds. -/
def checkWithin (value lower upper : Number) : Except Fault Unit :=
  if lower.le value && value.le upper then .ok ()
  else .error (.outsideBounds (.number value) (.number lower) (.number upper))

/-- The step nearest to a value in bounds, halves going up. -/
def indexOf (value lower upper : Number) (n : Nat) : Except Fault Int := do
  let offset ← value.sub lower
  let length ← upper.sub lower
  let scale ← offset.div length
  let position ← scale.mul (.whole (maxIndex n))
  let shifted ← position.add (.real (.ofRat (1 / 2)))
  let index ← shifted.floor?
  .ok (min index (maxIndex n))

/-- Writes the index of the step nearest to a value, plain or Gray coded. -/
def encodeReal (value lower upper : Number) (n : Int) (gray : Bool) : Except Fault Bits := do
  checkBounds lower upper
  checkWidth n
  checkWithin value lower upper
  let index ← indexOf value lower upper n.toNat
  let bits ← encodeNat index n
  .ok (if gray then toGray bits else bits)

/-- The value of an index: the upper bound for the largest, and otherwise the rounded
`lower + (upper - lower) · (index / maxIndex)`, moved to the nearer bound if rounding left them. -/
def valueAt (index : Nat) (lower upper : Number) (n : Nat) : Except Fault Number := do
  if index = maxIndex n then .ok upper
  else
    let length ← upper.sub lower
    let scale ← (Number.whole index).div (.whole (maxIndex n))
    let offset ← length.mul scale
    let value ← lower.add offset
    .ok ((value.max lower).min upper)

/-- Reads the value of a bit vector, plain or Gray coded. -/
def decodeReal (bits : Bits) (lower upper : Number) (gray : Bool) : Except Fault Number := do
  checkBounds lower upper
  let plain := if gray then fromGray bits else bits
  let index ← decodeBinary plain
  valueAt index lower upper plain.length

/-- The width of one step. -/
def resolution (lower upper : Number) (n : Int) : Except Fault Number := do
  checkBounds lower upper
  checkWidth n
  let length ← upper.sub lower
  length.div (.whole (maxIndex n.toNat))

end MigrationPlan.Codec
