import MigrationPlan.Codec.Quantize

/-!
# Codec/Given — the codecs on values as given

Values, bounds and widths may be of any kind.  Each is looked at only when the computation reaches
it, so that of several faults the first one is reported.  Behind the checks stand the codecs on
numbers.
-/

namespace MigrationPlan.Codec

/-- A width that lies between the limits.  Whether it is a whole number shows only when it is used;
`nan` lies on neither side of a limit. -/
def checkGivenWidth (n : Datum) : Except Fault Number := do
  let n ← n.number?
  if n.lt (.whole 1) || (Number.whole 63).lt n then .error (.bitCount n) else .ok n

/-- A width that is used. -/
def useWidth (n : Number) : Except Fault Int :=
  match n.whole? with
  | some i => .ok i
  | none => .error .notANumber

/-- Bounds that are finite and in order.  The upper one is not looked at if the lower one is not
finite. -/
def checkGivenBounds (lower upper : Datum) : Except Fault (Number × Number) := do
  let l ← lower.number?
  let u ← (do
    if ← l.isFinite? then upper.number? else .error (.degenerateBounds l.text upper.display))
  checkBounds l u
  .ok (l, u)

/-- Writes a value that stands for an integer. -/
def encodeBinaryGiven (value n : Datum) : Except Fault Bits := do
  value.refuseFraction
  let i ← value.toInt?
  if i < 0 then .error (.negativeInteger i)
  let n ← checkGivenWidth n
  let width ← useWidth n
  if codeCount width.toNat ≤ i then .error (.tooFewBits i n)
  encodeNat i width

/-- Writes the index of the step nearest to a value, plain or Gray coded. -/
def encodeRealGiven (value lower upper n : Datum) (gray : Bool) : Except Fault Bits := do
  let (lower, upper) ← checkGivenBounds lower upper
  let n ← checkGivenWidth n
  let value ← value.number?
  checkWithin value lower upper
  encodeReal value lower upper (← useWidth n) gray

/-- Reads the value of an array that has to be a bit vector. -/
def decodeRealGiven (array lower upper : Datum) (gray : Bool) : Except Fault Number := do
  let (lower, upper) ← checkGivenBounds lower upper
  let bits ← vector? array
  decodeReal bits lower upper gray

/-- The width of one step. -/
def resolutionGiven (lower upper n : Datum) : Except Fault Number := do
  let (lower, upper) ← checkGivenBounds lower upper
  let n ← checkGivenWidth n
  resolution lower upper (← useWidth n)

end MigrationPlan.Codec
