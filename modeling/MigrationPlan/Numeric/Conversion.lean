import MigrationPlan.Fault

/-!
# Numeric/Conversion — arithmetic between whole numbers and doubles

Whole numbers stay exact among themselves and are rounded to a double only when they meet one; a
whole number that no finite double is near is then refused.  The quotient of two whole numbers is
the exact quotient, rounded once.
-/

namespace MigrationPlan

/-- The nearest double to a whole number, if it is finite. -/
def Binary64.ofInt? (i : Int) : Except Fault Binary64 :=
  let x := Binary64.ofInt i
  if x.isFinite then .ok x else .error .numberTooLarge

/-- The greatest integer not above a double. -/
def Binary64.floor? : Binary64 → Except Fault Int
  | .nan => .error .nanAsInteger
  | .infinity _ => .error .numberTooLarge
  | x => .ok x.toRat.floor

namespace Number

/-- The number as a double. -/
def toReal? : Number → Except Fault Binary64
  | flag b => .ok (if b then 1 else 0)
  | whole i => Binary64.ofInt? i
  | real x => .ok x

/-- The number with its fractional part dropped, toward zero. -/
def toInt? : Number → Except Fault Int
  | flag b => .ok (if b then 1 else 0)
  | whole i => .ok i
  | real .nan => .error .nanAsInteger
  | real (.infinity _) => .error .numberTooLarge
  | real x => .ok (truncate x.toRat)

/-- The greatest integer not above the number. -/
def floor? : Number → Except Fault Int
  | flag b => .ok (if b then 1 else 0)
  | whole i => .ok i
  | real x => x.floor?

/-- The least integer not below the number. -/
def ceil? : Number → Except Fault Int
  | real x => x.neg.floor?.map fun i => -i
  | x => x.floor?

/-- Whether the number is finite; a whole number that no finite double is near has no answer. -/
def isFinite? (x : Number) : Except Fault Bool :=
  x.toReal?.map Binary64.isFinite

/-- Whether the number is the double that stands for no number. -/
def isNan? (x : Number) : Except Fault Bool :=
  x.toReal?.map Binary64.isNan

/-- A double that is not a whole number, infinities and `nan` among them. -/
def fractional? : Number → Option Binary64
  | real x => if x.isFinite && x.toRat.den = 1 then none else some x
  | _ => none

/-- A sum, difference or product: exact between whole numbers, rounded as soon as a double takes
part. -/
def combine (exact : Int → Int → Except Fault Number) (rounded : Binary64 → Binary64 → Binary64)
    (x y : Number) : Except Fault Number :=
  match x.whole?, y.whole? with
  | some i, some j => exact i j
  | _, _ => do
    let a ← x.toReal?
    let b ← y.toReal?
    .ok (real (rounded a b))

def add : Number → Number → Except Fault Number :=
  combine (fun i j => .ok (whole (i + j))) Binary64.add

def sub : Number → Number → Except Fault Number :=
  combine (fun i j => .ok (whole (i - j))) Binary64.sub

def mul : Number → Number → Except Fault Number :=
  combine (fun i j => .ok (whole (i * j))) Binary64.mul

/-- The quotient is a double, also between whole numbers; there is none by zero. -/
def div (x y : Number) : Except Fault Number :=
  match x.whole?, y.whole? with
  | some i, some j =>
    let q := Binary64.ofRat ((i : Rat) / (j : Rat))
    if j = 0 then .error .divisionByZero
    else if q.isFinite then .ok (real q) else .error .numberTooLarge
  | _, _ => do
    let a ← x.toReal?
    let b ← y.toReal?
    if b.isZero then .error .divisionByZero else .ok (real (a.div b))

end Number

end MigrationPlan
