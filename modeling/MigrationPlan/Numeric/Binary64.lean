import MigrationPlan.Numeric.Rounding

/-!
# Numeric/Binary64 — double precision as exact rationals, rounded once

A finite `Binary64` is `± mantissa · 2 ^ exponent` in its one canonical form, so two doubles are the
same double exactly when they are equal as values of this type; the sign of zero is part of it.
There is a single `nan`.

**Each operation is the exact rational result, rounded once** (`ofMagnitude`): to the nearest
double, a half to the even mantissa, and to an infinity from half a unit above the largest double
on.  Signs of exact zeros and the operations on infinities are the only cases beside that rule.

Comparisons are exact, through the extended rational line (`Extended`), on which integers of any
size stand beside doubles.
-/

namespace MigrationPlan

/-- The canonical pairs: a full 53-bit mantissa, from `2 ^ 52` up to `2 ^ 53`, or a shorter one at
the least exponent. -/
def IsCanonical (mantissa : Nat) (exponent : Int) : Prop :=
  mantissa < 0x20000000000000 ∧ -1074 ≤ exponent ∧ exponent ≤ 971
    ∧ (0x10000000000000 ≤ mantissa ∨ exponent = -1074)

instance (mantissa : Nat) (exponent : Int) : Decidable (IsCanonical mantissa exponent) :=
  inferInstanceAs (Decidable (_ ∧ _ ∧ _ ∧ (_ ∨ _)))

/-- A double precision number. -/
inductive Binary64 where
  | nan
  | infinity (negative : Bool)
  | finite (negative : Bool) (mantissa : Nat) (exponent : Int)
      (canonical : IsCanonical mantissa exponent)
deriving DecidableEq

/-- A point of the rational line with both ends added. -/
inductive Extended where
  | below
  | point (q : Rat)
  | above
deriving DecidableEq

namespace Extended

/-- The order of the extended line. -/
def le : Extended → Extended → Bool
  | below, _ => true
  | _, above => true
  | point p, point q => decide (p ≤ q)
  | _, _ => false

/-- The strict order of the extended line. -/
def lt (x y : Extended) : Bool :=
  !le y x

end Extended

namespace Binary64

/-! ## Values -/

/-- The zero of a sign. -/
def zero (negative : Bool) : Binary64 :=
  .finite negative 0 (-1074) (by decide)

/-- The exact value of a finite double, and `0` for the others. -/
def toRat : Binary64 → Rat
  | finite negative m e _ =>
    let magnitude : Rat := m * (2 : Rat) ^ e
    if negative then -magnitude else magnitude
  | _ => 0

/-- Where a double stands on the extended line; `nan` stands nowhere. -/
def extended? : Binary64 → Option Extended
  | nan => none
  | infinity negative => some (if negative then .below else .above)
  | x@(finite ..) => some (.point x.toRat)

def isNan : Binary64 → Bool
  | nan => true
  | _ => false

def isFinite : Binary64 → Bool
  | finite .. => true
  | _ => false

/-- The sign carried by the number; `nan` carries none. -/
def isNegative : Binary64 → Bool
  | nan => false
  | infinity negative => negative
  | finite negative .. => negative

def isZero : Binary64 → Bool
  | finite _ 0 .. => true
  | _ => false

/-! ## Rounding -/

/-- **The double nearest to a magnitude**, with a given sign.  The grid is that of the binade of
`a`, no finer than `2 ^ -1074`; a mantissa rounded up to `2 ^ 53` is the least of the next binade,
and what no canonical pair can hold is an infinity. -/
def ofMagnitude (negative : Bool) (a : Rat) : Binary64 :=
  if a = 0 then zero negative
  else
    let e := max (binaryLog a - 52) (-1074)
    let m := (roundHalfEven (a / (2 : Rat) ^ e)).toNat
    if h : IsCanonical m e then .finite negative m e h
    else if h : IsCanonical 0x10000000000000 (e + 1) then
      .finite negative 0x10000000000000 (e + 1) h
    else .infinity negative

/-- The double nearest to a rational; zero is positive. -/
def ofRat (q : Rat) : Binary64 :=
  ofMagnitude (decide (q < 0)) q.abs

/-- The double nearest to an integer. -/
def ofInt (i : Int) : Binary64 :=
  ofRat i

instance (n : Nat) : OfNat Binary64 n := ⟨ofInt n⟩

/-! ## Arithmetic -/

/-- The same magnitude with the other sign. -/
def neg : Binary64 → Binary64
  | nan => nan
  | infinity negative => infinity (!negative)
  | finite negative m e h => finite (!negative) m e h

/-- Rounded sum.  Infinities of opposite signs have none, and an exact sum of zero is negative only
if both terms are. -/
def add : Binary64 → Binary64 → Binary64
  | nan, _ => nan
  | _, nan => nan
  | infinity s, infinity t => if s = t then infinity s else nan
  | infinity s, _ => infinity s
  | _, infinity t => infinity t
  | x, y =>
    let q := x.toRat + y.toRat
    if q = 0 then zero (x.isNegative && y.isNegative) else ofRat q

/-- Rounded difference. -/
def sub (x y : Binary64) : Binary64 :=
  add x y.neg

/-- Rounded product; its sign is the product of the signs, and a zero has no product with an
infinity. -/
def mul (x y : Binary64) : Binary64 :=
  let negative := x.isNegative != y.isNegative
  match x, y with
  | nan, _ => nan
  | _, nan => nan
  | infinity _, y => if y.isZero then nan else infinity negative
  | x, infinity _ => if x.isZero then nan else infinity negative
  | x, y => ofMagnitude negative (x.toRat * y.toRat).abs

/-- Rounded quotient; its sign is the product of the signs.  Zero by zero and infinity by infinity
have none, and any other number divided by zero is an infinity. -/
def div (x y : Binary64) : Binary64 :=
  let negative := x.isNegative != y.isNegative
  match x, y with
  | nan, _ => nan
  | _, nan => nan
  | infinity _, infinity _ => nan
  | infinity _, _ => infinity negative
  | _, infinity _ => zero negative
  | x, y =>
    if y.isZero then (if x.isZero then nan else infinity negative)
    else ofMagnitude negative (x.toRat / y.toRat).abs

/-! ## Order -/

/-- Exact comparison; `nan` is not below anything, itself included. -/
def le (x y : Binary64) : Bool :=
  match x.extended?, y.extended? with
  | some p, some q => p.le q
  | _, _ => false

/-- Exact strict comparison; false on `nan`. -/
def lt (x y : Binary64) : Bool :=
  match x.extended?, y.extended? with
  | some p, some q => p.lt q
  | _, _ => false

/-- The larger of two numbers; a `nan` on either side is the answer. -/
def max (x y : Binary64) : Binary64 :=
  if x.isNan || y.isNan then nan else if y.lt x then x else y

end Binary64

end MigrationPlan
