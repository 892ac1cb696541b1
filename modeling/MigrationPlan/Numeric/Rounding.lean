/-!
# Numeric/Rounding — rationals to the nearest integer, and their binary scale

Every inexact operation of the library computes an exact rational and rounds it once.
`roundHalfEven` is that one rounding on the unit grid; `binaryLog` says which power of two a
positive rational lies above, and so which grid it is rounded on.
-/

namespace MigrationPlan

/-- The integer nearest to `q`; of two equally near, the even one. -/
def roundHalfEven (q : Rat) : Int :=
  let below := q.floor
  let excess := q - below
  if excess < 1 / 2 then below
  else if 1 / 2 < excess then below + 1
  else if below % 2 = 0 then below else below + 1

/-- For `0 < a`, the integer `k` with `2 ^ k ≤ a < 2 ^ (k + 1)`.  The bit lengths of numerator and
denominator leave two candidates, and one comparison decides. -/
def binaryLog (a : Rat) : Int :=
  let k : Int := (a.num.natAbs.log2 : Int) - a.den.log2
  if (2 : Rat) ^ k ≤ a then k else k - 1

/-- For `0 < a`, the integer `k` with `10 ^ (k - 1) ≤ a < 10 ^ k`.  The binary scale times
`30103 / 100000`, which exceeds `log₁₀ 2` by less than a millionth, leaves three candidates. -/
def decimalScale (a : Rat) : Int :=
  let k := (binaryLog a * 30103).fdiv 100000
  if a < (10 : Rat) ^ k then k
  else if a < (10 : Rat) ^ (k + 1) then k + 1
  else k + 2

/-- A rational with its fractional part dropped, toward zero. -/
def truncate (q : Rat) : Int :=
  if 0 ≤ q then q.floor else -(-q).floor

end MigrationPlan
