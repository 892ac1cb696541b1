import MigrationPlan.Numeric.Binary64

/-!
# Numeric/Decimal — doubles as decimal text, both ways

Writing has two stages.  `Binary64.shortest` selects digits: the fewest whose decimal lies among the
reals that round to the double (`readsBack`), and of those the nearest, a tie going to the even
digit.  `Layout.write` places the point or the exponent; the two layouts of the program are
`reportLayout` and `settingsLayout`.

Reading is the grammar `Decimal.scan?` followed by one exact rounding.
-/

namespace MigrationPlan

/-- The number `digits · 10 ^ exponent`. -/
structure Decimal where
  digits : Nat
  exponent : Int
deriving DecidableEq, Repr

namespace Decimal

def toRat (d : Decimal) : Rat :=
  d.digits * (10 : Rat) ^ d.exponent

/-- Trailing zeros moved into the exponent, as far as `fuel` reaches. -/
def trim : Nat → Decimal → Decimal
  | 0, d => d
  | fuel + 1, d =>
    if d.digits ≠ 0 && d.digits % 10 = 0 then trim fuel ⟨d.digits / 10, d.exponent + 1⟩ else d

end Decimal

namespace Binary64

/-! ## Selecting digits -/

/-- **The decimals that read back as `mantissa · 2 ^ exponent`**: those no farther from it than half
way to either neighbour, ends included for an even mantissa.  Below a power of two, mantissa `2 ^
52`, the neighbour is half as far away. -/
def readsBack (mantissa : Nat) (exponent : Int) (q : Rat) : Bool :=
  let quarter : Rat := (2 : Rat) ^ (exponent - 2)
  let narrow := mantissa = 0x10000000000000 && exponent ≠ -1074
  let low : Rat := (4 * mantissa - (if narrow then 1 else 2)) * quarter
  let high : Rat := (4 * mantissa + 2) * quarter
  if mantissa % 2 = 0 then decide (low ≤ q) && decide (q ≤ high)
  else decide (low < q) && decide (q < high)

/-- The decimal with last place `10 ^ place` that reads back, if there is one: the nearer of the two
neighbours on that grid, the even one if they are equally near. -/
def onGrid? (mantissa : Nat) (exponent : Int) (place : Int) : Option Decimal :=
  let value : Rat := mantissa * (2 : Rat) ^ exponent
  let step : Rat := (10 : Rat) ^ place
  let below := (value / step).floor
  let nearest := (roundHalfEven (value / step)).toNat
  let farther := if nearest = below then nearest + 1 else nearest - 1
  if readsBack mantissa exponent (nearest * step) then some ⟨nearest, place⟩
  else if readsBack mantissa exponent (farther * step) then some ⟨farther, place⟩
  else none

/-- The shortest decimal that reads back as a positive `mantissa · 2 ^ exponent`.  Seventeen digits
suffice for every double; the exact value stands behind them. -/
def shortest (mantissa : Nat) (exponent : Int) : Decimal :=
  let value : Rat := mantissa * (2 : Rat) ^ exponent
  let scale := decimalScale value
  let found := (List.range 17).findSome? fun (n : Nat) => onGrid? mantissa exponent (scale - n - 1)
  let d := found.getD
    (if exponent < 0 then ⟨mantissa * Nat.pow 5 exponent.natAbs, exponent⟩
     else ⟨mantissa * Nat.pow 2 exponent.toNat, 0⟩)
  d.trim 400

end Binary64

/-! ## Placing the point -/

/-- The choices of a decimal notation that differ between the program's outputs.  Common to all are
positional notation for leading digits from `10 ^ -4` to `10 ^ 15`, with a point always, and
otherwise an exponent with a sign and at least two digits. -/
structure Layout where
  /-- Whether a single digit before an exponent is followed by `.0`. -/
  pointBeforeExponent : Bool
  nan : String
  infinity : String

/-- Numbers in messages and reports. -/
def reportLayout : Layout := ⟨false, "nan", "inf"⟩

/-- Numbers in a saved settings file. -/
def settingsLayout : Layout := ⟨true, ".nan", ".inf"⟩

namespace Layout

def zeros (n : Nat) : String :=
  String.ofList (List.replicate n '0')

/-- The exponent part: its sign, then at least two digits. -/
def writeExponent (e : Int) : String :=
  let digits := toString e.natAbs
  (if e < 0 then "e-" else "e+") ++ (if digits.length < 2 then "0" ++ digits else digits)

/-- A positive decimal, by the exponent of its leading digit. -/
def writeDecimal (layout : Layout) (d : Decimal) : String :=
  let digits := (toString d.digits).toList
  let lead : Int := d.exponent + digits.length - 1
  let text := String.ofList
  if lead < -4 || 16 ≤ lead then
    let fraction := digits.drop 1
    let point :=
      if !fraction.isEmpty then "." ++ text fraction
      else if layout.pointBeforeExponent then ".0" else ""
    text (digits.take 1) ++ point ++ writeExponent lead
  else if lead < 0 then "0." ++ zeros (-lead - 1).toNat ++ text digits
  else
    let whole := (lead + 1).toNat
    if digits.length ≤ whole then text digits ++ zeros (whole - digits.length) ++ ".0"
    else text (digits.take whole) ++ "." ++ text (digits.drop whole)

/-- The text of a double; zero keeps its sign. -/
def write (layout : Layout) : Binary64 → String
  | .nan => layout.nan
  | .infinity negative => (if negative then "-" else "") ++ layout.infinity
  | .finite negative m e _ =>
    (if negative then "-" else "") ++
      (if m = 0 then "0.0" else layout.writeDecimal (Binary64.shortest m e))

end Layout

/-- The text of a double in messages and reports. -/
def Binary64.text (x : Binary64) : String :=
  reportLayout.write x

/-! ## Reading -/

namespace Decimal

/-- The value of ASCII digits, read after `start`. -/
def digitsFrom (start : Nat) (cs : List Char) : Nat :=
  cs.foldl (fun n c => 10 * n + (c.toNat - '0'.toNat)) start

/-- The exponent part: nothing, or `e` or `E`, an optional sign and digits to the end. -/
def scanExponent? : List Char → Option Int
  | [] => some 0
  | c :: rest =>
    if c = 'e' || c = 'E' then
      let (negative, ds) : Bool × List Char :=
        match rest with
        | '-' :: ds => (true, ds)
        | '+' :: ds => (false, ds)
        | ds => (false, ds)
      if ds.isEmpty || !ds.all Char.isDigit then none
      else
        let n : Int := digitsFrom 0 ds
        some (if negative then -n else n)
    else none

/-- An unsigned decimal: ASCII digits with at most one point, at least one digit, then an optional
exponent. -/
def scan? (cs : List Char) : Option Decimal :=
  let whole := cs.takeWhile Char.isDigit
  let rest := cs.dropWhile Char.isDigit
  let (fraction, rest) : List Char × List Char :=
    match rest with
    | '.' :: more => (more.takeWhile Char.isDigit, more.dropWhile Char.isDigit)
    | _ => ([], rest)
  if whole.isEmpty && fraction.isEmpty then none
  else
    (scanExponent? rest).map fun e =>
      ⟨digitsFrom (digitsFrom 0 whole) fraction, e - fraction.length⟩

/-- The double nearest to a decimal.  A leading digit outside `10 ^ ±400` settles the answer without
computing the power. -/
def toBinary64 (negative : Bool) (d : Decimal) : Binary64 :=
  let lead : Int := d.exponent + (toString d.digits).length
  if d.digits = 0 || lead < -400 then .zero negative
  else if 400 < lead then .infinity negative
  else .ofMagnitude negative d.toRat

end Decimal

namespace Binary64

/-- Reads a signed decimal, `inf`, `infinity` or `nan` in any case of letters. -/
def read? (s : String) : Option Binary64 :=
  let (negative, cs) : Bool × List Char :=
    match s.toList with
    | '-' :: cs => (true, cs)
    | '+' :: cs => (false, cs)
    | cs => (false, cs)
  let word := String.ofList (cs.map Char.toLower)
  if word = "inf" || word = "infinity" then some (.infinity negative)
  else if word = "nan" then some .nan
  else (Decimal.scan? cs).map (Decimal.toBinary64 negative)

end Binary64

end MigrationPlan
