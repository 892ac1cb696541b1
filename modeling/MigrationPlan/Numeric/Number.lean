import MigrationPlan.Numeric.Decimal

/-!
# Numeric/Number — the numbers callers hand over

Bounds, values and matrix entries arrive as whole numbers of any size, as doubles or as truth
values.  The three are kept apart, since a whole number and the double of the same value are written
differently and are rounded at different moments; a truth value counts as `0` or `1`.
-/

namespace MigrationPlan

/-- A number as given. -/
inductive Number where
  | flag (b : Bool)
  | whole (i : Int)
  | real (x : Binary64)
deriving DecidableEq

namespace Number

/-- The whole number behind a whole number or truth value. -/
def whole? : Number → Option Int
  | flag b => some (if b then 1 else 0)
  | whole i => some i
  | real _ => none

/-- Where a number stands on the extended line; `nan` stands nowhere. -/
def extended? : Number → Option Extended
  | flag b => some (.point (if b then 1 else 0))
  | whole i => some (.point i)
  | real x => x.extended?

/-- Exact comparison between numbers of any form; false on `nan`. -/
def le (x y : Number) : Bool :=
  match x.extended?, y.extended? with
  | some p, some q => p.le q
  | _, _ => false

/-- Exact strict comparison; false on `nan`. -/
def lt (x y : Number) : Bool :=
  match x.extended?, y.extended? with
  | some p, some q => p.lt q
  | _, _ => false

/-- The larger number, in its own form; the first if neither is larger. -/
def max (x y : Number) : Number :=
  if x.lt y then y else x

/-- The smaller number, in its own form; the first if neither is smaller. -/
def min (x y : Number) : Number :=
  if y.lt x then y else x

/-- Everything but zero counts as true, `nan` included. -/
def truth : Number → Bool
  | flag b => b
  | whole i => i ≠ 0
  | real x => !x.isZero

/-- The text of a number in messages. -/
def text : Number → String
  | flag b => if b then "True" else "False"
  | whole i => toString i
  | real x => x.text

end Number

end MigrationPlan
