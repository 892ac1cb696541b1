import MigrationPlan.Variable.Access

/-!
# Variable/Batch — reading and writing a run of variables

A batch lists variables of a pool by their positions, and may list one of them twice.  The batch
operations walk it from `start` up to `stop` in order.  The writes check every element before the
first is written.
-/

namespace MigrationPlan

/-- Positions in a pool of variables. -/
abbrev Batch := List Nat

namespace Variable

/-- The variable at a position of a pool. -/
def at? (pool : List Variable) (i : Nat) : Except Fault Variable :=
  match pool[i]? with
  | some v => .ok v
  | none => .error .positionOutside

/-- The part of a batch from `start` up to `stop`, by default to the end. -/
def span (batch : Batch) (start : Datum) (stop : Option Datum) : Except Fault Batch := do
  let stop := stop.getD (.whole batch.length)
  let outside := Fault.span start.display stop.display batch.length
  let first ← start.number?
  if !(Number.whole 0).le first then .error outside
  let last ← stop.number?
  if !(first.le last && last.le (.whole batch.length)) then .error outside
  let i ← start.count?
  let j ← stop.count?
  .ok ((batch.drop i.toNat).take (j - i).toNat)

/-- The reals of a span. -/
def asReals (pool : List Variable) (batch : Batch) (start : Datum) (stop : Option Datum) :
    Except Fault (List Binary64) := do
  let values ← (← span batch start stop).mapM fun i => do asReal (← at? pool i)
  values.mapM Number.toReal?

/-- The integers of a span, as words. -/
def asInts (pool : List Variable) (batch : Batch) (start : Datum) (stop : Option Datum) :
    Except Fault (List Int) := do
  let values ← (← span batch start stop).mapM fun i => do asInt (← at? pool i)
  values.mapM Entry.word?

/-- As many values as positions. -/
def checkCount (is : Batch) (values : List Datum) : Except Fault Unit :=
  if values.length = is.length then .ok () else .error (.valuesExpected is.length values.length)

/-- Checks a value for each position, in order. -/
def checkEach {α : Type} (check : Variable → Datum → Except Fault α) (pool : List Variable)
    (is : Batch) (values : List Datum) : Except Fault (List (Nat × α)) :=
  (is.zip values).mapM fun (i, x) => do
    let v ← at? pool i
    (check v x).map (i, ·)

/-- Writes doubles that have been checked. -/
def writeReals (pool : List Variable) (checked : List (Nat × Binary64)) : List Variable :=
  checked.foldl (fun pool (i, x) => pool.modify i fun
    | real w => real { w with value := .real x }
    | v => v) pool

/-- Writes integers one after the other, each through `setInt`; what was written before a refusal
stays. -/
def writeInts : (checked : List (Nat × Int)) → (pool : List Variable) → Outcome (List Variable) Unit
  | [], pool => ⟨pool, .ok ()⟩
  | (i, x) :: rest, pool =>
    match (at? pool i).bind (·.setInt (.whole x)) with
    | .ok w => writeInts rest (pool.set i w)
    | .error fault => ⟨pool, .error fault⟩

/-- Replaces the values of a span of real variables. -/
def setReals (pool : List Variable) (batch : Batch) (values : Datum) (start : Datum)
    (stop : Option Datum) : Outcome (List Variable) Unit :=
  Outcome.commit pool do
    let is ← span batch start stop
    let values ← values.items?
    checkCount is values
    let checked ← checkEach (fun v x => do checkReal (← v.real?) x) pool is values
    .ok (writeReals pool checked, ())

/-- Replaces the values of a span of integer and real variables by integers. -/
def setInts (pool : List Variable) (batch : Batch) (values : Datum) (start : Datum)
    (stop : Option Datum) : Outcome (List Variable) Unit :=
  let checked := do
    let is ← span batch start stop
    let values ← values.items?
    checkCount is values
    checkEach checkInt pool is values
  match checked with
  | .ok checked => writeInts checked pool
  | .error fault => ⟨pool, .error fault⟩

end Variable

end MigrationPlan
