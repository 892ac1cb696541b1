import MigrationPlan.Datum.Reading

/-!
# Evaluation/Constraint — budgets and their overruns

A version's overrun is what its cost exceeds its budget by, and zero if it does not; a positive
overrun makes a plan infeasible.
-/

namespace MigrationPlan

/-- The name of a version's constraint; versions count from zero. -/
def constraintName (version : Nat) : String :=
  "budget_v" ++ toString version

/-- The names of all constraints, in the order of the versions. -/
def constraintNames (versions : Nat) : List String :=
  (List.range versions).map constraintName

/-- What a cost exceeds a budget by, and `nan` if the two cannot be told apart. -/
def overrun (cost budget : Binary64) : Binary64 :=
  (cost.sub budget).max 0

/-- An overrun that is not positive. -/
def isWithin (excess : Binary64) : Bool :=
  excess.le 0

/-- The overruns of arrays of one shape. -/
def overrunsOf (cost budget : Shape × List Binary64) : Except Fault (Shape × List Binary64) :=
  if cost.1 = budget.1 then .ok (cost.1, List.zipWith overrun cost.2 budget.2)
  else .error (.slackShapes cost.1 budget.1)

/-- The overruns of arrays as given; a missing entry counts as `nan`. -/
def overruns (cost budget : Datum) : Except Fault (Shape × List Binary64) := do
  let costs ← cost.doubles?
  let budgets ← budget.doubles?
  overrunsOf costs budgets

/-- One version's cost against its budget. -/
structure ConstraintRecord where
  name : String
  rawCost : Binary64
  budget : Binary64
  overrun : Binary64
deriving DecidableEq

/-- The cost keeps to the budget. -/
def ConstraintRecord.isFeasible (r : ConstraintRecord) : Bool :=
  isWithin r.overrun

/-- One record per name, cost and budget. -/
def constraintRecords : List String → List Binary64 → List Binary64 → List ConstraintRecord
  | name :: names, cost :: costs, budget :: budgets =>
    ⟨name, cost, budget, overrun cost budget⟩ :: constraintRecords names costs budgets
  | _, _, _ => []

/-- The names of the constraints of so many versions as given, a negative number of which has none.
-/
def constraintNamesGiven (versions : Datum) : Except Fault (List String) :=
  versions.count?.map fun n => constraintNames n.toNat

/-! ## Descriptions -/

/-- A whole number that no array of words, signed or not, can hold, or nothing at all. -/
def Entry.isUnwieldy : Entry → Bool
  | missing => true
  | number (.whole i) => i < -0x8000000000000000 || 0x10000000000000000 ≤ i
  | _ => false

/-- An entry beside which text stands in an array: all of them are texts then. -/
def Entry.textToReal? (e : Entry) : Except Fault Binary64 :=
  (Text.readReal e.display).mapError fun _ => .notAnEntryText e.display

/-- A list of doubles before its form is settled.  Text among wieldy entries turns all entries into
text. -/
def mixedDoubles? (d : Datum) : Except Fault (Shape × List Binary64) := do
  let entries := d.entries
  let isText := fun | Entry.text _ => true | _ => false
  if entries.any isText && !entries.any Entry.isUnwieldy then d.read? Entry.textToReal?
  else d.doubles?

/-- One record per name, cost and budget. -/
def describe : List Datum → List Datum → List Datum → List Binary64 →
    Except Fault (List (Datum × ConstraintRecord))
  | name :: names, cost :: costs, budget :: budgets, excess :: rest => do
    let c ← cost.toReal?
    let b ← budget.toReal?
    let others ← describe names costs budgets rest
    .ok ((name, ⟨name.display, c, b, excess⟩) :: others)
  | _, _, _, _ => .ok []

/-- The records of two lists of numbers, under given names or the default ones; each record comes
with its name as given.  The shapes of both lists are looked at before their entries. -/
def describeConstraints (cost budget : Datum) (names : Option Datum) :
    Except Fault (List (Datum × ConstraintRecord)) := do
  let _ ← cost.read? Except.ok
  let _ ← budget.read? Except.ok
  let costs ← mixedDoubles? cost
  let budgets ← mixedDoubles? budget
  let (sides, excesses) ← overrunsOf costs budgets
  let names ← match names with
    | some given => given.items?
    | none =>
      match sides with
      | count :: _ => .ok ((constraintNames count).map .text)
      | [] => .error .notANumber
  match sides with
  | [] => .error .notANumber
  | count :: _ =>
    if names.length ≠ count then .error (.nameCount names.length count)
    else describe names (← cost.items?) (← budget.items?) excesses

end MigrationPlan
