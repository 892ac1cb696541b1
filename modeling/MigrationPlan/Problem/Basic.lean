import MigrationPlan.Datum.Reading

/-!
# Problem/Basic — what there is to plan

A migration problem has product versions and candidate functionalities.  Each functionality has a
business value and a cost in each version, and each version has a budget.  `Problem.create` builds
one from nested lists and says what is wrong with those that are not `WellFormed` matrices.
-/

namespace MigrationPlan

/-- A migration problem; the rows of `value` and `cost` are versions. -/
structure Problem where
  versions : Nat
  functionalities : Nat
  value : List (List Nat)
  cost : List (List Nat)
  budget : List Nat
deriving DecidableEq

namespace Problem

/-- Whether two problems have the same sizes and the same entries. -/
def equals (p q : Problem) : Bool :=
  p.versions == q.versions && p.functionalities == q.functionalities && p.value == q.value
    && p.cost == q.cost && p.budget == q.budget

instance : BEq Problem := ⟨equals⟩

theorem beq_eq_equals (p q : Problem) : (p == q) = p.equals q :=
  rfl

/-- The largest entry, `2 ^ 63 - 1`. -/
def maxEntry : Nat := 0x7FFFFFFFFFFFFFFF

/-- A matrix with the given sides and admissible entries. -/
def IsMatrix (rows columns : Nat) (m : List (List Nat)) : Prop :=
  m.length = rows ∧ ∀ row ∈ m, row.length = columns ∧ ∀ x ∈ row, x ≤ maxEntry

/-- **The problems there are**: at least one version and one functionality, full matrices, one
budget per version, and entries of a signed 64-bit word. -/
structure WellFormed (p : Problem) : Prop where
  one_le_versions : 1 ≤ p.versions
  one_le_functionalities : 1 ≤ p.functionalities
  value : IsMatrix p.versions p.functionalities p.value
  cost : IsMatrix p.versions p.functionalities p.cost
  budget : p.budget.length = p.versions ∧ ∀ x ∈ p.budget, x ≤ maxEntry

instance (rows columns : Nat) (m : List (List Nat)) : Decidable (IsMatrix rows columns m) :=
  inferInstanceAs (Decidable (_ ∧ ∀ row ∈ m, _ ∧ _))

instance (p : Problem) : Decidable p.WellFormed :=
  decidable_of_iff (1 ≤ p.versions ∧ 1 ≤ p.functionalities
      ∧ IsMatrix p.versions p.functionalities p.value
      ∧ IsMatrix p.versions p.functionalities p.cost
      ∧ p.budget.length = p.versions ∧ ∀ x ∈ p.budget, x ≤ maxEntry)
    ⟨fun ⟨hn, hm, hvalue, hcost, hbudget⟩ => ⟨hn, hm, hvalue, hcost, hbudget⟩,
      fun ⟨hn, hm, hvalue, hcost, hbudget⟩ => ⟨hn, hm, hvalue, hcost, hbudget⟩⟩

/-- Cuts a list into rows of a given length. -/
def toRows (columns : Nat) : (rows : Nat) → List Nat → List (List Nat)
  | 0, _ => []
  | rows + 1, xs => xs.take columns :: toRows columns rows (xs.drop columns)

/-- Reads an array of the problem: it has to be full, with words for entries, none negative. -/
def readArray (name : ProblemArray) (array : Datum) : Except Fault (Shape × List Nat) :=
  match array.words? with
  | .error fault => .error (if fault.category = .value then .notFull name else fault)
  | .ok (sides, entries) =>
    if entries.any (· < 0) then .error (.negativeEntries name)
    else .ok (sides, entries.map Int.toNat)

/-- A number of versions or functionalities has to be at least one. -/
def readSize (fault : Number → Fault) (size : Datum) : Except Fault Number := do
  let n ← size.number?
  if n.lt (.whole 1) then .error (fault n) else .ok n

/-- Whether the sides of an array are the numbers announced. -/
def hasSides (sides : Shape) (announced : List Number) : Bool :=
  sides.length = announced.length && (List.zipWith (fun (k : Nat) (n : Number) =>
    (Number.whole k).le n && n.le (.whole k)) sides announced).all id

/-- Builds a problem of the announced size.  The sizes are looked at first, then the entries of all
three arrays, then their shapes. -/
def create (versions functionalities value cost budget : Datum) : Except Fault Problem := do
  let n ← readSize .versionCount versions
  let m ← readSize .functionalityCount functionalities
  let (valueSides, values) ← readArray .value value
  let (costSides, costs) ← readArray .cost cost
  let (budgetSides, budgets) ← readArray .budget budget
  if !hasSides valueSides [n, m] then .error (.matrixShape .value valueSides n m)
  if !hasSides costSides [n, m] then .error (.matrixShape .cost costSides n m)
  if !hasSides budgetSides [n] then .error (.budgetShape budgetSides n)
  let rows := valueSides.getD 0 0
  let columns := valueSides.getD 1 0
  .ok ⟨rows, columns, toRows columns rows values, toRows columns rows costs, budgets⟩

/-- Builds a problem whose size is that of the value matrix and its first row. -/
def ofLists (value cost budget : Datum) : Except Fault Problem := do
  let rows ← value.items?
  let m ← match rows with
    | [] => .ok 0
    | row :: _ => row.items?.map List.length
  create (.whole rows.length) (.whole m) value cost budget

end Problem

/-! ## Announced sizes -/

/-- A problem with its sizes in the form in which they were announced; `2` and `2.0` versions are
as many and are shown differently. -/
structure AnnouncedProblem where
  problem : Problem
  versions : Number
  functionalities : Number
deriving DecidableEq

namespace AnnouncedProblem

/-- Builds a problem and keeps what was announced. -/
def create (versions functionalities value cost budget : Datum) :
    Except Fault AnnouncedProblem := do
  let p ← Problem.create versions functionalities value cost budget
  .ok ⟨p, ← versions.number?, ← functionalities.number?⟩

end AnnouncedProblem

/-- The sizes of a problem announced as whole numbers. -/
def Problem.announced (p : Problem) : AnnouncedProblem :=
  ⟨p, .whole p.versions, .whole p.functionalities⟩

end MigrationPlan
