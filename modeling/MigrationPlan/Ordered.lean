/-!
# Ordered — ascending lists of integers

Messages show integers in ascending order, and a set of integers is kept as its ascending list.
`sortInts` keeps repeats, `memberList` drops them.
-/

namespace MigrationPlan

/-- Puts an integer before the first one that is not smaller. -/
def insertInt (x : Int) : List Int → List Int
  | [] => [x]
  | y :: ys => if x ≤ y then x :: y :: ys else y :: insertInt x ys

/-- The integers in ascending order, repeats kept. -/
def sortInts (xs : List Int) : List Int :=
  xs.foldr insertInt []

/-- Adds a member to an ascending list, unless it is there. -/
def insertMember (x : Int) : List Int → List Int
  | [] => [x]
  | y :: ys => if x < y then x :: y :: ys else if x = y then y :: ys else y :: insertMember x ys

/-- The set of the given integers, as its ascending list. -/
def memberList (xs : List Int) : List Int :=
  xs.foldr insertMember []

theorem mem_insertMember {x y : Int} {ys : List Int} :
    x ∈ insertMember y ys ↔ x = y ∨ x ∈ ys := by
  induction ys with
  | nil => simp [insertMember]
  | cons z zs ih =>
    rw [insertMember]
    split
    · simp
    · split <;> grind

/-- The list holds the given integers and no others. -/
theorem mem_memberList {x : Int} {xs : List Int} : x ∈ memberList xs ↔ x ∈ xs := by
  induction xs with
  | nil => simp [memberList]
  | cons y ys ih =>
    rw [memberList, List.foldr_cons, mem_insertMember, List.mem_cons, ← ih, memberList]

/-- The positions at which a list of truth values is true, counted from `start`. -/
def positionsFrom (start : Nat) : List Bool → List Nat
  | [] => []
  | b :: bs => if b then start :: positionsFrom (start + 1) bs else positionsFrom (start + 1) bs

/-- The positions at which a list of truth values is true. -/
def positions (bs : List Bool) : List Nat :=
  positionsFrom 0 bs

end MigrationPlan
