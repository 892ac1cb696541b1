import MigrationPlan.Numeric.Binary64

/-!
# Evaluation/Sum — two orders of adding doubles

Rounded sums depend on the order of addition.  `runningSum` adds from left to right.  `blockedSum`
adds short lists from left to right, lists of up to 128 in eight interleaved running sums, and
halves longer ones.
-/

namespace MigrationPlan

/-- Adds from left to right. -/
def runningSum (xs : List Binary64) : Binary64 :=
  xs.foldl Binary64.add 0

/-- Adds the list, block of eight by block of eight, to eight running sums; what does not fill a
last block is left over. -/
def interleave : (fuel : Nat) → (sums : List Binary64) → List Binary64 →
    List Binary64 × List Binary64
  | 0, sums, xs => (sums, xs)
  | fuel + 1, sums, xs =>
    if xs.length < 8 then (sums, xs)
    else interleave fuel (List.zipWith Binary64.add sums (xs.take 8)) (xs.drop 8)

/-- The sum of eight running sums, neighbours first. -/
def joinEight : List Binary64 → Binary64
  | [a, b, c, d, e, f, g, h] =>
    ((a.add b).add (c.add d)).add ((e.add f).add (g.add h))
  | xs => runningSum xs

/-- Adds a list of at least eight in eight interleaved running sums; what is left over comes last.
-/
def interleavedSum (xs : List Binary64) : Binary64 :=
  let (sums, left) := interleave xs.length (xs.take 8) (xs.drop 8)
  left.foldl Binary64.add (joinEight sums)

/-- The length of the first part of a long list: the largest multiple of eight in its first half. -/
def firstPart (n : Nat) : Nat :=
  n / 2 - n / 2 % 8

/-- Adds in blocks. -/
def blockedSum (xs : List Binary64) : Binary64 :=
  if xs.length < 8 then runningSum xs
  else if _h : xs.length ≤ 128 then interleavedSum xs
  else
    (blockedSum (xs.take (firstPart xs.length))).add (blockedSum (xs.drop (firstPart xs.length)))
termination_by xs.length
decreasing_by
  · simp only [firstPart, List.length_take]; omega
  · simp only [firstPart, List.length_drop]; omega

end MigrationPlan
