import MigrationPlan.Evaluation.Sum
import MigrationPlan.Proofs.Numeric.Binary64
import Mathlib.Algebra.BigOperators.Group.List.Basic
import Mathlib.Data.List.Forall2

/-!
# Proofs/Evaluation/Sum — every order of adding adds every term once

Whether a list is added from left to right or in blocks, each of its terms goes into the result once
and nothing else does but zeros.  So a relation between doubles and natural numbers that holds of
zeros and is kept by one addition (`AddsUp`) holds between the rounded sum and the exact one, in
either order: **`AddsUp.runningSum`**, **`AddsUp.blockedSum`**.
-/

namespace MigrationPlan

/-- A relation between doubles and natural numbers that additions keep. -/
structure AddsUp (R : Binary64 → Nat → Prop) : Prop where
  zero : R 0 0
  add {x y : Binary64} {m n : Nat} (hx : R x m) (hy : R y n) : R (x.add y) (m + n)

namespace AddsUp

variable {R : Binary64 → Nat → Prop} {xs ys sums : List Binary64} {ms ns : List Nat}
  {x : Binary64} {n : Nat}

/-- Adding a list to a running sum. -/
theorem foldl (hR : AddsUp R) (hx : R x n) (h : List.Forall₂ R xs ns) :
    R (xs.foldl Binary64.add x) (n + ns.sum) := by
  induction h generalizing x n with
  | nil => exact hx
  | cons hy _ ih =>
    rw [List.sum_cons, ← Nat.add_assoc]
    exact ih (hR.add hx hy)

/-- **A sum from left to right.** -/
theorem runningSum (hR : AddsUp R) (h : List.Forall₂ R xs ns) :
    R (MigrationPlan.runningSum xs) ns.sum := by
  rw [← Nat.zero_add ns.sum]
  exact hR.foldl hR.zero h

/-- Running sums that each take one more term. -/
theorem zipWith (hR : AddsUp R) (hx : List.Forall₂ R xs ms) (hy : List.Forall₂ R ys ns) :
    List.Forall₂ R (List.zipWith Binary64.add xs ys) (List.zipWith (· + ·) ms ns) := by
  induction hx generalizing ys ns with
  | nil => exact .nil
  | cons hx _ ih =>
    cases hy with
    | nil => exact .nil
    | cons hy hys => exact .cons (hR.add hx hy) (ih hys)

/-- **Eight running sums and what is left over share the terms out between them.** -/
theorem interleave (hR : AddsUp R) (fuel : Nat) (hsums : List.Forall₂ R sums ms)
    (height : ms.length = 8) (h : List.Forall₂ R xs ns) :
    ∃ ms' ns', List.Forall₂ R (MigrationPlan.interleave fuel sums xs).1 ms'
      ∧ List.Forall₂ R (MigrationPlan.interleave fuel sums xs).2 ns'
      ∧ ms'.sum + ns'.sum = ms.sum + ns.sum := by
  induction fuel generalizing sums ms xs ns with
  | zero => exact ⟨ms, ns, hsums, h, rfl⟩
  | succ fuel ih =>
    rw [MigrationPlan.interleave]
    split_ifs with hshort
    · exact ⟨ms, ns, hsums, h, rfl⟩
    · have htake : (ns.take 8).length = 8 := by
        rw [List.length_take, ← h.length_eq]
        omega
      have hheight : (List.zipWith (· + ·) ms (ns.take 8)).length = 8 := by
        rw [List.length_zipWith, height, htake, Nat.min_self]
      obtain ⟨ms', ns', hms', hns', hsum⟩ :=
        ih (hR.zipWith hsums (List.forall₂_take 8 h)) hheight (List.forall₂_drop 8 h)
      refine ⟨ms', ns', hms', hns', hsum.trans ?_⟩
      rw [← List.sum_add_sum_eq_sum_zipWith_of_length_eq ms (ns.take 8) (height.trans htake.symm),
        Nat.add_assoc, List.sum_take_add_sum_drop]

/-- The eight sums joined. -/
theorem joinEight (hR : AddsUp R) (h : List.Forall₂ R sums ms) :
    R (MigrationPlan.joinEight sums) ms.sum := by
  rw [MigrationPlan.joinEight.eq_def]
  split
  · obtain _ | ⟨ha, _ | ⟨hb, _ | ⟨hc, _ | ⟨hd, _ | ⟨he, _ | ⟨hf, _ | ⟨hg, _ | ⟨hh, ⟨⟩⟩⟩⟩⟩⟩⟩⟩⟩ := h
    have hleft := hR.add (hR.add ha hb) (hR.add hc hd)
    have hright := hR.add (hR.add he hf) (hR.add hg hh)
    simpa only [List.sum_cons, List.sum_nil, Nat.add_assoc, Nat.add_zero] using hR.add hleft hright
  · exact hR.runningSum h

/-- A list of at least eight in eight running sums. -/
theorem interleavedSum (hR : AddsUp R) (height : 8 ≤ xs.length) (h : List.Forall₂ R xs ns) :
    R (MigrationPlan.interleavedSum xs) ns.sum := by
  have htake : (ns.take 8).length = 8 := by
    rw [List.length_take, ← h.length_eq, Nat.min_eq_left height]
  obtain ⟨ms, left, hms, hleft, hsum⟩ :=
    hR.interleave xs.length (List.forall₂_take 8 h) htake (List.forall₂_drop 8 h)
  rw [← List.sum_take_add_sum_drop ns 8, ← hsum]
  exact hR.foldl (hR.joinEight hms) hleft

/-- **A sum in blocks.** -/
theorem blockedSum (hR : AddsUp R) (h : List.Forall₂ R xs ns) :
    R (MigrationPlan.blockedSum xs) ns.sum := by
  fun_induction MigrationPlan.blockedSum xs generalizing ns with
  | case1 xs hshort => exact hR.runningSum h
  | case2 xs hshort hmiddle => exact hR.interleavedSum (not_lt.mp hshort) h
  | case3 xs hshort hlong ihtake ihdrop =>
    rw [← List.sum_take_add_sum_drop ns (firstPart xs.length)]
    exact hR.add (ihtake (List.forall₂_take _ h)) (ihdrop (List.forall₂_drop _ h))

end AddsUp

end MigrationPlan
