import MigrationPlan.Proofs.Codec.Quantize
import MigrationPlan.Proofs.Numeric.Signed

/-!
# Proofs/Codec/Steps — quantization in rounded rational arithmetic

The bounds `p < q` of an interval and the values in it are rationals here, and every operation is
the exact one, rounded.  A value is written as its `nearestIndex`, and an index is read as its
`stepValue`.  Rounding keeps order, so that every link of the two computations does, and so do the
computations (**`nearestIndex_mono`**, **`stepValue_mono`**).  At the ends nothing is lost: the
bounds are written as the least and the largest index (`nearestIndex_lower`, `nearestIndex_upper`),
the largest one because the number of steps is never rounded down (**`maxIndex_le_roundOnGrid`**),
and these two are read as the bounds.
-/

namespace MigrationPlan.Codec

variable {p q a b : Rat} {n k l : Nat}

/-! ## The definitions -/

/-- The part of an interval that lies below a value. -/
def partBelow (p q a : Rat) : Rat :=
  roundOnGrid (roundOnGrid (a - p) / roundOnGrid (q - p))

/-- The number of steps below a value. -/
def stepsBelow (n : Nat) (p q a : Rat) : Rat :=
  roundOnGrid (partBelow p q a * roundOnGrid (maxIndex n))

/-- The index that a value is written as: half a step is added and the sum rounded down, but not
beyond the largest index. -/
def nearestIndex (n : Nat) (p q a : Rat) : Nat :=
  min ⌊roundOnGrid (stepsBelow n p q a + 1 / 2)⌋.toNat (maxIndex n)

/-- The part of an interval that an index stands for. -/
def share (n k : Nat) : Rat :=
  roundOnGrid (k / maxIndex n)

/-- How far above the lower bound an index lies. -/
def stepOffset (n : Nat) (p q : Rat) (k : Nat) : Rat :=
  roundOnGrid (roundOnGrid (q - p) * share n k)

/-- The value that an index is read as. -/
def stepValue (n : Nat) (p q : Rat) (k : Nat) : Rat :=
  if k = maxIndex n then q else roundSigned (min (p + stepOffset n p q k) q)

/-! ## The number of steps -/

theorem maxIndex_add_one (n : Nat) : (maxIndex n : Rat) + 1 = (2 : Rat) ^ (n : Int) := by
  have hcount : maxIndex n + 1 = 2 ^ n := Nat.sub_add_cancel (Nat.two_pow_pos n)
  exact_mod_cast hcount

theorem maxIndex_le (n : Nat) : (maxIndex n : Rat) ≤ (2 : Rat) ^ (n : Int) := by
  have := maxIndex_add_one n
  linarith

theorem one_le_maxIndex (hn : IsWidth n) : (1 : Rat) ≤ maxIndex n :=
  Nat.one_le_cast.mpr (maxIndex_bounds hn).1

theorem maxIndex_pos (hn : IsWidth n) : (0 : Rat) < maxIndex n :=
  one_pos.trans_le (one_le_maxIndex hn)

theorem isRepresentable_two_pow (n : Nat) : IsRepresentable ((2 : Rat) ^ (n : Int)) :=
  isRepresentable_two_zpow (by omega)

theorem isRepresentable_one : IsRepresentable 1 :=
  isRepresentable_two_pow 0

theorem isRepresentable_half : IsRepresentable (1 / 2) :=
  ⟨1, -1, by norm_num, by norm_num, by norm_num⟩

theorem roundOnGrid_maxIndex_nonneg (n : Nat) : 0 ≤ roundOnGrid (maxIndex n) :=
  roundOnGrid_nonneg (Nat.cast_nonneg _)

theorem roundOnGrid_maxIndex_le (n : Nat) : roundOnGrid (maxIndex n) ≤ (2 : Rat) ^ (n : Int) :=
  roundOnGrid_le_of_le (isRepresentable_two_pow n) (Nat.cast_nonneg _) (maxIndex_le n)

/-- Up to fifty-three bits the number of steps is a double. -/
theorem roundOnGrid_maxIndex_of_le (hn : n ≤ 53) : roundOnGrid (maxIndex n) = maxIndex n := by
  have hbits : maxIndex n ≤ 2 ^ 53 :=
    (Nat.sub_le _ _).trans (Nat.pow_le_pow_right two_pos hn)
  exact roundOnGrid_of_isRepresentable ⟨maxIndex n, 0, hbits, by norm_num, by norm_num⟩

/-- Beyond that it is rounded up to a power of two: it lies at least half way up from an odd
mantissa. -/
theorem roundOnGrid_maxIndex_of_lt (hn : 53 < n) :
    roundOnGrid (maxIndex n) = (2 : Rat) ^ (n : Int) := by
  have hunit := two_zpow_pos ((n : Int) - 53)
  have htwo : (2 : Rat) ≤ (2 : Rat) ^ ((n : Int) - 53) := by
    calc (2 : Rat) = (2 : Rat) ^ (1 : Int) := (zpow_one 2).symm
      _ ≤ (2 : Rat) ^ ((n : Int) - 53) := two_zpow_le (by omega)
  have hpower : (2 : Rat) ^ (n : Int) = 2 ^ 53 * (2 : Rat) ^ ((n : Int) - 53) := by
    rw [← two_zpow_eq (by ring : 53 + ((n : Int) - 53) = n)]
    norm_num
  have hcount := maxIndex_add_one n
  have hgrid : gridExponent (maxIndex n) = (n : Int) - 53 := by
    have hlower : (2 : Rat) ^ ((n : Int) - 1) ≤ maxIndex n := by
      have hhalf := half_two_zpow (sub_add_cancel (n : Int) 1)
      linarith
    have hupper : (maxIndex n : Rat) < (2 : Rat) ^ ((n : Int) - 1 + 1) := by
      rw [sub_add_cancel]
      linarith
    rw [gridExponent, binaryLog_eq_log ((two_zpow_pos _).trans_le hlower),
      log_eq_of_mem_binade ((two_zpow_pos _).trans_le hlower) hlower hupper]
    omega
  have hround : roundHalfEven (maxIndex n / (2 : Rat) ^ ((n : Int) - 53)) = 2 ^ 53 := by
    refine roundHalfEven_of_odd (i := 2 ^ 53 - 1) (by norm_num) ?_ ?_
    · rw [le_div_iff₀ hunit]
      push_cast
      linarith
    · rw [div_lt_iff₀ hunit]
      push_cast
      linarith
  rw [roundOnGrid, hgrid, hround, hpower]
  push_cast
  rfl

/-- **The number of steps is not rounded down.** -/
theorem maxIndex_le_roundOnGrid (n : Nat) : maxIndex n ≤ roundOnGrid (maxIndex n) := by
  rcases le_or_gt n 53 with hn | hn
  · rw [roundOnGrid_maxIndex_of_le hn]
  · rw [roundOnGrid_maxIndex_of_lt hn]
    exact maxIndex_le n

/-! ## The index of a value -/

section Index

variable (hwidth : 0 < roundOnGrid (q - p))
include hwidth

theorem offset_div_nonneg (hp : p ≤ a) : 0 ≤ roundOnGrid (a - p) / roundOnGrid (q - p) :=
  div_nonneg (roundOnGrid_nonneg (sub_nonneg.mpr hp)) hwidth.le

theorem offset_div_le_one (hp : p ≤ a) (hq : a ≤ q) :
    roundOnGrid (a - p) / roundOnGrid (q - p) ≤ 1 :=
  (div_le_one hwidth).mpr (roundOnGrid_mono (sub_nonneg.mpr hp) (sub_le_sub_right hq p))

theorem partBelow_nonneg (hp : p ≤ a) : 0 ≤ partBelow p q a :=
  roundOnGrid_nonneg (offset_div_nonneg hwidth hp)

/-- No more than the whole interval lies below a value in it. -/
theorem partBelow_le_one (hp : p ≤ a) (hq : a ≤ q) : partBelow p q a ≤ 1 :=
  roundOnGrid_le_of_le isRepresentable_one (offset_div_nonneg hwidth hp)
    (offset_div_le_one hwidth hp hq)

theorem partBelow_mul_nonneg (hp : p ≤ a) : 0 ≤ partBelow p q a * roundOnGrid (maxIndex n) :=
  mul_nonneg (partBelow_nonneg hwidth hp) (roundOnGrid_maxIndex_nonneg n)

theorem partBelow_mul_le (hp : p ≤ a) (hq : a ≤ q) :
    partBelow p q a * roundOnGrid (maxIndex n) ≤ (2 : Rat) ^ (n : Int) :=
  (mul_le_of_le_one_left (roundOnGrid_maxIndex_nonneg n) (partBelow_le_one hwidth hp hq)).trans
    (roundOnGrid_maxIndex_le n)

theorem stepsBelow_add_half_nonneg (hp : p ≤ a) : 0 ≤ stepsBelow n p q a + 1 / 2 :=
  add_nonneg (roundOnGrid_nonneg (partBelow_mul_nonneg hwidth hp)) (by norm_num)

theorem stepsBelow_add_half_le (hp : p ≤ a) (hq : a ≤ q) :
    stepsBelow n p q a + 1 / 2 ≤ (2 : Rat) ^ ((n + 1 : Nat) : Int) := by
  have hsteps : stepsBelow n p q a ≤ (2 : Rat) ^ (n : Int) :=
    roundOnGrid_le_of_le (isRepresentable_two_pow n) (partBelow_mul_nonneg hwidth hp)
      (partBelow_mul_le hwidth hp hq)
  have hone : (1 : Rat) ≤ (2 : Rat) ^ (n : Int) := one_le_zpow₀ one_le_two (by omega)
  have hdouble := half_two_zpow (by push_cast; ring : (n : Int) + 1 = ((n + 1 : Nat) : Int))
  linarith

/-- The index as an integer. -/
theorem cast_nearestIndex (n : Nat) (hp : p ≤ a) :
    (nearestIndex n p q a : Int)
      = min ⌊roundOnGrid (stepsBelow n p q a + 1 / 2)⌋ (maxIndex n : Int) := by
  have hfloor := Int.floor_nonneg.mpr
    (roundOnGrid_nonneg (stepsBelow_add_half_nonneg (n := n) hwidth hp))
  rw [nearestIndex, Nat.cast_min, Int.toNat_of_nonneg hfloor]

/-- **A larger value has no smaller index.** -/
theorem nearestIndex_mono (hp : p ≤ a) (h : a ≤ b) :
    nearestIndex n p q a ≤ nearestIndex n p q b := by
  have hpart : partBelow p q a ≤ partBelow p q b := by
    refine roundOnGrid_mono (offset_div_nonneg hwidth hp) ?_
    exact div_le_div_of_nonneg_right
      (roundOnGrid_mono (sub_nonneg.mpr hp) (sub_le_sub_right h p)) hwidth.le
  have hsteps : stepsBelow n p q a ≤ stepsBelow n p q b :=
    roundOnGrid_mono (partBelow_mul_nonneg hwidth hp)
      (mul_le_mul_of_nonneg_right hpart (roundOnGrid_maxIndex_nonneg n))
  have hshifted := roundOnGrid_mono (stepsBelow_add_half_nonneg (n := n) hwidth hp)
    (add_le_add_left hsteps (1 / 2))
  exact min_le_min (Int.toNat_le_toNat (Int.floor_mono hshifted)) le_rfl

end Index

theorem nearestIndex_le (n : Nat) (p q a : Rat) : nearestIndex n p q a ≤ maxIndex n :=
  min_le_right _ _

/-- The lower bound has the least index. -/
theorem nearestIndex_lower (n : Nat) (p q : Rat) : nearestIndex n p q p = 0 := by
  have hpart : partBelow p q p = 0 := by simp [partBelow]
  have hsteps : stepsBelow n p q p = 0 := by simp [stepsBelow, hpart]
  rw [nearestIndex, hsteps, zero_add, roundOnGrid_of_isRepresentable isRepresentable_half]
  norm_num

/-- The upper bound has the largest one. -/
theorem nearestIndex_upper (hwidth : 0 < roundOnGrid (q - p)) :
    nearestIndex n p q q = maxIndex n := by
  have hpart : partBelow p q q = 1 := by
    rw [partBelow, div_self hwidth.ne', roundOnGrid_of_isRepresentable isRepresentable_one]
  have hsteps : stepsBelow n p q q = roundOnGrid (maxIndex n) := by
    rw [stepsBelow, hpart, one_mul,
      roundOnGrid_of_isRepresentable (isRepresentable_roundOnGrid (Nat.cast_nonneg _))]
  have hreach : (maxIndex n : Rat) ≤ roundOnGrid (stepsBelow n p q q + 1 / 2) := by
    rw [hsteps]
    refine (maxIndex_le_roundOnGrid n).trans ?_
    refine le_roundOnGrid (isRepresentable_roundOnGrid (Nat.cast_nonneg _))
      (roundOnGrid_maxIndex_nonneg n) ?_
    linarith
  have hfloor : (maxIndex n : Int) ≤ ⌊roundOnGrid (stepsBelow n p q q + 1 / 2)⌋ :=
    Int.le_floor.mpr (by exact_mod_cast hreach)
  rw [nearestIndex]
  omega

/-! ## The value of an index -/

theorem div_maxIndex_nonneg (n k : Nat) : (0 : Rat) ≤ k / maxIndex n :=
  div_nonneg (Nat.cast_nonneg _) (Nat.cast_nonneg _)

theorem div_maxIndex_le_one (hk : k ≤ maxIndex n) : (k : Rat) / maxIndex n ≤ 1 :=
  div_le_one_of_le₀ (Nat.cast_le.mpr hk) (Nat.cast_nonneg _)

theorem share_nonneg (n k : Nat) : 0 ≤ share n k :=
  roundOnGrid_nonneg (div_maxIndex_nonneg n k)

/-- No index stands for more than the whole interval. -/
theorem share_le_one (hk : k ≤ maxIndex n) : share n k ≤ 1 :=
  roundOnGrid_le_of_le isRepresentable_one (div_maxIndex_nonneg n k) (div_maxIndex_le_one hk)

theorem share_mono (h : k ≤ l) : share n k ≤ share n l :=
  roundOnGrid_mono (div_maxIndex_nonneg n k)
    (div_le_div_of_nonneg_right (Nat.cast_le.mpr h) (Nat.cast_nonneg _))

/-- The largest index is read as the upper bound. -/
theorem stepValue_maxIndex (n : Nat) (p q : Rat) : stepValue n p q (maxIndex n) = q :=
  if_pos rfl

section Value

variable (hpq : p ≤ q)
include hpq

theorem stepOffset_nonneg : 0 ≤ stepOffset n p q k :=
  roundOnGrid_nonneg (mul_nonneg (roundOnGrid_nonneg (sub_nonneg.mpr hpq)) (share_nonneg n k))

theorem stepOffset_mono (h : k ≤ l) : stepOffset n p q k ≤ stepOffset n p q l := by
  have hwidth := roundOnGrid_nonneg (sub_nonneg.mpr hpq)
  exact roundOnGrid_mono (mul_nonneg hwidth (share_nonneg n k))
    (mul_le_mul_of_nonneg_left (share_mono h) hwidth)

/-- **What is read lies between the bounds.** -/
theorem stepValue_mem (hp : IsRepresentable |p|) (hq : IsRepresentable |q|) :
    p ≤ stepValue n p q k ∧ stepValue n p q k ≤ q := by
  rw [stepValue]
  split_ifs
  · exact ⟨hpq, le_rfl⟩
  · have hlower : p ≤ min (p + stepOffset n p q k) q :=
      le_min (le_add_of_nonneg_right (stepOffset_nonneg hpq)) hpq
    constructor
    · exact (roundSigned_of_isRepresentable hp).ge.trans (roundSigned_mono hlower)
    · exact (roundSigned_mono (min_le_right _ _)).trans_eq (roundSigned_of_isRepresentable hq)

/-- **A larger index is not read as less**: below the largest one every link keeps order, and the
largest is read as the upper bound. -/
theorem stepValue_mono (hp : IsRepresentable |p|) (hq : IsRepresentable |q|) (h : k ≤ l)
    (hl : l ≤ maxIndex n) : stepValue n p q k ≤ stepValue n p q l := by
  rcases hl.eq_or_lt with rfl | hlt
  · exact (stepValue_mem hpq hp hq).2.trans_eq (stepValue_maxIndex n p q).symm
  · rw [stepValue, stepValue, if_neg (h.trans_lt hlt).ne, if_neg hlt.ne]
    refine roundSigned_mono (min_le_min ?_ le_rfl)
    exact add_le_add_right (stepOffset_mono hpq h) p

end Value

/-- The least index is read as the lower bound. -/
theorem stepValue_zero (hpq : p ≤ q) (hn : IsWidth n) (hp : IsRepresentable |p|) :
    stepValue n p q 0 = p := by
  have hnonzero : 0 ≠ maxIndex n := (Nat.one_le_iff_ne_zero.mp (maxIndex_bounds hn).1).symm
  have hoffset : stepOffset n p q 0 = 0 := by simp [stepOffset, share]
  rw [stepValue, if_neg hnonzero, hoffset, add_zero, min_eq_left hpq,
    roundSigned_of_isRepresentable hp]

end MigrationPlan.Codec
