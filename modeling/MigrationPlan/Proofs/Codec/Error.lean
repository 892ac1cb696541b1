import MigrationPlan.Proofs.Codec.Bounds
import Mathlib.Algebra.Order.Group.MinMax

/-!
# Proofs/Codec/Error — how far a real is from what its bits are read as

A value is written as the index of the step nearest to it, half a step away.  Rounding adds to that:
the operations between a value and its index, those between the index and its value, and the last
of them, which leads to a double.  All but the last change a part of the width, and together no
more than half the `slack` (**`abs_exactValue_sub_le`**).  The last doubles what is there, the value
being a double itself (`abs_stepValue_sub_le`); and where doubles are close enough it does not lead
beyond a step (`abs_stepValue_sub_le_of_spacing`).  The main statement is
**`decodeRealGiven_encodeRealGiven_error`**, and the slack is not for nothing:
`isBeyondStep_inputs`.
-/

namespace MigrationPlan.Codec

variable {lower upper x : Binary64} {p q a t : Rat} {n k : Nat}

/-! ## The error of an index -/

/-- The number of steps is rounded up by no more than one part in `2 ^ 54`. -/
theorem roundOnGrid_maxIndex_sub_le (n : Nat) :
    roundOnGrid (maxIndex n) - maxIndex n ≤ (2 : Rat) ^ ((n : Int) - 54) := by
  rcases le_or_gt n 53 with hn | hn
  · rw [roundOnGrid_maxIndex_of_le hn, sub_self]
    exact (two_zpow_pos _).le
  · rw [roundOnGrid_maxIndex_of_lt hn, ← maxIndex_add_one, add_sub_cancel_left]
    exact one_le_zpow₀ one_le_two (by omega)

/-- What is rounded away of numbers up to `2 ^ n`, in terms of the number of steps. -/
theorem two_zpow_le_mul_roundoff (hn : IsWidth n) :
    (2 : Rat) ^ ((n : Int) - 52) ≤ 4 * roundoff * maxIndex n := by
  have hone := one_le_maxIndex hn
  have hdouble : (2 : Rat) ^ (-52 : Int) / 2 = roundoff := half_two_zpow (by norm_num)
  calc (2 : Rat) ^ ((n : Int) - 52) = 2 * roundoff * (2 : Rat) ^ (n : Int) := by
        rw [← hdouble, mul_div_cancel₀ _ two_ne_zero,
          two_zpow_eq (by ring : (-52 : Int) + n = n - 52)]
    _ ≤ 2 * roundoff * (2 * maxIndex n) := by
        rw [← maxIndex_add_one]
        exact mul_le_mul_of_nonneg_left (by linarith) (by linarith [roundoff_pos])
    _ = 4 * roundoff * maxIndex n := by ring

/-- Adding half and rounding down is rounding to an integer, but for the sum being rounded. -/
theorem abs_floor_sub_le (ht : 0 ≤ t + 1 / 2)
    (hmax : t + 1 / 2 ≤ (2 : Rat) ^ ((n + 1 : Nat) : Int)) :
    |(⌊roundOnGrid (t + 1 / 2)⌋ : Rat) - t| ≤ 1 / 2 + (2 : Rat) ^ ((n : Int) - 53) := by
  have hround := abs_roundOnGrid_sub_le_of_le ht hmax (by omega)
  have hbits : ((n + 1 : Nat) : Int) - 54 = (n : Int) - 53 := by push_cast; ring
  have hfloor := Int.floor_le (roundOnGrid (t + 1 / 2))
  have hsucc := Int.lt_floor_add_one (roundOnGrid (t + 1 / 2))
  rw [hbits, abs_le] at hround
  rw [abs_le]
  constructor <;> linarith

/-- What is cut off at a bound is no farther from what lies below it. -/
theorem abs_min_sub_le {b c : Rat} (ha : a ≤ c) : |min b c - a| ≤ |b - a| := by
  have hmin := abs_min_sub_min_le_max b c a c
  rwa [min_eq_left ha, sub_self, abs_zero, max_eq_left (abs_nonneg _)] at hmin

section Index

variable (hwidth : 0 < roundOnGrid (q - p)) (hp : p ≤ a) (hq : a ≤ q)
include hwidth hp hq

/-- **An index is half a step from the steps below its value**, and what three operations on numbers
up to `2 ^ n` change. -/
theorem abs_nearestIndex_sub_le (n : Nat) :
    |(nearestIndex n p q a : Rat) - partBelow p q a * maxIndex n|
      ≤ 1 / 2 + (2 : Rat) ^ ((n : Int) - 52) := by
  have hpart := partBelow_le_one hwidth hp hq
  have hsteps : |stepsBelow n p q a - partBelow p q a * roundOnGrid (maxIndex n)|
      ≤ (2 : Rat) ^ ((n : Int) - 54) :=
    abs_roundOnGrid_sub_le_of_le (partBelow_mul_nonneg hwidth hp) (partBelow_mul_le hwidth hp hq)
      (by omega)
  have hfloor := abs_floor_sub_le (stepsBelow_add_half_nonneg (n := n) hwidth hp)
    (stepsBelow_add_half_le hwidth hp hq)
  have hcount : |partBelow p q a * roundOnGrid (maxIndex n) - partBelow p q a * maxIndex n|
      ≤ (2 : Rat) ^ ((n : Int) - 54) := by
    have hup := sub_nonneg.mpr (maxIndex_le_roundOnGrid n)
    rw [← mul_sub, abs_of_nonneg (mul_nonneg (partBelow_nonneg hwidth hp) hup)]
    exact (mul_le_of_le_one_left hup hpart).trans (roundOnGrid_maxIndex_sub_le n)
  have hcut : partBelow p q a * maxIndex n ≤ maxIndex n :=
    mul_le_of_le_one_left (Nat.cast_nonneg _) hpart
  have hquarter := half_two_zpow (by ring : (n : Int) - 54 + 1 = (n : Int) - 53)
  have hhalf := half_two_zpow (by ring : (n : Int) - 53 + 1 = (n : Int) - 52)
  rw [← Int.cast_natCast, cast_nearestIndex hwidth n hp, Int.cast_min, Int.cast_natCast]
  refine (abs_min_sub_le hcut).trans ?_
  rw [abs_le] at hsteps hfloor hcount ⊢
  constructor <;> linarith

/-- **In terms of the width, what lies below a value is half a step from what lies below its
index**, and nine halves of the roundoff. -/
theorem abs_mul_nearestIndex_sub_le (hn : IsWidth n) :
    |roundOnGrid (q - p) * (nearestIndex n p q a / maxIndex n) - roundOnGrid (a - p)|
      ≤ roundOnGrid (q - p) / (2 * maxIndex n) + 9 / 2 * (roundOnGrid (q - p) * roundoff) := by
  have hsteps := abs_nearestIndex_sub_le hwidth hp hq n
  have hpart : |partBelow p q a - roundOnGrid (a - p) / roundOnGrid (q - p)| ≤ roundoff / 2 :=
    abs_roundOnGrid_sub_le_of_le_one (offset_div_nonneg hwidth hp) (offset_div_le_one hwidth hp hq)
  have hmax := maxIndex_pos hn
  have hsplit : roundOnGrid (q - p) * (nearestIndex n p q a / maxIndex n) - roundOnGrid (a - p)
      = roundOnGrid (q - p) / maxIndex n * (nearestIndex n p q a - partBelow p q a * maxIndex n)
        + roundOnGrid (q - p)
          * (partBelow p q a - roundOnGrid (a - p) / roundOnGrid (q - p)) := by
    field_simp
    ring
  rw [hsplit]
  refine (abs_add_le _ _).trans ?_
  rw [abs_mul, abs_mul, abs_of_pos (div_pos hwidth hmax), abs_of_pos hwidth]
  have hindex := mul_le_mul_of_nonneg_left
    (hsteps.trans (add_le_add_right (two_zpow_le_mul_roundoff hn) _)) (div_pos hwidth hmax).le
  have hoffset := mul_le_mul_of_nonneg_left hpart hwidth.le
  have hexpand : roundOnGrid (q - p) / maxIndex n * (1 / 2 + 4 * roundoff * maxIndex n)
      = roundOnGrid (q - p) / (2 * maxIndex n) + 4 * (roundOnGrid (q - p) * roundoff) := by
    field_simp
  linarith

end Index

/-! ## The error of a value -/

/-- How far above the lower bound an index lies, up to rounding. -/
theorem abs_stepOffset_sub_le (hpq : p ≤ q) (hk : k ≤ maxIndex n) :
    |stepOffset n p q k - roundOnGrid (q - p) * (k / maxIndex n)|
      ≤ 3 / 2 * (roundOnGrid (q - p) * roundoff) + (2 : Rat) ^ (-1075 : Int) := by
  have hwidth := roundOnGrid_nonneg (sub_nonneg.mpr hpq)
  have hshare : |share n k - k / maxIndex n| ≤ roundoff / 2 :=
    abs_roundOnGrid_sub_le_of_le_one (div_maxIndex_nonneg n k) (div_maxIndex_le_one hk)
  have hpart : roundOnGrid (q - p) * share n k ≤ roundOnGrid (q - p) :=
    mul_le_of_le_one_right hwidth (share_le_one hk)
  have hround : |stepOffset n p q k - roundOnGrid (q - p) * share n k|
      ≤ roundOnGrid (q - p) * share n k * roundoff + (2 : Rat) ^ (-1075 : Int) :=
    abs_roundOnGrid_sub_le_mul_add (mul_nonneg hwidth (share_nonneg n k))
  have hscaled : |roundOnGrid (q - p) * share n k - roundOnGrid (q - p) * (k / maxIndex n)|
      ≤ roundOnGrid (q - p) * (roundoff / 2) := by
    rw [← mul_sub, abs_mul, abs_of_nonneg hwidth]
    exact mul_le_mul_of_nonneg_left hshare hwidth
  have hmono := mul_le_mul_of_nonneg_right hpart roundoff_pos.le
  refine (abs_sub_le _ _ _).trans ((add_le_add hround hscaled).trans ?_)
  linarith

/-- The value of an index, before it is rounded to a double. -/
def exactValue (n : Nat) (p q : Rat) (k : Nat) : Rat :=
  if k = maxIndex n then q else min (p + stepOffset n p q k) q

theorem stepValue_eq_roundSigned (hq : IsRepresentable |q|) (k : Nat) :
    stepValue n p q k = roundSigned (exactValue n p q k) := by
  rw [stepValue, exactValue]
  split_ifs
  · exact (roundSigned_of_isRepresentable hq).symm
  · rfl

/-- What rounding adds to the error: one part in `2 ^ 49` of the width, and the least double. -/
def slack (d : Rat) : Rat :=
  d / 2 ^ 49 + (2 : Rat) ^ (-1074 : Int)

theorem slack_nonneg {d : Rat} (hd : 0 ≤ d) : 0 ≤ slack d :=
  add_nonneg (div_nonneg hd (by norm_num)) (two_zpow_pos _).le

theorem half_slack (d : Rat) : slack d / 2 = 8 * (d * roundoff) + (2 : Rat) ^ (-1075 : Int) := by
  have hleast := half_two_zpow (by norm_num : (-1075 : Int) + 1 = -1074)
  have hroundoff : roundoff = 1 / 2 ^ 53 := by norm_num [roundoff]
  rw [slack, add_div, hleast, hroundoff]
  ring

/-! ### The width and its rounded value -/

theorem roundOnGrid_mul_roundoff_le {d : Rat} (hd : 0 ≤ d) (hunits : IsUnits d) :
    roundOnGrid d * roundoff ≤ 13 / 12 * (d * roundoff) := by
  have hround := (abs_le.mp (abs_roundOnGrid_sub_le_mul hd hunits)).2
  have hroundoff : roundoff ≤ 1 / 12 := by norm_num [roundoff]
  calc roundOnGrid d * roundoff ≤ (d + d * roundoff) * roundoff :=
        mul_le_mul_of_nonneg_right (by linarith) roundoff_pos.le
    _ = d * roundoff + d * roundoff * roundoff := by ring
    _ ≤ d * roundoff + d * roundoff * (1 / 12) :=
        add_le_add_right (mul_le_mul_of_nonneg_left hroundoff (mul_nonneg hd roundoff_pos.le)) _
    _ = 13 / 12 * (d * roundoff) := by ring

theorem roundOnGrid_div_maxIndex_le {d : Rat} (hd : 0 ≤ d) (hunits : IsUnits d) (hn : IsWidth n) :
    roundOnGrid d / (2 * maxIndex n) ≤ d / maxIndex n / 2 + d * roundoff / 2 := by
  have hround := (abs_le.mp (abs_roundOnGrid_sub_le_mul hd hunits)).2
  have hmax := maxIndex_pos hn
  have hhalf : 0 ≤ d * roundoff / 2 := div_nonneg (mul_nonneg hd roundoff_pos.le) zero_le_two
  calc roundOnGrid d / (2 * maxIndex n) ≤ (d + d * roundoff) / (2 * maxIndex n) :=
        div_le_div_of_nonneg_right (by linarith) (by linarith)
    _ = d / maxIndex n / 2 + d * roundoff / 2 / maxIndex n := by field_simp
    _ ≤ d / maxIndex n / 2 + d * roundoff / 2 :=
        add_le_add_right (div_le_self hhalf (one_le_maxIndex hn)) _

section Value

variable (hwidth : 0 < roundOnGrid (q - p)) (hp : p ≤ a) (hq : a ≤ q) (hn : IsWidth n)
  (hpq : IsUnits (q - p)) (hpa : IsUnits (a - p))
include hwidth hp hq hn hpq hpa

/-- **Before it is rounded, what a value is read back as is half a step from it, and half the
slack.** -/
theorem abs_exactValue_sub_le :
    |exactValue n p q (nearestIndex n p q a) - a| ≤ ((q - p) / maxIndex n + slack (q - p)) / 2 := by
  have hwhole : 0 ≤ q - p := sub_nonneg.mpr (hp.trans hq)
  have hround := abs_roundOnGrid_sub_le_mul hwhole hpq
  have hoffset := abs_roundOnGrid_sub_le_mul (sub_nonneg.mpr hp) hpa
  have hpart := mul_le_mul_of_nonneg_right (sub_le_sub_right hq p) roundoff_pos.le
  have hindex := abs_mul_nearestIndex_sub_le hwidth hp hq hn
  have hroundoff := roundOnGrid_mul_roundoff_le hwhole hpq
  have hhalf := roundOnGrid_div_maxIndex_le hwhole hpq hn
  rw [add_div, half_slack, exactValue]
  split_ifs with hk
  · -- the value is the upper bound itself: only the index is off
    have hleast := two_zpow_pos (-1075)
    rw [hk, div_self (maxIndex_pos hn).ne', mul_one] at hindex
    rw [abs_le] at *
    constructor <;> linarith
  · refine (abs_min_sub_le hq).trans ?_
    have hstep := abs_stepOffset_sub_le (hp.trans hq) (nearestIndex_le n p q a)
    rw [abs_le] at *
    constructor <;> linarith

/-- **A value is read back a step and the slack away at most**: it is a double itself, so that
rounding leads no farther from what is exact than it is. -/
theorem abs_stepValue_sub_le (ha : IsRepresentable |a|) (hupper : IsRepresentable |q|) :
    |stepValue n p q (nearestIndex n p q a) - a| ≤ (q - p) / maxIndex n + slack (q - p) := by
  have hexact := abs_exactValue_sub_le hwidth hp hq hn hpq hpa
  have hround := abs_roundSigned_sub_le ha (exactValue n p q (nearestIndex n p q a))
  rw [abs_sub_comm a] at hround
  rw [stepValue_eq_roundSigned hupper]
  refine (abs_sub_le _ _ _).trans ((add_le_add_left hround _).trans ?_)
  linarith

/-- **It is a step away at most where doubles are no farther apart than that, less the slack.** -/
theorem abs_stepValue_sub_le_of_spacing (hlower : IsRepresentable |p|)
    (hupper : IsRepresentable |q|) (hlt : p < q)
    (hspacing : spacing (max |p| |q|) + slack (q - p) ≤ (q - p) / maxIndex n) :
    |stepValue n p q (nearestIndex n p q a) - a| ≤ (q - p) / maxIndex n := by
  have hmagnitude : 0 < max |p| |q| := by
    rcases eq_or_ne p 0 with rfl | hnonzero
    · exact lt_max_of_lt_right (abs_pos.mpr hlt.ne')
    · exact lt_max_of_lt_left (abs_pos.mpr hnonzero)
  have hmem := stepValue_mem (n := n) (k := nearestIndex n p q a) hlt.le hlower hupper
  have hexact := abs_exactValue_sub_le hwidth hp hq hn hpq hpa
  rw [stepValue_eq_roundSigned hupper] at hmem ⊢
  exact abs_roundSigned_sub_le_of_spacing hmagnitude (slack_nonneg (sub_nonneg.mpr hlt.le)) hspacing
    (abs_le_max_abs_abs hp hq) (abs_le_max_abs_abs hmem.1 hmem.2) hexact

end Value

/-! ## The statement -/

/-- **A double comes back within a step and the slack.**  Between finite bounds whose width is a
double, on every width from 1 to 63, plain or Gray coded, every double of the interval is written,
and what is written is read as a double no farther from it than one of the `2 ^ n - 1` steps and the
slack; and no farther than one step, if the step exceeds the slack by what doubles are apart at the
bound of larger magnitude. -/
theorem decodeRealGiven_encodeRealGiven_error (h : IsMeasured lower upper) (hn : 1 ≤ n ∧ n ≤ 63)
    (hx : lower.le x ∧ x.le upper) (gray : Bool) :
    ∃ (bits : Bits) (y : Binary64),
      encodeRealGiven (.real x) (.real lower) (.real upper) (.whole n) gray = .ok bits
        ∧ decodeRealGiven (.flags bits) (.real lower) (.real upper) gray = .ok (.real y)
        ∧ |y.toRat - x.toRat|
            ≤ (upper.toRat - lower.toRat) / (2 ^ n - 1) + slack (upper.toRat - lower.toRat)
        ∧ (spacing (max |lower.toRat| |upper.toRat|) + slack (upper.toRat - lower.toRat)
              ≤ (upper.toRat - lower.toRat) / (2 ^ n - 1) →
            |y.toRat - x.toRat| ≤ (upper.toRat - lower.toRat) / (2 ^ n - 1)) := by
  have hwidth := isWidth_iff.mpr hn
  have hcount : (2 : Rat) ^ n - 1 = maxIndex n := by
    rw [← zpow_natCast, ← maxIndex_add_one, add_sub_cancel_right]
  obtain ⟨hfinite, hlower, hupper⟩ := h.le_and_le_iff.mp hx
  have hpoint := Binary64.extended?_eq_point.mpr ⟨hfinite, rfl⟩
  have hunits {z : Binary64} {r : Rat} (hz : z.extended? = some (.point r)) : IsUnits r :=
    Binary64.exists_units hz
  have hrepresentable {z : Binary64} {r : Rat} (hz : z.extended? = some (.point r)) :
      IsRepresentable |r| := Binary64.isRepresentable_abs hz
  have hlength := length_wordOf n (nearestIndex n lower.toRat upper.toRat x.toRat) gray
  obtain ⟨y, hread, -, hvalue⟩ := exists_decodeReal_mem h (hlength.symm ▸ hwidth) gray
  rw [hlength, bitsValue_plainBits_wordOf (nearestIndex_le ..)] at hvalue
  refine ⟨wordOf n (nearestIndex n lower.toRat upper.toRat x.toRat) gray, y, ?_, ?_, ?_⟩
  · rw [encodeRealGiven_number, encodeReal_eq h hwidth, if_pos hx]
  · rw [decodeRealGiven_flags, hread]
  · have hpq := (hunits h.extended?_upper).sub (hunits h.extended?_lower)
    have hpa := (hunits hpoint).sub (hunits h.extended?_lower)
    rw [hcount, hvalue]
    exact ⟨abs_stepValue_sub_le h.width_pos hlower hupper hwidth hpq hpa (hrepresentable hpoint)
        (hrepresentable h.extended?_upper),
      abs_stepValue_sub_le_of_spacing h.width_pos hlower hupper hwidth hpq hpa
        (hrepresentable h.extended?_lower) (hrepresentable h.extended?_upper) h.lt⟩

/-- One half in steps of one third: doubles are close enough for the step alone. -/
theorem decodeRealGiven_encodeRealGiven_error_half :
    (IsMeasured (.ofRat 0) (.ofRat 1) ∧ (1 ≤ 2 ∧ 2 ≤ 63)
        ∧ (Binary64.ofRat 0).le (.ofRat (1 / 2)) ∧ (Binary64.ofRat (1 / 2)).le (.ofRat 1))
      ∧ spacing (max |(Binary64.ofRat 0).toRat| |(Binary64.ofRat 1).toRat|)
          + slack ((Binary64.ofRat 1).toRat - (Binary64.ofRat 0).toRat)
        ≤ ((Binary64.ofRat 1).toRat - (Binary64.ofRat 0).toRat) / (2 ^ 2 - 1)
      ∧ ∃ (bits : Bits) (y : Binary64),
        encodeRealGiven (.real (.ofRat (1 / 2))) (.real (.ofRat 0)) (.real (.ofRat 1))
            (.whole (2 : Nat)) false = .ok bits
          ∧ decodeRealGiven (.flags bits) (.real (.ofRat 0)) (.real (.ofRat 1)) false
            = .ok (.real y)
          ∧ |y.toRat - (Binary64.ofRat (1 / 2)).toRat|
            ≤ ((Binary64.ofRat 1).toRat - (Binary64.ofRat 0).toRat) / (2 ^ 2 - 1) := by
  have hinterval : IsMeasured (.ofRat 0) (.ofRat 1) :=
    ⟨⟨by decide +kernel, by decide +kernel, by decide +kernel⟩, by decide +kernel⟩
  have hwidth : 1 ≤ 2 ∧ 2 ≤ 63 := by decide
  have hmem : (Binary64.ofRat 0).le (.ofRat (1 / 2)) ∧ (Binary64.ofRat (1 / 2)).le (.ofRat 1) := by
    decide +kernel
  have hspacing : spacing (max |(Binary64.ofRat 0).toRat| |(Binary64.ofRat 1).toRat|)
        + slack ((Binary64.ofRat 1).toRat - (Binary64.ofRat 0).toRat)
      ≤ ((Binary64.ofRat 1).toRat - (Binary64.ofRat 0).toRat) / (2 ^ 2 - 1) := by decide +kernel
  obtain ⟨bits, y, hwrite, hread, -, hstep⟩ :=
    decodeRealGiven_encodeRealGiven_error hinterval hwidth hmem false
  exact ⟨⟨hinterval, hwidth, hmem⟩, hspacing, bits, y, hwrite, hread, hstep hspacing⟩

/-- A double of an interval comes back farther away than a step. -/
def IsBeyondStep (n : Nat) (lower upper x : Binary64) : Prop :=
  IsMeasured lower upper ∧ (lower.le x ∧ x.le upper) ∧ ∃ (bits : Bits) (y : Binary64),
    encodeRealGiven (.real x) (.real lower) (.real upper) (.whole n) false = .ok bits
      ∧ decodeRealGiven (.flags bits) (.real lower) (.real upper) false = .ok (.real y)
      ∧ (upper.toRat - lower.toRat) / (2 ^ n - 1) < |y.toRat - x.toRat|

/-- **A step alone is not enough**: not where it is less than doubles are apart, as in the finest
division of an interval from zero, nor where it hardly is, far from zero, nor among the least
doubles, where a product is rounded by a larger part of itself. -/
theorem isBeyondStep_inputs :
    IsBeyondStep 63 (.ofRat 0) (.ofRat 49) (.ofRat 1)
      ∧ IsBeyondStep 28 (.ofRat (2 ^ 52)) (.ofRat (2 ^ 52 + 2 ^ 28 - 2))
          (.ofRat (2 ^ 52 + 2 ^ 27 - 1))
      ∧ IsBeyondStep 2 (.ofRat (1 / 2 ^ 1021)) (.ofRat ((2 ^ 52 + 2) / 2 ^ 1073))
          (.ofRat ((2 ^ 52 + 1) / 2 ^ 1073)) := by
  refine ⟨
    ⟨⟨⟨?_, ?_, ?_⟩, ?_⟩, ?_, bitsOf 63 188232082384791328, .ofRat (1 - 1 / 2 ^ 53), ?_, ?_, ?_⟩,
    ⟨⟨⟨?_, ?_, ?_⟩, ?_⟩, ?_, bitsOf 28 (2 ^ 27), .ofRat (2 ^ 52 + 2 ^ 27), ?_, ?_, ?_⟩,
    ⟨⟨⟨?_, ?_, ?_⟩, ?_⟩, ?_, bitsOf 2 2, .ofRat ((2 ^ 52 + 2) / 2 ^ 1073), ?_, ?_, ?_⟩⟩ <;>
    decide +kernel

end MigrationPlan.Codec
