import MigrationPlan.Proofs.Numeric.Nearest

/-!
# Proofs/Numeric/Spacing — how far a result is rounded

A magnitude is rounded to the nearest double (**`abs_roundOnGrid_sub_le`**), so that the error is at
most half of what neighbouring doubles are apart there, the `spacing` of the magnitude.  In terms of
the magnitude itself that is one part in `2 ^ 53`, the `roundoff`, and below the finest binade half
of the least double (`abs_roundOnGrid_sub_le_mul_add`).  Whole multiples of the least double are not
rounded there at all, and differences of doubles are such multiples: `abs_roundOnGrid_sub_le_mul`.
-/

namespace MigrationPlan

variable {a b t q : Rat} {k : Int}

/-! ## The nearest integer -/

/-- **No integer is nearer than the one rounded to.** -/
theorem abs_roundHalfEven_sub_le (q : Rat) (i : Int) :
    |(roundHalfEven q : Rat) - q| ≤ |(i : Rat) - q| := by
  have hfloor : (q.floor : Rat) ≤ q := Rat.floor_le q
  have hsucc : q < (q.floor : Rat) + 1 := by exact_mod_cast Rat.lt_floor_add_one q
  -- an integer other than the two neighbours is farther away than one of these
  have hapart : q - (q.floor : Rat) ≤ |(i : Rat) - q|
      ∨ (q.floor : Rat) + 1 - q ≤ |(i : Rat) - q| := by
    rcases le_or_gt i q.floor with hi | hi
    · have hi : (i : Rat) ≤ q.floor := Int.cast_le.mpr hi
      exact .inl (by rw [abs_of_nonpos] <;> linarith)
    · have hi : (q.floor : Rat) + 1 ≤ i := by exact_mod_cast Int.add_one_le_of_lt hi
      exact .inr (by rw [abs_of_nonneg] <;> linarith)
  have hround : |(roundHalfEven q : Rat) - q| ≤ q - (q.floor : Rat)
      ∧ |(roundHalfEven q : Rat) - q| ≤ (q.floor : Rat) + 1 - q := by
    simp only [roundHalfEven]
    split_ifs <;> push_cast <;> constructor <;> rw [abs_le] <;> constructor <;> linarith
  rcases hapart with h | h
  · exact hround.1.trans h
  · exact hround.2.trans h

theorem abs_roundHalfEven_sub_le_half (q : Rat) : |(roundHalfEven q : Rat) - q| ≤ 1 / 2 := by
  have hfloor : (q.floor : Rat) ≤ q := Rat.floor_le q
  have hsucc : q < (q.floor : Rat) + 1 := by exact_mod_cast Rat.lt_floor_add_one q
  simp only [roundHalfEven]
  split_ifs <;> push_cast <;> rw [abs_le] <;> constructor <;> linarith

/-- From half way above an odd integer on, the next one is rounded to. -/
theorem roundHalfEven_of_odd {i : Int} (hodd : i % 2 = 1) (hlower : (i : Rat) + 1 / 2 ≤ q)
    (hupper : q < (i : Rat) + 1) : roundHalfEven q = i + 1 := by
  have hfloor : q.floor = i := by
    refine Int.floor_eq_iff.mpr ⟨by linarith, hupper⟩
  have hexcess : ¬q - (i : Rat) < 1 / 2 := by linarith
  have heven : ¬i % 2 = 0 := by omega
  simp only [roundHalfEven, hfloor]
  rw [if_neg hexcess, if_neg heven, ite_self]

/-! ## The nearest double -/

/-- What is representable keeps above it what is rounded down to it. -/
theorem roundOnGrid_le_of_le (ht : IsRepresentable t) (ha : 0 ≤ a) (h : a ≤ t) :
    roundOnGrid a ≤ t :=
  (roundOnGrid_mono ha h).trans_eq (roundOnGrid_of_isRepresentable ht)

/-- **The result of rounding is representable.** -/
theorem isRepresentable_roundOnGrid (ha : 0 ≤ a) : IsRepresentable (roundOnGrid a) := by
  rcases ha.eq_or_lt with rfl | ha
  · rw [roundOnGrid_zero]
    exact isRepresentable_zero
  obtain ⟨m, hm, hmax, -⟩ := Binary64.exists_mantissa ha
  refine ⟨m, gridExponent a, hmax, le_max_right _ _, ?_⟩
  rw [roundOnGrid, hm]
  rfl

theorem isRepresentable_two_zpow (hk : -1074 ≤ k) : IsRepresentable ((2 : Rat) ^ k) :=
  ⟨1, k, by norm_num, hk, by rw [Nat.cast_one, one_mul]⟩

/-- What neighbouring doubles are apart in the binade of a magnitude. -/
def spacing (a : Rat) : Rat :=
  (2 : Rat) ^ gridExponent a

theorem spacing_pos (a : Rat) : 0 < spacing a :=
  two_zpow_pos _

/-- On a magnitude's grid there are only doubles up to that magnitude. -/
theorem isRepresentable_abs_mul_spacing {i : Int} (ha : 0 < a) (h : |i * spacing a| ≤ a) :
    IsRepresentable |i * spacing a| := by
  have hmagnitude : |i * spacing a| = (i.natAbs : Rat) * spacing a := by
    rw [abs_mul, abs_of_pos (spacing_pos a), Nat.cast_natAbs, Int.cast_abs]
  refine ⟨i.natAbs, gridExponent a, ?_, le_max_right _ _, hmagnitude⟩
  have hlt : (i.natAbs : Rat) * spacing a < (2 : Rat) ^ (53 : Int) * spacing a := by
    rw [spacing, two_zpow_eq (add_comm 53 (gridExponent a))]
    exact (hmagnitude ▸ h).trans_lt (lt_gridExponent ha)
  exact_mod_cast (lt_of_mul_lt_mul_right hlt (spacing_pos a).le).le

/-- The error of rounding, in units of the grid. -/
theorem roundOnGrid_sub (a : Rat) :
    roundOnGrid a - a = ((roundHalfEven (a / spacing a) : Rat) - a / spacing a) * spacing a := by
  rw [sub_mul, div_mul_cancel₀ _ (spacing_pos a).ne']
  rfl

/-- **The error of rounding is at most half the spacing.** -/
theorem abs_roundOnGrid_sub_le_half_spacing (a : Rat) : |roundOnGrid a - a| ≤ spacing a / 2 := by
  rw [roundOnGrid_sub, abs_mul, abs_of_pos (spacing_pos a)]
  have hhalf := mul_le_mul_of_nonneg_right (abs_roundHalfEven_sub_le_half (a / spacing a))
    (spacing_pos a).le
  linarith

/-- No point of its grid is nearer to a magnitude than the one rounded to. -/
theorem abs_roundOnGrid_sub_le_grid (a : Rat) (i : Int) :
    |roundOnGrid a - a| ≤ |i * spacing a - a| := by
  have hunits : i * spacing a - a = ((i : Rat) - a / spacing a) * spacing a := by
    rw [sub_mul, div_mul_cancel₀ _ (spacing_pos a).ne']
  rw [roundOnGrid_sub, hunits, abs_mul, abs_mul, abs_of_pos (spacing_pos a)]
  exact mul_le_mul_of_nonneg_right (abs_roundHalfEven_sub_le _ i) (spacing_pos a).le

/-- **No double is nearer to a magnitude than the one rounded to**: below the magnitude a point of
its grid comes first, and what is representable above it is a point of its grid. -/
theorem abs_roundOnGrid_sub_le (ht : IsRepresentable t) (ha : 0 ≤ a) :
    |roundOnGrid a - a| ≤ |t - a| := by
  rcases ha.eq_or_lt with rfl | ha
  · simp
  rcases le_or_gt t a with hle | hgt
  · have hbelow := le_floor_grid ht ha hle
    have hgrid : ((a / spacing a).floor : Rat) * spacing a ≤ a :=
      (le_div_iff₀ (spacing_pos a)).mp (Rat.floor_le _)
    refine (abs_roundOnGrid_sub_le_grid a (a / spacing a).floor).trans ?_
    rw [abs_of_nonpos (sub_nonpos.mpr hgrid), abs_of_nonpos (sub_nonpos.mpr hle)]
    exact neg_le_neg (sub_le_sub_right hbelow a)
  · obtain ⟨m, k, hm, hk, rfl⟩ := ht
    rcases le_or_gt (gridExponent a) k with hgrid | hgrid
    · obtain ⟨d, rfl⟩ := Int.le.dest hgrid
      have hpoint : (m : Rat) * (2 : Rat) ^ (gridExponent a + d)
          = ((m * 2 ^ d : Nat) : Int) * spacing a := by
        rw [← two_zpow_eq (add_comm (d : Int) (gridExponent a)), zpow_natCast 2 d, spacing]
        push_cast
        ring
      rw [hpoint]
      exact abs_roundOnGrid_sub_le_grid a _
    · have hbits : (m : Rat) ≤ (2 : Rat) ^ (53 : Int) := by exact_mod_cast hm
      have hle : (m : Rat) * (2 : Rat) ^ k ≤ a :=
        calc (m : Rat) * (2 : Rat) ^ k ≤ (2 : Rat) ^ (53 : Int) * (2 : Rat) ^ k :=
              mul_le_mul_of_nonneg_right hbits (two_zpow_pos k).le
          _ = (2 : Rat) ^ (53 + k) := two_zpow_eq rfl
          _ ≤ (2 : Rat) ^ (gridExponent a + 52) := two_zpow_le (by omega)
          _ ≤ a := gridExponent_le ha (by omega)
      exact absurd hle hgt.not_ge

/-! ## Bounds on the error -/

/-- What rounding adds to or takes from a magnitude at most, as a part of it. -/
def roundoff : Rat :=
  (2 : Rat) ^ (-53 : Int)

theorem roundoff_pos : 0 < roundoff :=
  two_zpow_pos _

theorem half_two_zpow {k l : Int} (h : k + 1 = l) : (2 : Rat) ^ l / 2 = (2 : Rat) ^ k := by
  rw [← h, zpow_add_one₀ two_ne_zero, mul_div_cancel_right₀ _ two_ne_zero]

/-- Doubles below `2 ^ k` have fifty-three bits below it. -/
theorem spacing_le_of_lt (ha : 0 < a) (h : a < (2 : Rat) ^ k) (hk : -1021 ≤ k) :
    spacing a ≤ (2 : Rat) ^ (k - 53) := by
  have hlog := (zpow_lt_zpow_iff_right₀ one_lt_two).mp ((zpow_binaryLog_le ha).trans_lt h)
  refine two_zpow_le ?_
  rw [gridExponent]
  omega

/-- **A magnitude up to a power of two is rounded by at most one part in `2 ^ 54` of it.** -/
theorem abs_roundOnGrid_sub_le_of_le (ha : 0 ≤ a) (h : a ≤ (2 : Rat) ^ k) (hk : -1021 ≤ k) :
    |roundOnGrid a - a| ≤ (2 : Rat) ^ (k - 54) := by
  have hpos := (two_zpow_pos (k - 54)).le
  rcases ha.eq_or_lt with rfl | ha
  · rwa [roundOnGrid_zero, sub_zero, abs_zero]
  rcases h.eq_or_lt with rfl | hlt
  · rwa [roundOnGrid_of_isRepresentable (isRepresentable_two_zpow (by omega)), sub_self, abs_zero]
  · calc |roundOnGrid a - a| ≤ spacing a / 2 := abs_roundOnGrid_sub_le_half_spacing a
      _ ≤ (2 : Rat) ^ (k - 53) / 2 := by
          have := spacing_le_of_lt ha hlt hk
          linarith
      _ = (2 : Rat) ^ (k - 54) := half_two_zpow (by ring)

theorem abs_roundOnGrid_sub_le_of_le_one (ha : 0 ≤ a) (h : a ≤ 1) :
    |roundOnGrid a - a| ≤ roundoff / 2 := by
  rw [roundoff, half_two_zpow (by norm_num : (-54 : Int) + 1 = -53)]
  exact abs_roundOnGrid_sub_le_of_le (k := 0) ha h (by norm_num)

/-- No grid is finer than the least double. -/
theorem gridExponent_eq_or_lt (a : Rat) : gridExponent a = -1074 ∨ -1074 < gridExponent a :=
  (le_max_right (binaryLog a - 52) (-1074)).eq_or_lt.imp_left Eq.symm

/-- Above the finest grid half the spacing is at most the roundoff. -/
theorem half_spacing_le (ha : 0 < a) (he : -1074 < gridExponent a) :
    spacing a / 2 ≤ a * roundoff := by
  calc spacing a / 2 = (2 : Rat) ^ (gridExponent a + 52) * roundoff := by
        rw [spacing, half_two_zpow (sub_add_cancel (gridExponent a) 1), roundoff,
          two_zpow_eq (by ring : gridExponent a + 52 + -53 = gridExponent a - 1)]
    _ ≤ a * roundoff := mul_le_mul_of_nonneg_right (gridExponent_le ha he) roundoff_pos.le

/-- **The error is the roundoff, or half of the least double.** -/
theorem abs_roundOnGrid_sub_le_mul_add (ha : 0 ≤ a) :
    |roundOnGrid a - a| ≤ a * roundoff + (2 : Rat) ^ (-1075 : Int) := by
  have hpart := mul_nonneg ha roundoff_pos.le
  have hleast := two_zpow_pos (-1075)
  rcases ha.eq_or_lt with rfl | ha
  · rw [roundOnGrid_zero, sub_zero, abs_zero]
    linarith
  refine (abs_roundOnGrid_sub_le_half_spacing a).trans ?_
  rcases gridExponent_eq_or_lt a with he | he
  · rw [spacing, he, half_two_zpow (by norm_num : (-1075 : Int) + 1 = -1074)]
    linarith
  · have := half_spacing_le ha he
    linarith

/-- A whole multiple of the least double. -/
def IsUnits (a : Rat) : Prop :=
  ∃ i : Int, a = i * (2 : Rat) ^ (-1074 : Int)

theorem IsUnits.sub (ha : IsUnits a) (hb : IsUnits b) : IsUnits (a - b) := by
  obtain ⟨i, rfl⟩ := ha
  obtain ⟨j, rfl⟩ := hb
  exact ⟨i - j, by rw [Int.cast_sub, sub_mul]⟩

/-- **Whole multiples of the least double are rounded by the roundoff only**: on the finest grid
they are not rounded. -/
theorem abs_roundOnGrid_sub_le_mul (ha : 0 ≤ a) (hunits : IsUnits a) :
    |roundOnGrid a - a| ≤ a * roundoff := by
  rcases ha.eq_or_lt with rfl | ha
  · rw [roundOnGrid_zero, sub_zero, abs_zero, zero_mul]
  rcases gridExponent_eq_or_lt a with he | he
  · obtain ⟨i, hi⟩ := hunits
    have hgrid := abs_roundOnGrid_sub_le_grid a i
    rw [spacing, he, ← hi, sub_self, abs_zero] at hgrid
    exact hgrid.trans (mul_nonneg ha.le roundoff_pos.le)
  · exact (abs_roundOnGrid_sub_le_half_spacing a).trans (half_spacing_le ha he)

end MigrationPlan
