import MigrationPlan.Proofs.Numeric.Binary64

/-!
# Proofs/Numeric/Nearest — how far a rounded result can be above the exact one

A magnitude is rounded to the nearest point of its grid, and no double lies between the magnitude
and the grid point below it (`le_floor_grid`).  So rounding moves a magnitude up by no more than its
distance to any double below it (**`roundOnGrid_le`**).  A sum has such a double below it, namely
the larger of its terms, so that a rounded sum exceeds the exact one by no more than the smaller
term: **`Binary64.exists_add_le`**.  A difference has one above it, which it does not pass:
`Binary64.exists_sub_le`.
-/

namespace MigrationPlan

variable {a t p q : Rat}

/-! ## Rounding up -/

/-- An integer is rounded up to only from its nearer side. -/
theorem roundHalfEven_sub_le (q : Rat) : (roundHalfEven q : Rat) - q ≤ q - (q.floor : Rat) := by
  have hfloor : (q.floor : Rat) ≤ q := Rat.floor_le q
  simp only [roundHalfEven]
  split_ifs <;> push_cast <;> linarith

/-- **No double lies above the last grid point below a magnitude**: on the grid it is a grid point,
and below the binade of the magnitude the least point of the binade is above it. -/
theorem le_floor_grid (ht : IsRepresentable t) (ha : 0 < a) (h : t ≤ a) :
    t ≤ ((a / (2 : Rat) ^ gridExponent a).floor : Rat) * (2 : Rat) ^ gridExponent a := by
  obtain ⟨m, k, hm, hk, rfl⟩ := ht
  have hunit := two_zpow_pos (gridExponent a)
  have hbelow {i : Int} (hi : (i : Rat) * (2 : Rat) ^ gridExponent a ≤ a) :
      (i : Rat) ≤ (a / (2 : Rat) ^ gridExponent a).floor := by
    exact_mod_cast Rat.le_floor_iff.mpr ((le_div_iff₀ hunit).mpr hi)
  rcases le_or_gt (gridExponent a) k with hgrid | hgrid
  · obtain ⟨d, rfl⟩ := Int.le.dest hgrid
    have hpoint : (m : Rat) * (2 : Rat) ^ (gridExponent a + d)
        = ((m * 2 ^ d : Nat) : Int) * (2 : Rat) ^ gridExponent a := by
      rw [← two_zpow_eq (add_comm (d : Int) (gridExponent a)), zpow_natCast 2 d]
      push_cast
      ring
    rw [hpoint] at h ⊢
    exact mul_le_mul_of_nonneg_right (hbelow h) hunit.le
  · have hbits : (m : Rat) ≤ (2 : Rat) ^ (53 : Int) := by exact_mod_cast hm
    have hbinade : ((2 ^ 52 : Int) : Rat) * (2 : Rat) ^ gridExponent a ≤ a := by
      refine le_trans (le_of_eq ?_) (gridExponent_le ha (by omega))
      rw [← two_zpow_eq (add_comm 52 (gridExponent a))]
      norm_num
    calc (m : Rat) * (2 : Rat) ^ k ≤ (2 : Rat) ^ (53 : Int) * (2 : Rat) ^ k :=
          mul_le_mul_of_nonneg_right hbits (two_zpow_pos k).le
      _ = (2 : Rat) ^ (53 + k) := two_zpow_eq rfl
      _ ≤ (2 : Rat) ^ (52 + gridExponent a) := two_zpow_le (by omega)
      _ = ((2 ^ 52 : Int) : Rat) * (2 : Rat) ^ gridExponent a := by
          rw [← two_zpow_eq rfl]
          norm_num
      _ ≤ _ := mul_le_mul_of_nonneg_right (hbelow hbinade) hunit.le

/-- **A magnitude is not rounded up by more than its distance to a double below it.** -/
theorem roundOnGrid_le (ht : IsRepresentable t) (ha : 0 ≤ a) (h : t ≤ a) :
    roundOnGrid a ≤ a + (a - t) := by
  rcases ha.eq_or_lt with rfl | ha
  · rw [roundOnGrid_zero]
    linarith
  have hunit := two_zpow_pos (gridExponent a)
  have hfloor := le_floor_grid ht ha h
  have hround := mul_le_mul_of_nonneg_right
    (roundHalfEven_sub_le (a / (2 : Rat) ^ gridExponent a)) hunit.le
  rw [sub_mul, sub_mul, div_mul_cancel₀ _ hunit.ne'] at hround
  rw [roundOnGrid]
  linarith

/-! ## Sums and differences -/

namespace Binary64

variable {x y : Binary64}

/-- The magnitude of a finite double has fifty-three bits. -/
theorem isRepresentable_of_extended? (hx : x.extended? = some (.point p)) (hp : 0 ≤ p) :
    IsRepresentable p := by
  obtain ⟨hfinite, rfl⟩ := extended?_eq_point.mp hx
  cases x with
  | finite s m e h =>
    have hcanonical : IsRepresentable (m * (2 : Rat) ^ e) := ⟨m, e, h.1.le, h.2.1, rfl⟩
    cases s with
    | false => exact hcanonical
    | true =>
      have hmagnitude : 0 ≤ m * (2 : Rat) ^ e := mul_nonneg m.cast_nonneg (two_zpow_pos e).le
      have hzero : m * (2 : Rat) ^ e = 0 := le_antisymm (neg_nonneg.mp hp) hmagnitude
      change IsRepresentable (-(m * (2 : Rat) ^ e))
      rw [hzero, neg_zero]
      exact isRepresentable_zero
  | _ => simp [isFinite] at hfinite

/-- What is rounded to less than `2 ^ 1024` is a finite double. -/
theorem extended?_ofRat_of_lt (hq : 0 ≤ q) (h : roundOnGrid q < 2 ^ 1024) :
    (ofRat q).extended? = some (.point (roundOnGrid q)) := by
  rw [extended?_ofRat hq, Extended.rounded, if_pos h]

/-- **A rounded sum exceeds the exact one by no more than the smaller term.** -/
theorem exists_add_le (hx : x.extended? = some (.point p)) (hy : y.extended? = some (.point q))
    (hp : 0 ≤ p) (hq : 0 ≤ q) (hlimit : p + q + min p q < 2 ^ 1024) :
    ∃ r, (x.add y).extended? = some (.point r) ∧ 0 ≤ r ∧ r ≤ p + q + min p q := by
  have hsum : 0 ≤ p + q := add_nonneg hp hq
  have hle : roundOnGrid (p + q) ≤ p + q + min p q := by
    have hleft := roundOnGrid_le (isRepresentable_of_extended? hx hp) hsum
      (le_add_of_nonneg_right hq)
    have hright := roundOnGrid_le (isRepresentable_of_extended? hy hq) hsum
      (le_add_of_nonneg_left hp)
    rcases min_choice p q with hmin | hmin <;> rw [hmin] <;> linarith
  refine ⟨_, (extended?_add hx hy).trans (extended?_ofRat_of_lt hsum (hle.trans_lt hlimit)),
    roundOnGrid_nonneg hsum, hle⟩

/-- **A rounded difference of magnitudes does not exceed the larger of them.** -/
theorem exists_sub_le (hx : x.extended? = some (.point p)) (hy : y.extended? = some (.point q))
    (hq : 0 ≤ q) (h : q ≤ p) (hlimit : p < 2 ^ 1024) :
    ∃ r, (x.sub y).extended? = some (.point r) ∧ 0 ≤ r ∧ r ≤ p := by
  have hdifference : 0 ≤ p - q := sub_nonneg.mpr h
  have hle : roundOnGrid (p - q) ≤ p :=
    calc roundOnGrid (p - q) ≤ roundOnGrid p := roundOnGrid_mono hdifference (sub_le_self p hq)
      _ = p := roundOnGrid_of_isRepresentable (isRepresentable_of_extended? hx (hq.trans h))
  exact ⟨_, (extended?_sub hx hy).trans (extended?_ofRat_of_lt hdifference (hle.trans_lt hlimit)),
    roundOnGrid_nonneg hdifference, hle⟩

end Binary64

end MigrationPlan
