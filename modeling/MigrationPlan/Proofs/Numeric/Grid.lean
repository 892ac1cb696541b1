import MigrationPlan.Numeric.Binary64
import MigrationPlan.Proofs.Numeric.Rounding

/-!
# Proofs/Numeric/Grid — rounding keeps order and leaves fifty-three bits alone

A magnitude is rounded on the grid of its binade, no finer than `2 ^ -1074`.  `roundOnGrid` is that
rounding without a largest double, and `Extended.rounded` is it with one: what reaches `2 ^ 1024` is
above all doubles.  Two facts carry everything that is proved of rounded arithmetic:

* **`roundOnGrid_mono`** — a larger magnitude is not rounded to less;
* **`roundOnGrid_of_isRepresentable`** — fifty-three bits above `2 ^ -1074` are not rounded at all.
-/

namespace MigrationPlan

/-! ## The extended line -/

namespace Extended

variable {x y z : Extended} {p q : Rat}

@[simp] theorem point_le_point : (point p).le (point q) ↔ p ≤ q :=
  decide_eq_true_iff

@[simp] theorem le_above (x : Extended) : x.le above := by
  cases x <;> rfl

/-- The reflection at zero. -/
def neg : Extended → Extended
  | below => above
  | point q => point (-q)
  | above => below

/-- Reflection turns the order around. -/
theorem neg_le_neg_iff (x y : Extended) : x.neg.le y.neg = y.le x := by
  rcases x with _ | p | _ <;> rcases y with _ | q | _ <;> simp [le, neg]

theorem neg_le_neg (h : x.le y) : y.neg.le x.neg :=
  (neg_le_neg_iff y x).trans h

theorem le_refl (x : Extended) : x.le x := by
  cases x with
  | point q => exact point_le_point.mpr le_rfl
  | _ => rfl

theorem le_trans (hxy : x.le y) (hyz : y.le z) : x.le z := by
  rcases x with _ | p | _ <;> rcases y with _ | q | _ <;> rcases z with _ | r | _ <;>
    simp_all [le]
  exact hxy.trans hyz

theorem le_total (x y : Extended) : x.le y ∨ y.le x := by
  rcases x with _ | p | _ <;> rcases y with _ | q | _ <;> simp [le, Rat.le_total]

end Extended

variable {a b t : Rat}

/-! ## The grid of a magnitude -/

/-- The exponent of the grid that a magnitude is rounded on. -/
def gridExponent (a : Rat) : Int :=
  max (binaryLog a - 52) (-1074)

/-- A magnitude rounded on its grid, however large it is. -/
def roundOnGrid (a : Rat) : Rat :=
  roundHalfEven (a / (2 : Rat) ^ gridExponent a) * (2 : Rat) ^ gridExponent a

theorem two_zpow_pos (k : Int) : (0 : Rat) < (2 : Rat) ^ k :=
  zpow_pos two_pos k

theorem two_zpow_le {k l : Int} (h : k ≤ l) : (2 : Rat) ^ k ≤ (2 : Rat) ^ l :=
  zpow_le_zpow_right₀ one_le_two h

/-- A power of two split at an exponent. -/
theorem two_zpow_eq {k l m : Int} (h : k + l = m) :
    (2 : Rat) ^ k * (2 : Rat) ^ l = (2 : Rat) ^ m := by
  rw [← zpow_add₀ two_ne_zero, h]

theorem gridExponent_mono (ha : 0 < a) (h : a ≤ b) : gridExponent a ≤ gridExponent b :=
  max_le_max (sub_le_sub_right (binaryLog_mono ha h) 52) le_rfl

/-- On its grid a magnitude is below `2 ^ 53` units. -/
theorem lt_gridExponent (ha : 0 < a) : a < (2 : Rat) ^ (gridExponent a + 53) := by
  refine (lt_zpow_binaryLog ha).trans_le (two_zpow_le ?_)
  have := le_max_left (binaryLog a - 52) (-1074)
  rw [gridExponent]
  omega

/-- Above the finest grid it is at least `2 ^ 52` units. -/
theorem gridExponent_le (ha : 0 < a) (he : -1074 < gridExponent a) :
    (2 : Rat) ^ (gridExponent a + 52) ≤ a := by
  refine le_trans (two_zpow_le ?_) (zpow_binaryLog_le ha)
  rw [gridExponent] at he ⊢
  omega

/-! ## Rounding on the grid -/

/-- The mantissa has no more than fifty-three bits, but for the power of two above them. -/
theorem roundHalfEven_grid_le (ha : 0 < a) :
    roundHalfEven (a / (2 : Rat) ^ gridExponent a) ≤ 2 ^ 53 := by
  refine roundHalfEven_le ?_
  rw [div_le_iff₀ (two_zpow_pos _)]
  calc a ≤ (2 : Rat) ^ (gridExponent a + 53) := (lt_gridExponent ha).le
    _ = ((2 ^ 53 : Int) : Rat) * (2 : Rat) ^ gridExponent a := by
        rw [← two_zpow_eq (add_comm 53 (gridExponent a))]
        norm_num

/-- Above the finest grid it has that many. -/
theorem le_roundHalfEven_grid (ha : 0 < a) (he : -1074 < gridExponent a) :
    2 ^ 52 ≤ roundHalfEven (a / (2 : Rat) ^ gridExponent a) := by
  refine le_roundHalfEven ?_
  rw [le_div_iff₀ (two_zpow_pos _)]
  calc ((2 ^ 52 : Int) : Rat) * (2 : Rat) ^ gridExponent a
      = (2 : Rat) ^ (gridExponent a + 52) := by
        rw [← two_zpow_eq (add_comm 52 (gridExponent a))]
        norm_num
    _ ≤ a := gridExponent_le ha he

theorem roundHalfEven_grid_nonneg (ha : 0 ≤ a) :
    0 ≤ roundHalfEven (a / (2 : Rat) ^ gridExponent a) :=
  le_roundHalfEven (by simpa using div_nonneg ha (two_zpow_pos _).le)

@[simp] theorem roundOnGrid_zero : roundOnGrid 0 = 0 := by
  rw [roundOnGrid, zero_div, ← Int.cast_zero, roundHalfEven_intCast, Int.cast_zero, zero_mul]

theorem roundOnGrid_nonneg (ha : 0 ≤ a) : 0 ≤ roundOnGrid a :=
  mul_nonneg (Int.cast_nonneg (roundHalfEven_grid_nonneg ha)) (two_zpow_pos _).le

/-- **A larger magnitude is not rounded to less.**  On one grid rounding keeps order; on different
grids a power of two lies between the results. -/
theorem roundOnGrid_mono (ha : 0 ≤ a) (h : a ≤ b) : roundOnGrid a ≤ roundOnGrid b := by
  rcases ha.eq_or_lt with rfl | ha
  · rw [roundOnGrid_zero]
    exact roundOnGrid_nonneg h
  have hb : 0 < b := ha.trans_le h
  rcases (gridExponent_mono ha h).eq_or_lt with hgrid | hgrid
  · rw [roundOnGrid, roundOnGrid, hgrid]
    have hround := roundHalfEven_mono
      (div_le_div_of_nonneg_right h (two_zpow_pos (gridExponent b)).le)
    exact mul_le_mul_of_nonneg_right (Int.cast_le.mpr hround) (two_zpow_pos _).le
  · have hfine : -1074 ≤ gridExponent a := le_max_right _ _
    have hupper : (roundHalfEven (a / (2 : Rat) ^ gridExponent a) : Rat)
        ≤ (2 : Rat) ^ (53 : Int) := by
      exact_mod_cast roundHalfEven_grid_le ha
    have hlower : (2 : Rat) ^ (52 : Int)
        ≤ (roundHalfEven (b / (2 : Rat) ^ gridExponent b) : Rat) := by
      exact_mod_cast le_roundHalfEven_grid hb (hfine.trans_lt hgrid)
    calc roundOnGrid a ≤ (2 : Rat) ^ (53 : Int) * (2 : Rat) ^ gridExponent a :=
          mul_le_mul_of_nonneg_right hupper (two_zpow_pos _).le
      _ = (2 : Rat) ^ (53 + gridExponent a) := two_zpow_eq rfl
      _ ≤ (2 : Rat) ^ (52 + gridExponent b) := two_zpow_le (by omega)
      _ = (2 : Rat) ^ (52 : Int) * (2 : Rat) ^ gridExponent b := (two_zpow_eq rfl).symm
      _ ≤ roundOnGrid b := mul_le_mul_of_nonneg_right hlower (two_zpow_pos _).le

/-! ## What is not rounded -/

/-- A magnitude of fifty-three bits, none of them below `2 ^ -1074`. -/
def IsRepresentable (a : Rat) : Prop :=
  ∃ (m : Nat) (k : Int), m ≤ 2 ^ 53 ∧ -1074 ≤ k ∧ a = m * (2 : Rat) ^ k

theorem isRepresentable_zero : IsRepresentable 0 :=
  ⟨0, 0, Nat.zero_le _, by norm_num, by norm_num⟩

/-- Whole units of its grid are not rounded. -/
theorem roundOnGrid_of_gridExponent_le {m : Nat} {k : Int}
    (h : gridExponent (m * (2 : Rat) ^ k) ≤ k) :
    roundOnGrid (m * (2 : Rat) ^ k) = m * (2 : Rat) ^ k := by
  generalize he : gridExponent (m * (2 : Rat) ^ k) = e at h
  obtain ⟨d, rfl⟩ := Int.le.dest h
  have hunits : m * (2 : Rat) ^ (e + d) / (2 : Rat) ^ e = ((m * 2 ^ d : Nat) : Int) := by
    rw [div_eq_iff (two_zpow_pos e).ne', ← two_zpow_eq (rfl : e + d = e + d), zpow_natCast]
    push_cast
    ring
  rw [roundOnGrid, he, hunits, roundHalfEven_intCast, ← hunits,
    div_mul_cancel₀ _ (two_zpow_pos e).ne']

/-- Fifty-three bits are whole units of their grid. -/
theorem gridExponent_le_of_lt {m : Nat} {k : Int} (hpos : 0 < m) (hm : m < 2 ^ 53)
    (hk : -1074 ≤ k) : gridExponent (m * (2 : Rat) ^ k) ≤ k := by
  have ha : (0 : Rat) < m * (2 : Rat) ^ k := mul_pos (Nat.cast_pos.mpr hpos) (two_zpow_pos k)
  have hbits : (m : Rat) < (2 : Rat) ^ (53 : Int) := by exact_mod_cast hm
  have hlt : (2 : Rat) ^ binaryLog (m * (2 : Rat) ^ k) < (2 : Rat) ^ (53 + k) :=
    calc (2 : Rat) ^ binaryLog (m * (2 : Rat) ^ k) ≤ m * (2 : Rat) ^ k := zpow_binaryLog_le ha
      _ < (2 : Rat) ^ (53 : Int) * (2 : Rat) ^ k := mul_lt_mul_of_pos_right hbits (two_zpow_pos k)
      _ = (2 : Rat) ^ (53 + k) := two_zpow_eq rfl
  have hlog := (zpow_lt_zpow_iff_right₀ one_lt_two).mp hlt
  rw [gridExponent]
  omega

/-- **What is representable is not rounded.** -/
theorem roundOnGrid_of_isRepresentable (h : IsRepresentable a) : roundOnGrid a = a := by
  obtain ⟨m, k, hm, hk, rfl⟩ := h
  rcases m.eq_zero_or_pos with rfl | hpos
  · rw [Nat.cast_zero, zero_mul, roundOnGrid_zero]
  rcases hm.eq_or_lt with rfl | hlt
  · -- the power of two above fifty-three bits is one bit on a coarser grid
    have hnext : ((2 ^ 53 : Nat) : Rat) * (2 : Rat) ^ k
        = ((2 ^ 52 : Nat) : Rat) * (2 : Rat) ^ (k + 1) := by
      rw [← two_zpow_eq (add_comm 1 k)]
      norm_num
      ring
    rw [hnext]
    have hgrid := gridExponent_le_of_lt (m := 2 ^ 52) (k := k + 1) (by norm_num) (by norm_num)
      (by omega)
    exact roundOnGrid_of_gridExponent_le hgrid
  · exact roundOnGrid_of_gridExponent_le (gridExponent_le_of_lt hpos hlt hk)

/-- What is representable keeps below it what is rounded up to it. -/
theorem le_roundOnGrid (ht : IsRepresentable t) (hnonneg : 0 ≤ t) (h : t ≤ a) :
    t ≤ roundOnGrid a := by
  rw [← roundOnGrid_of_isRepresentable ht]
  exact roundOnGrid_mono hnonneg h

/-- Where a magnitude is rounded to: what reaches `2 ^ 1024` is above all doubles. -/
def Extended.rounded (a : Rat) : Extended :=
  if roundOnGrid a < 2 ^ 1024 then .point (roundOnGrid a) else .above

namespace Extended

/-- **Rounding keeps order on the extended line.** -/
theorem rounded_mono (ha : 0 ≤ a) (h : a ≤ b) : (rounded a).le (rounded b) := by
  have hround := roundOnGrid_mono ha h
  rw [rounded, rounded]
  split_ifs with hla hlb hlb
  · exact point_le_point.mpr hround
  · exact le_above _
  · exact absurd (hround.trans_lt hlb) hla
  · exact le_above _

theorem rounded_of_isRepresentable (h : IsRepresentable a) (hlt : a < 2 ^ 1024) :
    rounded a = .point a := by
  rw [rounded, roundOnGrid_of_isRepresentable h, if_pos hlt]

@[simp] theorem rounded_zero : rounded 0 = .point 0 :=
  rounded_of_isRepresentable isRepresentable_zero (by norm_num)

/-- A representable magnitude is not above what a larger one is rounded to. -/
theorem point_le_rounded (ht : IsRepresentable t) (hnonneg : 0 ≤ t) (h : t ≤ a) :
    (point t).le (rounded a) := by
  rw [rounded]
  split_ifs
  · exact point_le_point.mpr (le_roundOnGrid ht hnonneg h)
  · exact le_above _

end Extended

end MigrationPlan
