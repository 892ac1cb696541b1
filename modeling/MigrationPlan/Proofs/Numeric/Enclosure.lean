import MigrationPlan.Proofs.Numeric.Binary64

/-!
# Proofs/Numeric/Enclosure — doubles between multiples of a power of two

Natural numbers up to `2 ^ 53` are doubles, and so are the multiples of `2 ^ k` up to
`2 ^ (53 + k)`.  Rounding does not cross them: such a multiple below an exact number is a floor of
the double that the number is rounded to (`HasFloor`), and one above it a ceiling (`HasCeiling`).
Additions add floors and ceilings up (**`HasFloor.add`**, **`HasCeiling.add`**), without a further
error.  A double is exact if its floor is its ceiling (`HasFloor.extended?_eq`), and two doubles
compare as the ceiling of one and the floor of the other do (**`HasCeiling.le`**,
**`HasFloor.not_le`**), which bound their difference as well (`HasCeiling.sub_le`).
-/

namespace MigrationPlan.Binary64

variable {k m n : Nat} {q : Rat} {x y : Binary64}

/-! ## Multiples of a power of two -/

/-- Multiples of `2 ^ k` up to `2 ^ (53 + k)` have fifty-three bits. -/
theorem isRepresentable_of_dvd (hdvd : 2 ^ k ∣ n) (hn : n ≤ 2 ^ (53 + k)) :
    IsRepresentable n := by
  obtain ⟨m, rfl⟩ := hdvd
  have hm : m ≤ 2 ^ 53 := by
    rw [Nat.add_comm, Nat.pow_add] at hn
    exact Nat.le_of_mul_le_mul_left hn (Nat.two_pow_pos k)
  exact ⟨m, k, hm, by omega, by rw [zpow_natCast]; push_cast; ring⟩

/-- Multiples cut off at the end of that range are representable. -/
theorem isRepresentable_min (hdvd : 2 ^ k ∣ n) :
    IsRepresentable (min n (2 ^ (53 + k)) : Nat) := by
  refine isRepresentable_of_dvd (k := k) ?_ (min_le_right _ _)
  rcases min_choice n (2 ^ (53 + k)) with h | h <;> rw [h]
  · exact hdvd
  · exact Nat.pow_dvd_pow 2 (Nat.le_add_left k 53)

/-- They are below the largest double as long as the power of two is. -/
theorem natCast_lt_of_le (hk : k ≤ 970) (hn : n ≤ 2 ^ (53 + k)) : (n : Rat) < 2 ^ 1024 := by
  calc (n : Rat) ≤ 2 ^ (53 + k) := by exact_mod_cast hn
    _ < 2 ^ 1024 := pow_lt_pow_right₀ one_lt_two (by omega)

/-- **They are doubles.** -/
theorem extended?_ofRat_of_dvd (hk : k ≤ 970) (hdvd : 2 ^ k ∣ n) (hn : n ≤ 2 ^ (53 + k)) :
    (ofRat n).extended? = some (.point n) := by
  rw [extended?_ofRat n.cast_nonneg, Extended.rounded_of_isRepresentable
    (isRepresentable_of_dvd hdvd hn) (natCast_lt_of_le hk hn)]

/-- What is below such a multiple is not rounded above it. -/
theorem exists_point_of_le (hk : k ≤ 970) (hdvd : 2 ^ k ∣ n) (hn : n ≤ 2 ^ (53 + k)) (hq : 0 ≤ q)
    (h : q ≤ n) : ∃ r, (ofRat q).extended? = some (.point r) ∧ 0 ≤ r ∧ r ≤ n := by
  have hle := Extended.rounded_mono hq h
  rw [Extended.rounded_of_isRepresentable (isRepresentable_of_dvd hdvd hn)
    (natCast_lt_of_le hk hn), Extended.rounded] at hle
  rw [extended?_ofRat hq, Extended.rounded]
  split_ifs at hle ⊢
  · exact ⟨_, rfl, roundOnGrid_nonneg hq, Extended.point_le_point.mp hle⟩
  · simp [Extended.le] at hle

/-! ## Floors and ceilings -/

/-- **A floor of a double**: a multiple of `2 ^ k` that the double reaches, as far as `2 ^ (53 + k)`
at least. -/
structure HasFloor (k : Nat) (x : Binary64) (n : Nat) : Prop where
  dvd : 2 ^ k ∣ n
  atLeast : AtLeast (min n (2 ^ (53 + k)) : Nat) x

/-- **A ceiling of a double**: a multiple of `2 ^ k` that the double does not exceed, nor fall below
zero, if the multiple is not above `2 ^ (53 + k)`. -/
structure HasCeiling (k : Nat) (x : Binary64) (n : Nat) : Prop where
  dvd : 2 ^ k ∣ n
  atMost : n ≤ 2 ^ (53 + k) → ∃ q, x.extended? = some (.point q) ∧ 0 ≤ q ∧ q ≤ n

/-- A multiple below a whole number is a floor of the nearest double. -/
theorem hasFloor_ofInt (hdvd : 2 ^ k ∣ m) (h : m ≤ n) : HasFloor k (ofInt n) m where
  dvd := hdvd
  atLeast := by
    have hmin : ((min m (2 ^ (53 + k)) : Nat) : Rat) ≤ n :=
      Nat.cast_le.mpr ((min_le_left _ _).trans h)
    refine ⟨_, extended?_ofRat n.cast_nonneg, ?_⟩
    exact Extended.point_le_rounded (isRepresentable_min hdvd) (Nat.cast_nonneg _) hmin

/-- A multiple above a whole number is a ceiling of the nearest double. -/
theorem hasCeiling_ofInt (hk : k ≤ 970) (hdvd : 2 ^ k ∣ m) (h : n ≤ m) :
    HasCeiling k (ofInt n) m where
  dvd := hdvd
  atMost hm := exists_point_of_le hk hdvd hm n.cast_nonneg (Nat.cast_le.mpr h)

/-- **The floor of a sum.** -/
theorem HasFloor.add (hx : HasFloor k x m) (hy : HasFloor k y n) :
    HasFloor k (x.add y) (m + n) where
  dvd := Nat.dvd_add hx.dvd hy.dvd
  atLeast := by
    have hreach : ((min (m + n) (2 ^ (53 + k)) : Nat) : Rat)
        ≤ (min m (2 ^ (53 + k)) : Nat) + (min n (2 ^ (53 + k)) : Nat) := by
      have hpos := Nat.two_pow_pos (53 + k)
      rw [← Nat.cast_add]
      exact Nat.cast_le.mpr (by omega)
    exact hx.atLeast.add hy.atLeast (isRepresentable_min (Nat.dvd_add hx.dvd hy.dvd))
      (Nat.cast_nonneg _) hreach

/-- **The ceiling of a sum.** -/
theorem HasCeiling.add (hk : k ≤ 970) (hx : HasCeiling k x m) (hy : HasCeiling k y n) :
    HasCeiling k (x.add y) (m + n) where
  dvd := Nat.dvd_add hx.dvd hy.dvd
  atMost hsum := by
    obtain ⟨p, hp, hp0, hpm⟩ := hx.atMost (by omega)
    obtain ⟨q, hq, hq0, hqn⟩ := hy.atMost (by omega)
    rw [extended?_add hp hq]
    exact exists_point_of_le hk (Nat.dvd_add hx.dvd hy.dvd) hsum (add_nonneg hp0 hq0)
      (by rw [Nat.cast_add]; exact add_le_add hpm hqn)

/-- **A double whose floor is its ceiling is that number.** -/
theorem HasFloor.extended?_eq (hfloor : HasFloor k x n) (hceiling : HasCeiling k x n)
    (hn : n ≤ 2 ^ (53 + k)) : x.extended? = some (.point n) := by
  obtain ⟨q, hq, -, hqn⟩ := hceiling.atMost hn
  obtain ⟨z, hz, hle⟩ := hfloor.atLeast
  obtain rfl : z = .point q := Option.some.inj (hz.symm.trans hq)
  rw [min_eq_left hn, Extended.point_le_point] at hle
  rw [hq, hqn.antisymm hle]

/-- A double with a floor stands somewhere on the line. -/
theorem HasFloor.exists_extended? (h : HasFloor k x n) : ∃ u, x.extended? = some u := by
  obtain ⟨u, hu, -⟩ := h.atLeast
  exact ⟨u, hu⟩

/-! ## Order -/

/-- **A double is not above another** if its ceiling is not above the floor of the other. -/
theorem HasCeiling.le (hx : HasCeiling k x m) (hy : HasFloor k y n) (hm : m ≤ 2 ^ (53 + k))
    (h : m ≤ n) : x.le y := by
  obtain ⟨q, hq, -, hqm⟩ := hx.atMost hm
  obtain ⟨v, hv, hle⟩ := hy.atLeast
  have hmin : (m : Rat) ≤ (min n (2 ^ (53 + k)) : Nat) := Nat.cast_le.mpr (le_min h hm)
  rw [le_of_extended? hq hv]
  exact Extended.le_trans (Extended.point_le_point.mpr (hqm.trans hmin)) hle

/-- **It is above the other by no more than its ceiling is above the floor of the other.** -/
theorem HasCeiling.sub_le {p : Rat} (hx : HasCeiling k x m) (hy : HasFloor k y n)
    (hm : m ≤ 2 ^ (53 + k)) (hp : x.extended? = some (.point p))
    (hq : y.extended? = some (.point q)) : p - q ≤ (m - n : Nat) := by
  obtain ⟨p', hp', -, hpm⟩ := hx.atMost hm
  obtain ⟨v, hv, hle⟩ := hy.atLeast
  obtain rfl := Extended.point.inj (Option.some.inj (hp.symm.trans hp'))
  obtain rfl := Option.some.inj (hq.symm.trans hv)
  have hfloor : ((min n (2 ^ (53 + k)) : Nat) : Rat) ≤ q := Extended.point_le_point.mp hle
  have hexcess : (m : Rat) ≤ ((m - n) + min n (2 ^ (53 + k)) : Nat) := by
    exact_mod_cast (by omega : m ≤ (m - n) + min n (2 ^ (53 + k)))
  rw [Nat.cast_add] at hexcess
  linarith

/-- **It is above the other** if its floor is above the ceiling of the other. -/
theorem HasFloor.not_le (hx : HasFloor k x n) (hy : HasCeiling k y m) (hm : m < 2 ^ (53 + k))
    (h : m < n) : ¬x.le y := by
  obtain ⟨u, hu, hle⟩ := hx.atLeast
  obtain ⟨q, hq, -, hqm⟩ := hy.atMost hm.le
  have hmin : (m : Rat) < (min n (2 ^ (53 + k)) : Nat) := Nat.cast_lt.mpr (lt_min h hm)
  rw [le_of_extended? hu hq]
  intro huq
  exact (hqm.trans_lt hmin).not_ge (Extended.point_le_point.mp (Extended.le_trans hle huq))

/-! ## The multiples next to a number -/

/-- The largest multiple of `2 ^ k` that is not above a number. -/
def multipleBelow (k n : Nat) : Nat :=
  n / 2 ^ k * 2 ^ k

/-- How far the next multiples of `2 ^ k` below and above a number are apart. -/
def gap (k n : Nat) : Nat :=
  if 2 ^ k ∣ n then 0 else 2 ^ k

theorem dvd_multipleBelow (k n : Nat) : 2 ^ k ∣ multipleBelow k n :=
  Nat.dvd_mul_left _ _

theorem multipleBelow_le (k n : Nat) : multipleBelow k n ≤ n :=
  Nat.div_mul_le_self n (2 ^ k)

theorem dvd_gap (k n : Nat) : 2 ^ k ∣ gap k n := by
  rw [gap]
  split_ifs
  · exact Nat.dvd_zero _
  · exact Nat.dvd_refl _

theorem gap_le (k n : Nat) : gap k n ≤ 2 ^ k := by
  rw [gap]
  split_ifs
  · exact Nat.zero_le _
  · exact le_rfl

theorem gap_eq_zero (h : 2 ^ k ∣ n) : gap k n = 0 :=
  if_pos h

/-- The next multiple above a number is its gap above the one below. -/
theorem le_multipleBelow_add_gap (k n : Nat) : n ≤ multipleBelow k n + gap k n := by
  rw [multipleBelow, gap]
  split_ifs with hdvd
  · rw [Nat.div_mul_cancel hdvd, Nat.add_zero]
  · exact (Nat.lt_div_mul_add (Nat.two_pow_pos k)).le

end MigrationPlan.Binary64
