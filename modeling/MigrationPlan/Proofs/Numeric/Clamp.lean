import MigrationPlan.Numeric.Conversion
import MigrationPlan.Proofs.Numeric.Binary64

/-!
# Proofs/Numeric/Clamp — results that are no number, and values moved into bounds

Rounding always gives a number, so sums and products of finite doubles are numbers; only a product
of an infinity and a zero is not (`Binary64.mul_eq_nan_iff`).  A number that is moved to the nearer
of two bounds lies between them (**`Number.clamp_mem`**), whereas what is no number is neither below
the one nor above the other, and passes between them (**`Number.clamp_nan`**).
-/

namespace MigrationPlan

namespace Binary64

variable {x y : Binary64} {p q : Rat}

/-! ## Results that are no number -/

theorem ofMagnitude_ne_nan (negative : Bool) (a : Rat) : ofMagnitude negative a ≠ nan := by
  simp only [ofMagnitude, zero]
  split_ifs <;> simp

theorem ofRat_ne_nan (q : Rat) : ofRat q ≠ nan :=
  ofMagnitude_ne_nan _ _

/-- A sum with a finite double is a number if the other term is. -/
theorem add_eq_nan_iff (hx : x.isFinite) : x.add y = nan ↔ y = nan := by
  rcases x with _ | s | ⟨s, m, e, h⟩
  · simp [isFinite] at hx
  · simp [isFinite] at hx
  rcases y with _ | t | ⟨t, m', e', h'⟩
  · simp [add]
  · simp [add]
  · rw [add_of_isFinite rfl rfl]
    split_ifs
    · simp [zero]
    · simp [ofRat_ne_nan]

/-- **A product with a finite double is a number unless an infinity meets a zero.** -/
theorem mul_eq_nan_iff (hy : y.isFinite) :
    x.mul y = nan ↔ x = nan ∨ (∃ s, x = infinity s) ∧ y.isZero := by
  rcases y with _ | t | ⟨t, m, e, h⟩
  · simp [isFinite] at hy
  · simp [isFinite] at hy
  rcases x with _ | s | ⟨s, m', e', h'⟩
  · simp [mul]
  · by_cases hzero : (finite t m e h).isZero <;> simp [mul, hzero]
  · simp [mul, ofMagnitude_ne_nan]

/-- The zeros are the doubles at the origin. -/
theorem isZero_iff : x.isZero ↔ x.extended? = some (.point 0) := by
  rw [extended?_eq_point]
  rcases x with _ | s | ⟨s, m, e, h⟩
  · simp [isZero, isFinite]
  · simp [isZero, isFinite]
  · have hmantissa : m * (2 : Rat) ^ e = 0 ↔ m = 0 := by
      rw [mul_eq_zero, Nat.cast_eq_zero, or_iff_left (two_zpow_pos e).ne']
    have hvalue : (finite s m e h).toRat = 0 ↔ m = 0 := by
      cases s <;> simp [toRat, hmantissa]
    rw [hvalue]
    cases m <;> simp [isZero, isFinite]

/-! ## Widths -/

theorem extended?_eq_above : x.extended? = some .above ↔ x = infinity false := by
  rcases x with _ | s | _
  · simp [extended?]
  · cases s <;> simp [extended?]
  · simp [extended?]

/-- A difference of finite doubles in order is a finite double or the positive infinity. -/
theorem sub_isFinite_or (hx : x.extended? = some (.point p)) (hy : y.extended? = some (.point q))
    (h : q ≤ p) : (x.sub y).isFinite ∨ x.sub y = infinity false := by
  have hsub := (extended?_sub hx hy).trans (extended?_ofRat (sub_nonneg.mpr h))
  rw [Extended.rounded] at hsub
  split_ifs at hsub
  · exact .inl (extended?_eq_point.mp hsub).1
  · exact .inr (extended?_eq_above.mp hsub)

/-- Only doubles in order have an infinite difference. -/
theorem lt_of_sub_eq_infinity (hx : x.extended? = some (.point p))
    (hy : y.extended? = some (.point q)) (h : x.sub y = infinity false) : q < p := by
  by_contra hle
  obtain ⟨z, hz, hnonpos⟩ := extended?_ofRat_of_nonpos (sub_nonpos.mpr (not_lt.mp hle))
  have hsub := (extended?_sub hx hy).trans hz
  rw [h] at hsub
  obtain rfl := Option.some.inj hsub
  exact nomatch hnonpos

end Binary64

namespace Number

variable {x lower upper : Number} {z l u : Extended}

/-! ## Moving into bounds -/

theorem le_iff_of_extended? {y : Number} {w : Extended} (hx : x.extended? = some z)
    (hy : y.extended? = some w) : x.le y ↔ z.le w := by
  rw [le, hx, hy]

theorem lt_iff_of_extended? {y : Number} {w : Extended} (hx : x.extended? = some z)
    (hy : y.extended? = some w) : x.lt y ↔ ¬w.le z := by
  rw [lt, hx, hy]
  simp [Extended.lt]

/-- The larger of two numbers stands where one of them stands, and not below the second. -/
theorem exists_extended?_max (hx : x.extended? = some z) (hl : lower.extended? = some l) :
    ∃ w, (x.max lower).extended? = some w ∧ l.le w := by
  rw [max]
  split_ifs with hlt
  · exact ⟨l, hl, l.le_refl⟩
  · exact ⟨z, hx, not_not.mp (mt (lt_iff_of_extended? hx hl).mpr hlt)⟩

/-- **A number moved into bounds lies between them.** -/
theorem clamp_mem (hx : x.extended? = some z) (hl : lower.extended? = some l)
    (hu : upper.extended? = some u) (h : l.le u) :
    lower.le ((x.max lower).min upper) ∧ ((x.max lower).min upper).le upper := by
  obtain ⟨w, hw, hlw⟩ := exists_extended?_max hx hl
  rw [min]
  split_ifs with hlt
  · exact ⟨(le_iff_of_extended? hl hu).mpr h, (le_iff_of_extended? hu hu).mpr u.le_refl⟩
  · refine ⟨(le_iff_of_extended? hl hw).mpr hlw, (le_iff_of_extended? hw hu).mpr ?_⟩
    exact not_not.mp (mt (lt_iff_of_extended? hu hw).mpr hlt)

/-- **What is no number passes between any bounds.** -/
theorem clamp_nan (lower upper : Number) :
    ((real .nan).max lower).min upper = real .nan := by
  have hnan : (real .nan).extended? = none := rfl
  have hmax : (real .nan).max lower = real .nan := if_neg (by simp [lt, hnan])
  have hlt : upper.lt (real .nan) = false := by
    rw [lt, hnan]
    cases upper.extended? <;> rfl
  rw [hmax, min, hlt]
  rfl

end Number

end MigrationPlan
