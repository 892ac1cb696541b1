import MigrationPlan.Proofs.Numeric.Signed

/-!
# Proofs/Numeric/Order — rounded sums grow with their terms

Rounding keeps order, so that a rounded sum does not fall if a term grows: **`Binary64.add_mono`**
for terms that are not negative, infinities included.  A term that is not negative does not lower a
sum (`left_le_add`), and zero does not raise one (`zero_add_le`).  Differences keep the order of
what is subtracted from (`sub_mono`), and so does the larger of a double and a fixed one
(`max_mono`).  The largest of several doubles is within a bound exactly if each of them is, and a
`nan` is within none: **`foldl_max_le_iff`**.
-/

namespace MigrationPlan.Binary64

variable {x x' y y' z : Binary64} {p q : Rat} {u v : Extended}

/-! ## Order -/

theorem le_self (hx : x.extended? = some u) : x.le x := by
  rw [le_of_extended? hx hx]
  exact Extended.le_refl u

/-- Of two doubles that stand somewhere, the one that is not above the other is below it. -/
theorem le_of_not_le (hx : x.extended? = some u) (hy : y.extended? = some v) (h : ¬x.le y) :
    y.le x := by
  rw [le_of_extended? hx hy] at h
  rw [le_of_extended? hy hx]
  exact (Extended.le_total u v).resolve_left h

/-- Points of the line compare as numbers do. -/
theorem le_iff_of_points (hx : x.extended? = some (.point p)) (hy : y.extended? = some (.point q)) :
    x.le y ↔ p ≤ q := by
  rw [le_of_extended? hx hy, Extended.point_le_point]

theorem AtLeast.exists_extended? (hx : AtLeast q x) : ∃ u, x.extended? = some u := by
  obtain ⟨u, hu, -⟩ := hx
  exact ⟨u, hu⟩

/-- What is above a number from some point on is above that point. -/
theorem AtLeast.of_le (hx : AtLeast q x) (h : x.le y) : AtLeast q y := by
  obtain ⟨u, hu, hqu⟩ := hx
  obtain ⟨u', v, hu', hv, huv⟩ := exists_extended?_of_le h
  obtain rfl := Option.some.inj (hu.symm.trans hu')
  exact ⟨v, hv, Extended.le_trans hqu huv⟩

theorem AtLeast.le_infinity (hx : AtLeast q x) : x.le (infinity false) := by
  obtain ⟨u, hu⟩ := hx.exists_extended?
  rw [le_of_extended? hu rfl]
  exact Extended.le_above u

/-- Below a point of the line a number from some point on is a point itself. -/
theorem AtLeast.exists_point (hx : AtLeast q x) (h : x.le y) (hy : y.extended? = some (.point p)) :
    ∃ r, x.extended? = some (.point r) ∧ r ≤ p := by
  obtain ⟨u, hu, hqu⟩ := hx
  rw [le_of_extended? hu hy] at h
  obtain ⟨r, rfl, -, hrp⟩ := Extended.exists_point_of_between hqu h
  exact ⟨r, hu, hrp⟩

/-! ## Sums -/

theorem atLeast_zero : AtLeast 0 (0 : Binary64) :=
  ⟨_, extended?_ofNat_zero, Extended.le_refl _⟩

/-- Natural numbers are not rounded below zero. -/
theorem atLeast_ofInt (n : Nat) : AtLeast 0 (ofInt n) :=
  ⟨_, extended?_ofRat n.cast_nonneg,
    Extended.point_le_rounded isRepresentable_zero le_rfl n.cast_nonneg⟩

theorem AtLeast.zero_le (hx : AtLeast 0 x) : (0 : Binary64).le x := by
  obtain ⟨u, hu, hle⟩ := hx
  rwa [le_of_extended? extended?_ofNat_zero hu]

/-- A sum of numbers that are not negative is not negative. -/
theorem AtLeast.add_nonneg (hx : AtLeast 0 x) (hy : AtLeast 0 y) : AtLeast 0 (x.add y) :=
  hx.add hy isRepresentable_zero le_rfl (by norm_num)

/-- **A sum does not fall if its terms grow.** -/
theorem add_mono (hx : AtLeast 0 x) (hy : AtLeast 0 y) (hxx : x.le x') (hyy : y.le y') :
    (x.add y).le (x'.add y') := by
  have hsum := hx.add_nonneg hy
  obtain rfl | ⟨p', hp', -⟩ := atLeast_iff.mp (hx.of_le hxx)
  · rw [infinity_add (hy.of_le hyy)]
    exact hsum.le_infinity
  obtain rfl | ⟨q', hq', -⟩ := atLeast_iff.mp (hy.of_le hyy)
  · rw [add_infinity (hx.of_le hxx)]
    exact hsum.le_infinity
  obtain ⟨p, hp, hpp⟩ := hx.exists_point hxx hp'
  obtain ⟨q, hq, hqq⟩ := hy.exists_point hyy hq'
  rw [le_of_extended? ((extended?_add hp hq).trans (extended?_ofRat_eq _))
    ((extended?_add hp' hq').trans (extended?_ofRat_eq _))]
  exact Extended.nearest_mono (add_le_add hpp hqq)

/-- **A term that is not negative does not lower a sum.** -/
theorem left_le_add (hx : AtLeast 0 x) (hy : AtLeast 0 y) : x.le (x.add y) := by
  obtain rfl | ⟨p, hp, hp0⟩ := atLeast_iff.mp hx
  · rw [infinity_add hy]
    exact le_self rfl
  · obtain ⟨u, hu, hpu⟩ :=
      AtLeast.add ⟨_, hp, Extended.le_refl _⟩ hy (isRepresentable_of_extended? hp hp0) hp0
        (add_zero p).ge
    rwa [le_of_extended? hp hu]

/-- The order of two terms does not matter. -/
theorem add_swap (x y : Binary64) : x.add y = y.add x := by
  rcases x with _ | s | ⟨s, m, e, h⟩ <;> rcases y with _ | t | ⟨t, n, f, k⟩
  case infinity.infinity => cases s <;> cases t <;> rfl
  case finite.finite => simp only [add, add_comm, Bool.and_comm]
  all_goals rfl

theorem right_le_add (hx : AtLeast 0 x) (hy : AtLeast 0 y) : y.le (x.add y) := by
  rw [add_swap]
  exact left_le_add hy hx

/-- Zero does not raise a sum. -/
theorem zero_add_le (hx : AtLeast 0 x) : (add 0 x).le x := by
  obtain rfl | ⟨p, hp, -⟩ := atLeast_iff.mp hx
  · exact (atLeast_zero.add_nonneg hx).le_infinity
  · have hsum := (extended?_add extended?_ofNat_zero hp).trans (extended?_ofRat_eq _)
    rw [zero_add, nearest_of_extended? hp] at hsum
    rw [le_of_extended? hsum hp]
    exact Extended.le_refl _

/-! ## Differences and maxima -/

/-- **A difference keeps the order of what is subtracted from.** -/
theorem sub_mono (hx : x.extended? = some (.point p)) (hy : y.extended? = some (.point q))
    {b : Binary64} {r : Rat} (hb : b.extended? = some (.point r)) (h : x.le y) :
    (x.sub b).le (y.sub b) := by
  have hpq := (le_iff_of_points hx hy).mp h
  rw [le_of_extended? ((extended?_sub hx hb).trans (extended?_ofRat_eq _))
    ((extended?_sub hy hb).trans (extended?_ofRat_eq _))]
  exact Extended.nearest_mono (sub_le_sub_right hpq r)

/-- The larger of a double and a fixed one keeps order. -/
theorem max_mono (hz : z.extended? = some u) (h : x.le y) : (x.max z).le (y.max z) := by
  obtain ⟨v, w, hx, hy, -⟩ := exists_extended?_of_le h
  rw [max_of_extended? hx hz, max_of_extended? hy hz]
  split_ifs with hxz hyz hyz
  · exact le_self hz
  · exact le_of_not_le hy hz hyz
  · exact absurd (le_trans h hyz) hxz
  · exact h

/-- **The larger of two doubles is within a bound exactly if both are.** -/
theorem max_le_iff (x y z : Binary64) : (x.max y).le z ↔ x.le z ∧ y.le z := by
  rcases hx : x.extended? with _ | u
  · obtain rfl := extended?_eq_none.mp hx
    exact iff_of_false nofun fun h => nomatch h.1
  rcases hy : y.extended? with _ | v
  · obtain rfl := extended?_eq_none.mp hy
    have hnan : x.max nan = nan := if_pos (Bool.or_true _)
    rw [hnan]
    exact iff_of_false nofun fun h => nomatch h.2
  rw [max_of_extended? hx hy]
  split_ifs with hxy
  · exact ⟨fun h => ⟨le_trans hxy h, h⟩, And.right⟩
  · exact ⟨fun h => ⟨h, le_trans (le_of_not_le hx hy hxy) h⟩, And.left⟩

/-- **The largest of several doubles is within a bound exactly if each of them is.** -/
theorem foldl_max_le_iff (xs : List Binary64) (x z : Binary64) :
    (xs.foldl Binary64.max x).le z ↔ x.le z ∧ ∀ y ∈ xs, y.le z := by
  induction xs generalizing x with
  | nil => simp
  | cons y ys ih => rw [List.foldl_cons, ih, max_le_iff, List.forall_mem_cons, and_assoc]

end MigrationPlan.Binary64
