import MigrationPlan.Proofs.Numeric.Grid

/-!
# Proofs/Numeric/Binary64 — where the results of rounded operations stand

A magnitude becomes the double that it is rounded to on its grid, or an infinity
(**`extended?_ofMagnitude`**), and sums and differences of doubles are exact ones, rounded.  So
order and exactness come down to those of the grid:

* `AtLeast.add` — a sum reaches every representable number that the exact sum reaches;
* `sub_le_zero_iff` — a rounded difference has the sign of the exact one.
-/

namespace MigrationPlan

variable {a t : Rat}

namespace Binary64

variable {p q : Rat} {x y : Binary64} {negative : Bool}

/-- A point of the line is the exact value of a finite double. -/
theorem extended?_eq_point : x.extended? = some (.point p) ↔ x.isFinite ∧ x.toRat = p := by
  rcases x with _ | s | ⟨s, m, e, h⟩
  · simp [extended?, isFinite]
  · cases s <;> simp [extended?, isFinite]
  · simp [extended?, isFinite]

@[simp] theorem extended?_zero (negative : Bool) :
    (zero negative).extended? = some (.point 0) := by
  cases negative <;> simp [extended?, zero, toRat]

/-! ## Rounding to a double -/

/-- The mantissa on the grid is a natural number of at most fifty-three bits, or the power of two
above these. -/
theorem exists_mantissa (ha : 0 < a) :
    ∃ m : Nat, roundHalfEven (a / (2 : Rat) ^ gridExponent a) = m ∧ m ≤ 2 ^ 53
      ∧ (gridExponent a = -1074 ∨ -1074 < gridExponent a ∧ 2 ^ 52 ≤ m) := by
  obtain ⟨m, hm⟩ := Int.eq_ofNat_of_zero_le (roundHalfEven_grid_nonneg ha.le)
  have hmax := roundHalfEven_grid_le ha
  refine ⟨m, hm, by omega, ?_⟩
  rcases (le_max_right _ _ : -1074 ≤ gridExponent a).eq_or_lt with he | he
  · exact .inl he.symm
  · have := le_roundHalfEven_grid ha he
    exact .inr ⟨he, by omega⟩

/-- The double of a mantissa on its grid: the canonical one, the least of the next binade, or an
infinity. -/
theorem ofMagnitude_eq {m : Nat} (ha : 0 < a)
    (hm : roundHalfEven (a / (2 : Rat) ^ gridExponent a) = m) :
    ofMagnitude negative a =
      if h : IsCanonical m (gridExponent a) then .finite negative m (gridExponent a) h
      else if h : IsCanonical 0x10000000000000 (gridExponent a + 1) then
        .finite negative 0x10000000000000 (gridExponent a + 1) h
      else .infinity negative := by
  obtain rfl : (roundHalfEven (a / (2 : Rat) ^ gridExponent a)).toNat = m := by rw [hm]; rfl
  rw [ofMagnitude, if_neg ha.ne']
  rfl

/-- Which mantissas stay below `2 ^ 1024` on their grid. -/
theorem mantissa_lt_iff {m : Nat} {e : Int} (hmax : m ≤ 2 ^ 53) (hgrid : 971 < e → 2 ^ 52 ≤ m) :
    m * (2 : Rat) ^ e < 2 ^ 1024 ↔ m < 2 ^ 53 ∧ e ≤ 971 ∨ e ≤ 970 := by
  have hcast : ((2 ^ 53 : Nat) : Rat) = (2 : Rat) ^ (53 : Int) := by norm_num
  have hlimit : (2 : Rat) ^ (1024 : Int) = 2 ^ 1024 := zpow_natCast 2 1024
  rw [← hlimit]
  constructor
  · intro hlt
    by_contra hlarge
    refine hlt.not_ge ?_
    rcases (by omega : m = 2 ^ 53 ∧ 971 ≤ e ∨ 2 ^ 52 ≤ m ∧ 972 ≤ e) with ⟨rfl, he⟩ | ⟨hm, he⟩
    · rw [hcast, two_zpow_eq rfl]
      exact two_zpow_le (by omega)
    · have hm : (2 : Rat) ^ (52 : Int) ≤ m := by exact_mod_cast hm
      calc (2 : Rat) ^ (1024 : Int) ≤ (2 : Rat) ^ (52 + e) := two_zpow_le (by omega)
        _ = (2 : Rat) ^ (52 : Int) * (2 : Rat) ^ e := (two_zpow_eq rfl).symm
        _ ≤ m * (2 : Rat) ^ e := mul_le_mul_of_nonneg_right hm (two_zpow_pos e).le
  · rintro (⟨hm, he⟩ | he)
    · have hm : (m : Rat) < (2 : Rat) ^ (53 : Int) := by exact_mod_cast hm
      calc m * (2 : Rat) ^ e < (2 : Rat) ^ (53 : Int) * (2 : Rat) ^ e :=
            mul_lt_mul_of_pos_right hm (two_zpow_pos e)
        _ = (2 : Rat) ^ (53 + e) := two_zpow_eq rfl
        _ ≤ (2 : Rat) ^ (1024 : Int) := two_zpow_le (by omega)
    · have hm : (m : Rat) ≤ (2 : Rat) ^ (53 : Int) := by exact_mod_cast hmax
      calc m * (2 : Rat) ^ e ≤ (2 : Rat) ^ (53 : Int) * (2 : Rat) ^ e :=
            mul_le_mul_of_nonneg_right hm (two_zpow_pos e).le
        _ = (2 : Rat) ^ (53 + e) := two_zpow_eq rfl
        _ < (2 : Rat) ^ (1024 : Int) := zpow_lt_zpow_right₀ one_lt_two (by omega)

/-- **A magnitude becomes the double it is rounded to, or an infinity.** -/
theorem extended?_ofMagnitude (ha : 0 ≤ a) :
    (ofMagnitude false a).extended? = some (Extended.rounded a) := by
  rcases ha.eq_or_lt with rfl | ha
  · rw [ofMagnitude, if_pos rfl, extended?_zero, Extended.rounded_zero]
  obtain ⟨m, hm, hmax, hgrid⟩ := exists_mantissa ha
  have hround : roundOnGrid a = m * (2 : Rat) ^ gridExponent a := by
    rw [roundOnGrid, hm]
    rfl
  have hsize := mantissa_lt_iff hmax (e := gridExponent a) (by omega)
  rw [ofMagnitude_eq ha hm, Extended.rounded, hround]
  generalize gridExponent a = e at hgrid hsize
  by_cases hcanonical : IsCanonical m e
  · rw [dif_pos hcanonical, if_pos (hsize.mpr (.inl ⟨hcanonical.1, hcanonical.2.2.1⟩))]
    rfl
  have hnot : ¬(m < 2 ^ 53 ∧ e ≤ 971) := fun h => hcanonical ⟨h.1, by omega, h.2, by omega⟩
  rw [dif_neg hcanonical]
  by_cases he : e ≤ 970
  · -- the mantissa was rounded up to the next power of two
    obtain rfl : m = 2 ^ 53 := by omega
    have hnext : IsCanonical 0x10000000000000 (e + 1) := ⟨by norm_num, by omega, by omega, by omega⟩
    have hvalue : ((0x10000000000000 : Nat) : Rat) * (2 : Rat) ^ (e + 1)
        = ((2 ^ 53 : Nat) : Rat) * (2 : Rat) ^ e := by
      rw [← two_zpow_eq (add_comm 1 e)]
      norm_num
      ring
    rw [dif_pos hnext, if_pos (hsize.mpr (.inr he)), ← hvalue]
    rfl
  · have hnext : ¬IsCanonical 0x10000000000000 (e + 1) := fun h => he (by have := h.2.2.1; omega)
    rw [dif_neg hnext, if_neg fun hlt => (hsize.mp hlt).elim hnot he]
    rfl

theorem extended?_ofRat (hq : 0 ≤ q) : (ofRat q).extended? = some (Extended.rounded q) := by
  have habs : q.abs = q := Rat.abs_of_nonneg hq
  rw [ofRat, decide_eq_false hq.not_gt, habs, extended?_ofMagnitude hq]

@[simp] theorem ofRat_zero : ofRat 0 = zero false := by
  rw [ofRat, ofMagnitude, if_pos (Rat.abs_of_nonneg le_rfl)]
  rfl

/-! ## Signs -/

theorem extended?_neg (x : Binary64) : x.neg.extended? = x.extended?.map Extended.neg := by
  rcases x with _ | s | ⟨s, m, e, h⟩
  · rfl
  · cases s <;> rfl
  · cases s <;> simp [neg, extended?, toRat, Extended.neg]

theorem neg_ofMagnitude (negative : Bool) (a : Rat) :
    (ofMagnitude negative a).neg = ofMagnitude (!negative) a := by
  simp only [ofMagnitude]
  split_ifs <;> rfl

/-- A negative rational is rounded like its magnitude, to the other side. -/
theorem extended?_ofRat_of_neg (hq : q < 0) :
    (ofRat q).extended? = some (Extended.rounded (-q)).neg := by
  have hpos : 0 ≤ -q := (neg_pos.mpr hq).le
  have habs : q.abs = -q := Rat.abs_of_nonpos hq.le
  rw [ofRat, decide_eq_true hq, habs, ← Bool.not_false, ← neg_ofMagnitude, extended?_neg,
    extended?_ofMagnitude hpos, Option.map_some]

/-- The magnitude of a canonical pair is a double, so that it is not rounded. -/
theorem rounded_canonical {m : Nat} {e : Int} (h : IsCanonical m e) :
    Extended.rounded (m * (2 : Rat) ^ e) = .point (m * (2 : Rat) ^ e) := by
  obtain ⟨hm, hleast, hgreatest, hfull⟩ := h
  have hbits : m < 2 ^ 53 := hm
  have hlimit : m * (2 : Rat) ^ e < 2 ^ 1024 :=
    (mantissa_lt_iff hbits.le fun he => absurd hgreatest he.not_ge).mpr (.inl ⟨hbits, hgreatest⟩)
  exact Extended.rounded_of_isRepresentable ⟨m, e, hbits.le, hleast, rfl⟩ hlimit

/-- **The exact value of a double is rounded back to where the double stands.** -/
theorem extended?_ofRat_of_extended? (hx : x.extended? = some (.point p)) :
    (ofRat p).extended? = some (.point p) := by
  obtain ⟨hfinite, rfl⟩ := extended?_eq_point.mp hx
  cases x with
  | finite s m e h =>
    have hnonneg : 0 ≤ m * (2 : Rat) ^ e := mul_nonneg m.cast_nonneg (two_zpow_pos e).le
    cases s with
    | false => exact (extended?_ofRat hnonneg).trans (congrArg some (rounded_canonical h))
    | true =>
      change (ofRat (-(m * (2 : Rat) ^ e))).extended? = some (.point (-(m * (2 : Rat) ^ e)))
      rcases hnonneg.eq_or_lt with hzero | hpos
      · rw [← hzero, neg_zero, ofRat_zero, extended?_zero]
      · rw [extended?_ofRat_of_neg (neg_neg_of_pos hpos), InvolutiveNeg.neg_neg,
          rounded_canonical h]
        rfl
  | _ => simp [isFinite] at hfinite

theorem extended?_ofRat_of_nonpos (hq : q ≤ 0) :
    ∃ z, (ofRat q).extended? = some z ∧ z.le (.point 0) := by
  rcases hq.eq_or_lt with rfl | hq
  · exact ⟨.point 0, by rw [ofRat_zero, extended?_zero], Extended.le_refl _⟩
  · have hpos : 0 ≤ -q := (neg_pos.mpr hq).le
    refine ⟨_, extended?_ofRat_of_neg hq, ?_⟩
    rw [← neg_zero]
    exact Extended.neg_le_neg (Extended.point_le_rounded isRepresentable_zero le_rfl hpos)

@[simp] theorem neg_neg (x : Binary64) : x.neg.neg = x := by
  cases x <;> simp [neg]

/-! ## Order -/

theorem le_of_extended? {u v : Extended} (hx : x.extended? = some u) (hy : y.extended? = some v) :
    x.le y = u.le v := by
  rw [le, hx, hy]

/-- Of two numbers that stand somewhere, one is below the other if it is not above it. -/
theorem lt_of_extended? {u v : Extended} (hx : x.extended? = some u) (hy : y.extended? = some v) :
    x.lt y = !y.le x := by
  rw [lt, le, hx, hy]
  rfl

/-- Only `nan` stands nowhere. -/
theorem extended?_eq_none : x.extended? = none ↔ x = nan := by
  cases x <;> simp [extended?]

/-- The larger of two numbers that stand somewhere. -/
theorem max_of_extended? {u v : Extended} (hx : x.extended? = some u) (hy : y.extended? = some v) :
    x.max y = if x.le y then y else x := by
  have hnan {z : Binary64} {w : Extended} (hz : z.extended? = some w) : z.isNan = false := by
    cases z with
    | nan => simp [extended?] at hz
    | _ => rfl
  rw [max, hnan hx, hnan hy, lt_of_extended? hy hx]
  cases x.le y <;> rfl

/-- What can be compared stands somewhere. -/
theorem exists_extended?_of_le (h : x.le y) :
    ∃ u v, x.extended? = some u ∧ y.extended? = some v ∧ u.le v := by
  rw [le] at h
  rcases hx : x.extended? with _ | u
  · simp [hx] at h
  rcases hy : y.extended? with _ | v
  · simp [hx, hy] at h
  exact ⟨u, v, rfl, rfl, by simpa [hx, hy] using h⟩

theorem le_trans {z : Binary64} (hxy : x.le y) (hyz : y.le z) : x.le z := by
  obtain ⟨u, v, hx, hy, huv⟩ := exists_extended?_of_le hxy
  obtain ⟨v', w, hy', hz, hvw⟩ := exists_extended?_of_le hyz
  obtain rfl := Option.some.inj (hy.symm.trans hy')
  rw [le_of_extended? hx hz]
  exact Extended.le_trans huv hvw

/-- The strict order is that of the other one. -/
theorem lt_iff_le_not_le : x.lt y ↔ x.le y ∧ ¬y.le x := by
  rcases hx : x.extended? with _ | u
  · simp [lt, le, hx]
  rcases hy : y.extended? with _ | v
  · simp [lt, le, hx, hy]
  have htotal := Extended.le_total u v
  rw [lt_of_extended? hx hy, le_of_extended? hx hy, le_of_extended? hy hx]
  cases huv : u.le v <;> simp_all

/-- Signs turn the order around. -/
theorem neg_le_neg_iff (x y : Binary64) : x.neg.le y.neg = y.le x := by
  rw [le, le, extended?_neg, extended?_neg]
  rcases x.extended? with _ | u <;> rcases y.extended? with _ | v <;>
    simp [Extended.neg_le_neg_iff]

theorem neg_lt_neg_iff (x y : Binary64) : x.neg.lt y.neg = y.lt x := by
  rw [Bool.eq_iff_iff, lt_iff_le_not_le, lt_iff_le_not_le, neg_le_neg_iff, neg_le_neg_iff]

/-- Zero as a double is positive. -/
theorem ofNat_zero : (0 : Binary64) = zero false := by
  change ofRat ((0 : Int) : Rat) = zero false
  rw [Int.cast_zero, ofRat_zero]

theorem extended?_ofNat_zero : (0 : Binary64).extended? = some (.point 0) := by
  rw [ofNat_zero, extended?_zero]

/-! ## Sums -/

/-- Finite doubles are added as rationals. -/
theorem add_of_isFinite (hx : x.isFinite) (hy : y.isFinite) :
    x.add y = if x.toRat + y.toRat = 0 then zero (x.isNegative && y.isNegative)
      else ofRat (x.toRat + y.toRat) := by
  cases x with
  | finite => cases y with
    | finite => simp only [add]
    | _ => simp [isFinite] at hy
  | _ => simp [isFinite] at hx

/-- **A sum of points is their exact sum, rounded.** -/
theorem extended?_add (hx : x.extended? = some (.point p)) (hy : y.extended? = some (.point q)) :
    (x.add y).extended? = (ofRat (p + q)).extended? := by
  obtain ⟨hxfinite, rfl⟩ := extended?_eq_point.mp hx
  obtain ⟨hyfinite, rfl⟩ := extended?_eq_point.mp hy
  rw [add_of_isFinite hxfinite hyfinite]
  split_ifs with hzero
  · rw [hzero, extended?_zero, ofRat_zero, extended?_zero]
  · rfl

/-- A number that is not below a rational. -/
def AtLeast (q : Rat) (x : Binary64) : Prop :=
  ∃ z, x.extended? = some z ∧ (Extended.point q).le z

/-- It is a point from there on, or the positive infinity. -/
theorem atLeast_iff :
    AtLeast q x ↔ x = infinity false ∨ ∃ p, x.extended? = some (.point p) ∧ q ≤ p := by
  rcases x with _ | s | ⟨s, m, e, h⟩
  · simp [AtLeast, extended?]
  · cases s <;> simp [AtLeast, extended?, Extended.le]
  · simp [AtLeast, extended?]

theorem infinity_add (hy : AtLeast q y) : (infinity false).add y = infinity false := by
  obtain rfl | ⟨p, hp, -⟩ := atLeast_iff.mp hy
  · rfl
  · cases y with
    | finite => rfl
    | _ => simp [extended?_eq_point, isFinite] at hp

theorem add_infinity (hx : AtLeast q x) : x.add (infinity false) = infinity false := by
  obtain rfl | ⟨p, hp, -⟩ := atLeast_iff.mp hx
  · rfl
  · cases x with
    | finite => rfl
    | _ => simp [extended?_eq_point, isFinite] at hp

/-- **A sum does not fall below a representable number that the exact sum reaches.** -/
theorem AtLeast.add (hx : AtLeast p x) (hy : AtLeast q y) (ht : IsRepresentable t) (hnonneg : 0 ≤ t)
    (h : t ≤ p + q) : AtLeast t (x.add y) := by
  obtain rfl | ⟨p', hp', hpp'⟩ := atLeast_iff.mp hx
  · rw [infinity_add hy]
    exact atLeast_iff.mpr (.inl rfl)
  obtain rfl | ⟨q', hq', hqq'⟩ := atLeast_iff.mp hy
  · rw [add_infinity hx]
    exact atLeast_iff.mpr (.inl rfl)
  have hsum : t ≤ p' + q' := h.trans (add_le_add hpp' hqq')
  refine ⟨_, (extended?_add hp' hq').trans (extended?_ofRat (hnonneg.trans hsum)), ?_⟩
  exact Extended.point_le_rounded ht hnonneg hsum

/-! ## Differences -/

/-- Doubles are whole multiples of the least of them. -/
theorem exists_units (hx : x.extended? = some (.point p)) :
    ∃ n : Int, p = n * (2 : Rat) ^ (-1074 : Int) := by
  obtain ⟨hfinite, rfl⟩ := extended?_eq_point.mp hx
  cases x with
  | finite s m e h =>
    obtain ⟨d, rfl⟩ := Int.le.dest h.2.1
    have hunits : (m : Rat) * (2 : Rat) ^ (-1074 + (d : Int))
        = ((m * 2 ^ d : Nat) : Int) * (2 : Rat) ^ (-1074 : Int) := by
      rw [← two_zpow_eq (add_comm (d : Int) (-1074)), zpow_natCast 2 d, ← mul_assoc,
        Int.cast_natCast, Nat.cast_mul, Nat.cast_pow, Nat.cast_ofNat]
    cases s with
    | false => exact ⟨_, hunits⟩
    | true =>
      refine ⟨-((m * 2 ^ d : Nat) : Int), ?_⟩
      rw [Int.cast_neg, neg_mul, ← hunits]
      rfl
  | _ => simp [isFinite] at hfinite

/-- Doubles that differ differ by at least the least of them. -/
theorem le_sub_of_lt (hx : x.extended? = some (.point p)) (hy : y.extended? = some (.point q))
    (h : q < p) : (2 : Rat) ^ (-1074 : Int) ≤ p - q := by
  obtain ⟨m, rfl⟩ := exists_units hx
  obtain ⟨n, rfl⟩ := exists_units hy
  have hunit := two_zpow_pos (-1074)
  have hlt : n < m := Int.cast_lt.mp (lt_of_mul_lt_mul_right h hunit.le)
  have hone : (1 : Rat) ≤ ((m - n : Int) : Rat) := by exact_mod_cast Int.sub_pos.mpr hlt
  rw [← sub_mul, ← Int.cast_sub]
  exact le_mul_of_one_le_left hunit.le hone

theorem extended?_sub (hx : x.extended? = some (.point p)) (hy : y.extended? = some (.point q)) :
    (x.sub y).extended? = (ofRat (p - q)).extended? := by
  have hneg : y.neg.extended? = some (.point (-q)) := by rw [extended?_neg, hy]; rfl
  rw [sub, extended?_add hx hneg, sub_eq_add_neg]

/-- What is taken from an infinity leaves it. -/
theorem infinity_sub (negative : Bool) (hy : y.extended? = some (.point q)) :
    (infinity negative).sub y = infinity negative := by
  cases y with
  | finite => rfl
  | _ => simp [extended?_eq_point, isFinite] at hy

theorem eq_infinity_of_extended? {u : Extended} (hx : x.extended? = some u)
    (hu : ∀ p, u ≠ .point p) : ∃ negative, x = infinity negative := by
  cases x with
  | nan => simp [extended?] at hx
  | infinity negative => exact ⟨negative, rfl⟩
  | finite => exact absurd (Option.some.inj hx).symm (hu _)

/-- **A rounded difference has the sign of the exact one.**  Doubles that differ are no closer than
the least double, which is not rounded away. -/
theorem sub_le_zero_iff {u : Extended} (hx : x.extended? = some u)
    (hy : y.extended? = some (.point q)) : (x.sub y).le 0 ↔ u.le (.point q) := by
  have hzero := extended?_ofNat_zero
  cases u with
  | point p =>
    have hsub := extended?_sub hx hy
    rw [Extended.point_le_point]
    rcases lt_or_ge q p with hlt | hle
    · have hunit : IsRepresentable ((2 : Rat) ^ (-1074 : Int)) :=
        ⟨1, -1074, by norm_num, le_rfl, by rw [Nat.cast_one, one_mul]⟩
      have hround := Extended.point_le_rounded hunit (two_zpow_pos _).le (le_sub_of_lt hx hy hlt)
      rw [extended?_ofRat (sub_pos.mpr hlt).le] at hsub
      rw [le_of_extended? hsub hzero]
      refine iff_of_false (fun hle => ?_) hlt.not_ge
      have hpoint := Extended.point_le_point.mp (Extended.le_trans hround hle)
      exact (two_zpow_pos (-1074)).not_ge hpoint
    · obtain ⟨z, hz, hnonpos⟩ := extended?_ofRat_of_nonpos (sub_nonpos.mpr hle)
      rw [le_of_extended? (hsub.trans hz) hzero]
      exact iff_of_true hnonpos hle
  | below | above =>
    obtain ⟨negative, rfl⟩ := eq_infinity_of_extended? hx nofun
    rw [infinity_sub negative hy, le_of_extended? hx hzero]
    exact Iff.rfl

end Binary64

end MigrationPlan
