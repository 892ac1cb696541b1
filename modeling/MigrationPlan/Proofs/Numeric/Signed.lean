import MigrationPlan.Proofs.Numeric.Clamp
import MigrationPlan.Proofs.Numeric.Spacing

/-!
# Proofs/Numeric/Signed — every operation is the exact one, rounded

Rounding is odd: what is below zero is rounded like its magnitude, to the other side.  So the facts
about magnitudes hold on the whole line: `Extended.nearest` is where a rational is rounded to, it
keeps order (**`Extended.nearest_mono`**), and between two doubles it is `roundSigned`, with no
double nearer to the exact number (**`abs_roundSigned_sub_le`**), so that it does not lead far where
doubles are close (`abs_roundSigned_sub_le_of_spacing`), and integers stay integers
(`exists_roundSigned_intCast`).  Sums, differences, products and quotients of finite doubles are the
exact ones, rounded in this way (`Binary64.extended?_mul`, `Binary64.extended?_div`).
-/

namespace MigrationPlan

variable {a b p q r t : Rat}

/-! ## Rationals of either sign -/

/-- A rational rounded on the grid of its magnitude. -/
def roundSigned (q : Rat) : Rat :=
  if 0 ≤ q then roundOnGrid q else -roundOnGrid (-q)

theorem roundSigned_of_nonneg (hq : 0 ≤ q) : roundSigned q = roundOnGrid q :=
  if_pos hq

/-- Rounding is odd. -/
theorem roundSigned_neg (q : Rat) : roundSigned (-q) = -roundSigned q := by
  rcases lt_trichotomy q 0 with hq | rfl | hq
  · rw [roundSigned, roundSigned, if_pos (neg_pos.mpr hq).le, if_neg hq.not_ge, neg_neg]
  · simp [roundSigned]
  · rw [roundSigned, roundSigned, if_neg (neg_neg_of_pos hq).not_ge, if_pos hq.le, neg_neg]

/-- **No double is nearer to a rational than the one rounded to.** -/
theorem abs_roundSigned_sub_le (ht : IsRepresentable |t|) (q : Rat) :
    |roundSigned q - q| ≤ |t - q| := by
  have hnonneg {s r : Rat} (hs : IsRepresentable |s|) (hr : 0 ≤ r) :
      |roundSigned r - r| ≤ |s - r| := by
    rw [roundSigned_of_nonneg hr]
    rcases le_total 0 s with hpos | hneg
    · rw [abs_of_nonneg hpos] at hs
      exact abs_roundOnGrid_sub_le hs hr
    · -- zero lies between a number and a double of the other sign
      refine (abs_roundOnGrid_sub_le isRepresentable_zero hr).trans ?_
      rw [zero_sub, abs_neg, abs_of_nonneg hr, abs_of_nonpos (by linarith)]
      linarith
  rcases le_total 0 q with hq | hq
  · exact hnonneg ht hq
  · have hreflected := hnonneg (s := -t) (r := -q) (by rwa [abs_neg]) (neg_nonneg.mpr hq)
    rwa [roundSigned_neg, neg_sub_neg, neg_sub_neg, abs_sub_comm, abs_sub_comm q t] at hreflected

/-- What is representable is not rounded. -/
theorem roundSigned_of_isRepresentable (ht : IsRepresentable |t|) : roundSigned t = t := by
  have hnearest := abs_roundSigned_sub_le ht t
  rw [sub_self, abs_zero] at hnearest
  exact sub_eq_zero.mp (abs_nonpos_iff.mp hnearest)

theorem roundSigned_mono (h : q ≤ r) : roundSigned q ≤ roundSigned r := by
  rw [roundSigned, roundSigned]
  split_ifs with hq hr hr
  · exact roundOnGrid_mono hq h
  · exact absurd (hq.trans h) hr
  · have hneg := roundOnGrid_nonneg (neg_nonneg.mpr (not_le.mp hq).le)
    have hpos := roundOnGrid_nonneg hr
    linarith
  · exact neg_le_neg (roundOnGrid_mono (neg_nonneg.mpr (not_le.mp hr).le) (neg_le_neg h))

/-- What is rounded from half the way above a number is no farther above it, if doubles are so
close that one lies on the way. -/
theorem roundSigned_sub_le {b s e : Rat} (hb : 0 < b) (he : 0 ≤ e) (hs : spacing b + e ≤ s)
    (ha : |a| ≤ b) (hround : |roundSigned q| ≤ b) (hq : q - a ≤ (s + e) / 2) :
    roundSigned q - a ≤ s := by
  by_contra hfar
  have hgrid := spacing_pos b
  -- a point of the grid between the end of the slack and the end of the way
  obtain ⟨i, hlower, hupper⟩ : ∃ i : Int, a + e ≤ i * spacing b ∧ i * spacing b ≤ a + s := by
    refine ⟨⌈(a + e) / spacing b⌉, (div_le_iff₀ hgrid).mp (Int.le_ceil _), ?_⟩
    have hceil := mul_le_mul_of_nonneg_right (Int.ceil_lt_add_one ((a + e) / spacing b)).le hgrid.le
    rw [add_mul, div_mul_cancel₀ _ hgrid.ne', one_mul] at hceil
    linarith
  have hpoint : |i * spacing b| ≤ b := by
    rw [abs_le] at ha hround ⊢
    constructor <;> linarith
  have hnearest := abs_roundSigned_sub_le (isRepresentable_abs_mul_spacing hb hpoint) q
  have hdistance := (le_abs_self _).trans hnearest
  rcases le_total q (i * spacing b) with hle | hge
  · rw [abs_of_nonneg (sub_nonneg.mpr hle)] at hdistance
    linarith
  · rw [abs_of_nonpos (sub_nonpos.mpr hge)] at hdistance
    linarith

/-- **Where doubles are closer than what is asked, rounding does not lead beyond it.** -/
theorem abs_roundSigned_sub_le_of_spacing {b s e : Rat} (hb : 0 < b) (he : 0 ≤ e)
    (hs : spacing b + e ≤ s) (ha : |a| ≤ b) (hround : |roundSigned q| ≤ b)
    (hq : |q - a| ≤ (s + e) / 2) : |roundSigned q - a| ≤ s := by
  have habove := roundSigned_sub_le hb he hs ha hround (abs_le.mp hq).2
  have hbelow := roundSigned_sub_le (q := -q) (a := -a) hb he hs (by rwa [abs_neg])
    (by rwa [roundSigned_neg, abs_neg]) (by linarith [(abs_le.mp hq).1])
  rw [roundSigned_neg] at hbelow
  rw [abs_le]
  constructor <;> linarith

/-! ## Integers -/

/-- Up to `2 ^ 53` integers have no more bits than doubles. -/
theorem isRepresentable_natCast {n : Nat} (h : n ≤ 2 ^ 53) : IsRepresentable n :=
  ⟨n, 0, h, by norm_num, by rw [zpow_zero, mul_one]⟩

/-- Above that the grid is no finer than the integers. -/
theorem gridExponent_natCast_nonneg {n : Nat} (h : 2 ^ 53 < n) : 0 ≤ gridExponent n := by
  by_contra hfine
  have hpos : (0 : Rat) < n := by exact_mod_cast (Nat.two_pow_pos 53).trans h
  have hbits : (n : Rat) < (2 : Rat) ^ (53 : Int) :=
    (lt_gridExponent hpos).trans_le (two_zpow_le (by omega))
  exact h.not_gt (by exact_mod_cast hbits)

theorem exists_roundOnGrid_natCast (n : Nat) : ∃ m : Nat, roundOnGrid n = m := by
  rcases le_or_gt n (2 ^ 53) with hle | hgt
  · exact ⟨n, roundOnGrid_of_isRepresentable (isRepresentable_natCast hle)⟩
  · obtain ⟨k, hk⟩ := Int.eq_ofNat_of_zero_le (gridExponent_natCast_nonneg hgt)
    obtain ⟨m, hm⟩ := Int.eq_ofNat_of_zero_le (roundHalfEven_grid_nonneg n.cast_nonneg)
    refine ⟨m * 2 ^ k, ?_⟩
    rw [roundOnGrid, hm, hk, zpow_natCast]
    push_cast
    rfl

/-- **An integer is rounded to an integer.** -/
theorem exists_roundSigned_intCast (i : Int) : ∃ j : Int, roundSigned i = j := by
  obtain ⟨n, rfl | rfl⟩ := i.eq_nat_or_neg
  · obtain ⟨m, hm⟩ := exists_roundOnGrid_natCast n
    refine ⟨m, ?_⟩
    rw [Int.cast_natCast, roundSigned_of_nonneg n.cast_nonneg, hm, Int.cast_natCast]
  · obtain ⟨m, hm⟩ := exists_roundOnGrid_natCast n
    refine ⟨-m, ?_⟩
    rw [Int.cast_neg, roundSigned_neg, Int.cast_natCast, roundSigned_of_nonneg n.cast_nonneg, hm,
      Int.cast_neg, Int.cast_natCast]

/-- An integer of at most fifty-three bits is not rounded. -/
theorem roundSigned_intCast_of_abs_le {i : Int} (h : |i| ≤ 2 ^ 53) : roundSigned i = i := by
  refine roundSigned_of_isRepresentable ?_
  obtain ⟨n, hn⟩ := Int.eq_ofNat_of_zero_le (abs_nonneg i)
  rw [← Int.cast_abs, hn, Int.cast_natCast]
  exact isRepresentable_natCast (by omega)

/-! ## The extended line -/

namespace Extended

/-- Where a rational is rounded to. -/
def nearest (q : Rat) : Extended :=
  if 0 ≤ q then rounded q else (rounded (-q)).neg

theorem nearest_of_nonneg (hq : 0 ≤ q) : nearest q = rounded q :=
  if_pos hq

theorem nearest_neg (q : Rat) : nearest (-q) = (nearest q).neg := by
  have hinvolutive (z : Extended) : z.neg.neg = z := by cases z <;> simp [neg]
  rcases lt_trichotomy q 0 with hq | rfl | hq
  · rw [nearest, nearest, if_pos (neg_pos.mpr hq).le, if_neg hq.not_ge, hinvolutive]
  · simp [nearest, neg]
  · rw [nearest, nearest, if_neg (neg_neg_of_pos hq).not_ge, if_pos hq.le, InvolutiveNeg.neg_neg]

/-- **Rounding keeps order on the whole line.** -/
theorem nearest_mono (h : q ≤ r) : (nearest q).le (nearest r) := by
  have hzero {s : Rat} (hs : 0 ≤ s) : (point 0).le (rounded s) :=
    point_le_rounded isRepresentable_zero le_rfl hs
  rcases lt_or_ge q 0 with hq | hq
  · rw [nearest, if_neg hq.not_ge]
    rcases lt_or_ge r 0 with hr | hr
    · have hmagnitude : -r ≤ -q := by linarith
      rw [nearest, if_neg hr.not_ge]
      exact neg_le_neg (rounded_mono (neg_pos.mpr hr).le hmagnitude)
    · rw [nearest_of_nonneg hr]
      refine le_trans (y := point 0) ?_ (hzero hr)
      rw [← neg_zero]
      exact neg_le_neg (hzero (neg_pos.mpr hq).le)
  · rw [nearest_of_nonneg hq, nearest_of_nonneg (hq.trans h)]
    exact rounded_mono hq h

/-- What is rounded to a point is rounded on its grid. -/
theorem roundSigned_eq_of_nearest (h : nearest q = point r) : roundSigned q = r := by
  have hrounded {s u : Rat} (hs : rounded s = point u) : roundOnGrid s = u := by
    rw [rounded] at hs
    split_ifs at hs
    exact point.inj hs
  rw [nearest] at h
  rw [roundSigned]
  split_ifs at h ⊢
  · exact hrounded h
  · cases hneg : rounded (-q) with
    | point u =>
      rw [hneg] at h
      rw [hrounded hneg]
      exact point.inj h
    | _ => simp [hneg, neg] at h

/-- **What is below a representable number is not rounded above it**, and so to a double. -/
theorem nearest_of_le (ht : IsRepresentable t) (hlimit : t < 2 ^ 1024) (ha : 0 ≤ a) (h : a ≤ t) :
    nearest a = point (roundOnGrid a) := by
  rw [nearest_of_nonneg ha, rounded, if_pos ((roundOnGrid_le_of_le ht ha h).trans_lt hlimit)]

/-- Between points of the line there are only points. -/
theorem exists_point_of_between {z : Extended} (hp : (point p).le z) (hq : z.le (point q)) :
    ∃ r, z = point r ∧ p ≤ r ∧ r ≤ q := by
  cases z with
  | point r => exact ⟨r, rfl, point_le_point.mp hp, point_le_point.mp hq⟩
  | _ => simp [le] at hp hq

end Extended

/-! ## Products and quotients -/

/-- A rational on the side of zero that a sign stands for, or zero. -/
def HasSign (negative : Bool) (a : Rat) : Prop :=
  if negative then a ≤ 0 else 0 ≤ a

theorem HasSign.mul {s s' : Bool} (ha : HasSign s a) (hb : HasSign s' b) :
    HasSign (s != s') (a * b) := by
  cases s with
  | false => cases s' with
    | false => exact mul_nonneg (a := a) ha hb
    | true => exact mul_nonpos_of_nonneg_of_nonpos (a := a) ha hb
  | true => cases s' with
    | false => exact mul_nonpos_of_nonpos_of_nonneg (a := a) ha hb
    | true => exact mul_nonneg_of_nonpos_of_nonpos (a := a) ha hb

theorem HasSign.inv {s : Bool} (ha : HasSign s a) : HasSign s a⁻¹ := by
  cases s with
  | false => exact inv_nonneg.mpr ha
  | true => exact inv_nonpos.mpr ha

namespace Binary64

variable {x y : Binary64} {negative : Bool}

theorem extended?_ofRat_eq (q : Rat) : (ofRat q).extended? = some (.nearest q) := by
  rw [Extended.nearest]
  split_ifs with hq
  · exact extended?_ofRat hq
  · exact extended?_ofRat_of_neg (not_le.mp hq)

/-- A double is rounded to itself. -/
theorem nearest_of_extended? (hx : x.extended? = some (.point p)) :
    Extended.nearest p = .point p := by
  have hround := extended?_ofRat_of_extended? hx
  rw [extended?_ofRat_eq] at hround
  exact Option.some.inj hround

/-- A double between a rational and what it is rounded to is what it is rounded to. -/
theorem eq_of_between {u : Extended} (hx : x.extended? = some u)
    (hq : Extended.nearest q = .point p)
    (h : (Extended.point p).le u ∧ u.le (.point q) ∨ (Extended.point q).le u ∧ u.le (.point p)) :
    u = .point p := by
  obtain ⟨hpu, huq⟩ | ⟨hqu, hup⟩ := h
  · obtain ⟨r, rfl, hpr, hrq⟩ := Extended.exists_point_of_between hpu huq
    have hround := Extended.nearest_mono hrq
    rw [nearest_of_extended? hx, hq] at hround
    rw [hpr.antisymm (Extended.point_le_point.mp hround)]
  · obtain ⟨r, rfl, hqr, hrp⟩ := Extended.exists_point_of_between hqu hup
    have hround := Extended.nearest_mono hqr
    rw [nearest_of_extended? hx, hq] at hround
    rw [hrp.antisymm (Extended.point_le_point.mp hround)]

/-- The magnitude of a finite double, on either side of zero, has fifty-three bits. -/
theorem isRepresentable_abs (hx : x.extended? = some (.point p)) : IsRepresentable |p| := by
  rcases le_total 0 p with hp | hp
  · rw [abs_of_nonneg hp]
    exact isRepresentable_of_extended? hx hp
  · rw [abs_of_nonpos hp]
    refine isRepresentable_of_extended? (x := x.neg) ?_ (neg_nonneg.mpr hp)
    rw [extended?_neg, hx]
    rfl

theorem hasSign_toRat (hx : x.isFinite) : HasSign x.isNegative x.toRat := by
  cases x with
  | finite s m e h =>
    have hmagnitude : 0 ≤ m * (2 : Rat) ^ e := mul_nonneg m.cast_nonneg (two_zpow_pos e).le
    cases s with
    | false => exact hmagnitude
    | true => exact neg_nonpos.mpr hmagnitude
  | _ => simp [isFinite] at hx

/-- **A magnitude with the sign of a rational is that rational, rounded.** -/
theorem extended?_ofMagnitude_abs (ha : HasSign negative a) :
    (ofMagnitude negative a.abs).extended? = some (.nearest a) := by
  cases negative with
  | false =>
    have ha : 0 ≤ a := ha
    rw [Rat.abs_of_nonneg ha, extended?_ofMagnitude ha, Extended.nearest_of_nonneg ha]
  | true =>
    have ha : a ≤ 0 := ha
    have hpos : 0 ≤ -a := neg_nonneg.mpr ha
    rw [Rat.abs_of_nonpos ha, ← Bool.not_false, ← neg_ofMagnitude, extended?_neg,
      extended?_ofMagnitude hpos, ← Extended.nearest_of_nonneg hpos, Option.map_some,
      ← Extended.nearest_neg, InvolutiveNeg.neg_neg]

/-- **A product of points is their exact product, rounded.** -/
theorem extended?_mul (hx : x.extended? = some (.point p)) (hy : y.extended? = some (.point q)) :
    (x.mul y).extended? = some (.nearest (p * q)) := by
  obtain ⟨hxfinite, rfl⟩ := extended?_eq_point.mp hx
  obtain ⟨hyfinite, rfl⟩ := extended?_eq_point.mp hy
  rw [← extended?_ofMagnitude_abs ((hasSign_toRat hxfinite).mul (hasSign_toRat hyfinite))]
  cases x with
  | finite => cases y with
    | finite => rfl
    | _ => simp [isFinite] at hyfinite
  | _ => simp [isFinite] at hxfinite

/-- **A quotient of points is their exact quotient, rounded.** -/
theorem extended?_div (hx : x.extended? = some (.point p)) (hy : y.extended? = some (.point q))
    (hq : q ≠ 0) : (x.div y).extended? = some (.nearest (p / q)) := by
  have hnonzero : y.isZero = false := by
    rw [Bool.eq_false_iff]
    intro hzero
    exact hq (Extended.point.inj (Option.some.inj (hy.symm.trans (isZero_iff.mp hzero))))
  obtain ⟨hxfinite, rfl⟩ := extended?_eq_point.mp hx
  obtain ⟨hyfinite, rfl⟩ := extended?_eq_point.mp hy
  rw [div_eq_mul_inv,
    ← extended?_ofMagnitude_abs ((hasSign_toRat hxfinite).mul (hasSign_toRat hyfinite).inv),
    ← div_eq_mul_inv]
  cases x with
  | finite => cases y with
    | finite => simp only [div, hnonzero, Bool.false_eq_true, if_false]
    | _ => simp [isFinite] at hyfinite
  | _ => simp [isFinite] at hxfinite

/-- A finite double is read down to an integer. -/
theorem floor?_of_extended? (hx : x.extended? = some (.point p)) : x.floor? = .ok ⌊p⌋ := by
  obtain ⟨hfinite, rfl⟩ := extended?_eq_point.mp hx
  cases x with
  | finite => rfl
  | _ => simp [isFinite] at hfinite

end Binary64

end MigrationPlan
