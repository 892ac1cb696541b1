import MigrationPlan.Proofs.Codec.Binary
import MigrationPlan.Proofs.Numeric.Clamp
import MigrationPlan.Proofs.Numeric.Whole

/-!
# Proofs/Codec/Quantize — what a bit vector is read as

A code word is read as a number between the bounds (`mem_or_eq_nan_of_decodeReal`), with one
exception.  The word without a set bit stands for the lower bound, which is computed as the lower
bound and nothing of the width.  Where the bounds are finite doubles whose width is no longer one,
that is a product of an infinity and a zero, and the word is read as `nan`:
**`decodeReal_eq_nan_iff`**.
-/

namespace MigrationPlan.Codec

variable {lower upper : Binary64} {bits : Bits} {gray : Bool} {x : Number} {n index : Nat}

/-- The bits that are read as a number. -/
def plainBits (bits : Bits) (gray : Bool) : Bits :=
  if gray then fromGray bits else bits

@[simp] theorem length_plainBits (bits : Bits) (gray : Bool) :
    (plainBits bits gray).length = bits.length := by
  cases gray <;> simp [plainBits]

theorem checkBounds_real_eq_ok :
    checkBounds (.real lower) (.real upper) = .ok () ↔
      lower.isFinite ∧ upper.isFinite ∧ upper.le lower = false := by
  have hfinite (y : Binary64) : (Number.real y).isFinite? = .ok y.isFinite := rfl
  have hle : (Number.real upper).le (.real lower) = upper.le lower := rfl
  simp only [checkBounds, hfinite, ok_bind, hle]
  cases lower.isFinite <;> cases upper.isFinite <;> cases upper.le lower <;> simp

/-- Finite bounds that are in order as doubles are so as rationals. -/
theorem bounds_of_checkBounds (h : checkBounds (.real lower) (.real upper) = .ok ()) :
    ∃ p q, lower.extended? = some (.point p) ∧ upper.extended? = some (.point q) ∧ p < q := by
  obtain ⟨hlower, hupper, hle⟩ := checkBounds_real_eq_ok.mp h
  have hp := Binary64.extended?_eq_point.mpr ⟨hlower, rfl⟩
  have hq := Binary64.extended?_eq_point.mpr ⟨hupper, rfl⟩
  refine ⟨_, _, hp, hq, ?_⟩
  rw [Binary64.le_of_extended? hq hp] at hle
  exact not_le.mp (mt Extended.point_le_point.mpr (by simp [hle]))

/-- The part of the width that an index stands for. -/
def fraction (index n : Nat) : Binary64 :=
  .ofRat (((index : Int) : Rat) / ((maxIndex n : Int) : Rat))

/-- The value of an index other than the largest, before it is moved into the bounds. -/
def unclampedValue (index : Nat) (lower upper : Binary64) (n : Nat) : Binary64 :=
  lower.add ((upper.sub lower).mul (fraction index n))

theorem whole_div_whole_eq_ok {i j : Int} :
    (Number.whole i).div (.whole j) = .ok x ↔
      j ≠ 0 ∧ (Binary64.ofRat (i / j)).isFinite ∧ .real (.ofRat (i / j)) = x := by
  simp only [Number.div, Number.whole?_whole, refuse_eq_ok, require_eq_ok, Except.ok.injEq, ne_eq]

theorem valueAt_real_eq_ok (h : index ≠ maxIndex n) :
    valueAt index (.real lower) (.real upper) n = .ok x ↔
      (maxIndex n : Int) ≠ 0 ∧ (fraction index n).isFinite
        ∧ ((Number.real (unclampedValue index lower upper n)).max (.real lower)).min (.real upper)
          = x := by
  simp only [valueAt, if_neg h, bind_eq_ok, whole_div_whole_eq_ok]
  constructor
  · rintro ⟨_, hwidth, _, ⟨hmax, hfinite, rfl⟩, _, hoffset, _, hvalue, hx⟩
    obtain rfl := Except.ok.inj hwidth
    obtain rfl := Except.ok.inj hoffset
    obtain rfl := Except.ok.inj hvalue
    exact ⟨hmax, hfinite, Except.ok.inj hx⟩
  · rintro ⟨hmax, hfinite, rfl⟩
    exact ⟨_, rfl, _, ⟨hmax, hfinite, rfl⟩, _, rfl, _, rfl, rfl⟩

/-- What is computed for an index is a number unless it is nothing of an infinite width. -/
theorem unclampedValue_eq_nan_iff {p q : Rat} (hlower : lower.extended? = some (.point p))
    (hupper : upper.extended? = some (.point q)) (h : p < q)
    (hfinite : (fraction index n).isFinite) :
    unclampedValue index lower upper n = .nan ↔
      upper.sub lower = .infinity false ∧ (fraction index n).isZero := by
  have hwidth := Binary64.sub_isFinite_or hupper hlower h.le
  rw [unclampedValue, Binary64.add_eq_nan_iff (Binary64.extended?_eq_point.mp hlower).1,
    Binary64.mul_eq_nan_iff hfinite]
  rcases hwidth with hwidth | hwidth
  · cases hsub : upper.sub lower <;> simp_all [Binary64.isFinite]
  · simp [hwidth]

/-- Between one and sixty-three bits there is a largest index. -/
theorem maxIndex_bounds (h : IsWidth n) : 1 ≤ maxIndex n ∧ maxIndex n ≤ 2 ^ 63 := by
  have hcount : maxIndex n = 2 ^ n - 1 := rfl
  have hlower : 2 ^ 1 ≤ 2 ^ n := Nat.pow_le_pow_right two_pos (by have := h.1; omega)
  have hupper : 2 ^ n ≤ 2 ^ 63 := Nat.pow_le_pow_right two_pos (by have := h.2; omega)
  omega

/-- Only the least index stands for nothing of the width: any other stands for at least `2 ^ -63` of
it, which is not rounded away. -/
theorem isZero_fraction_iff (h : IsWidth n) (index : Nat) :
    (fraction index n).isZero ↔ index = 0 := by
  constructor
  · intro hzero
    by_contra hpos
    obtain ⟨hone, hmax⟩ := maxIndex_bounds h
    have hlarge : (0 : Rat) < maxIndex n := Nat.cast_pos.mpr hone
    have hpart : (2 : Rat) ^ (-63 : Int) ≤ (index : Rat) / maxIndex n := by
      rw [le_div_iff₀ hlarge]
      calc (2 : Rat) ^ (-63 : Int) * maxIndex n
          ≤ (2 : Rat) ^ (-63 : Int) * (2 : Rat) ^ (63 : Int) :=
            mul_le_mul_of_nonneg_left (by exact_mod_cast hmax) (two_zpow_pos _).le
        _ = 1 := two_zpow_eq (neg_add_cancel 63)
        _ ≤ index := Nat.one_le_cast.mpr (Nat.one_le_iff_ne_zero.mpr hpos)
    have hunit : IsRepresentable ((2 : Rat) ^ (-63 : Int)) :=
      ⟨1, -63, by norm_num, by norm_num, by rw [Nat.cast_one, one_mul]⟩
    have hround := Extended.point_le_rounded hunit (two_zpow_pos _).le hpart
    rw [Binary64.isZero_iff, fraction, Int.cast_natCast, Int.cast_natCast,
      Binary64.extended?_ofRat ((two_zpow_pos _).le.trans hpart), Option.some.injEq] at hzero
    rw [hzero, Extended.point_le_point] at hround
    exact (two_zpow_pos _).not_ge hround
  · rintro rfl
    rw [fraction, Nat.cast_zero, Int.cast_zero, zero_div, Binary64.ofRat_zero]
    rfl

/-- **The value of an index lies between the bounds**, unless it is nothing of an infinite width. -/
theorem mem_or_eq_nan_of_valueAt {p q : Rat} (hlower : lower.extended? = some (.point p))
    (hupper : upper.extended? = some (.point q)) (hlt : p < q) (hwidth : IsWidth n)
    (h : valueAt index (.real lower) (.real upper) n = .ok x) :
    (Number.real lower).le x ∧ x.le (.real upper)
      ∨ x = .real .nan ∧ upper.sub lower = .infinity false ∧ index = 0 := by
  have hl : (Number.real lower).extended? = some (.point p) := hlower
  have hu : (Number.real upper).extended? = some (.point q) := hupper
  have hle : (Extended.point p).le (.point q) := Extended.point_le_point.mpr hlt.le
  by_cases hindex : index = maxIndex n
  · rw [valueAt, if_pos hindex] at h
    obtain rfl := Except.ok.inj h
    exact .inl ⟨(Number.le_iff_of_extended? hl hu).mpr hle,
      (Number.le_iff_of_extended? hu hu).mpr (Extended.le_refl _)⟩
  obtain ⟨-, hfinite, rfl⟩ := (valueAt_real_eq_ok hindex).mp h
  rcases hunclamped : (unclampedValue index lower upper n).extended? with _ | z
  · have hnan := Binary64.extended?_eq_none.mp hunclamped
    obtain ⟨hinfinite, hzero⟩ := (unclampedValue_eq_nan_iff hlower hupper hlt hfinite).mp hnan
    have hindex := (isZero_fraction_iff hwidth index).mp hzero
    exact .inr ⟨by rw [hnan, Number.clamp_nan], hinfinite, hindex⟩
  · exact .inl (Number.clamp_mem (x := .real _) hunclamped hl hu hle)

/-- Nothing of an infinite width is no number. -/
theorem valueAt_zero_of_infinite {p q : Rat} (hlower : lower.extended? = some (.point p))
    (hupper : upper.extended? = some (.point q)) (hlt : p < q) (hwidth : IsWidth n)
    (hinfinite : upper.sub lower = .infinity false) :
    valueAt 0 (.real lower) (.real upper) n = .ok (.real .nan) := by
  have hmax := maxIndex_bounds hwidth
  have hzero := (isZero_fraction_iff hwidth 0).mpr rfl
  have hfinite := (Binary64.extended?_eq_point.mp (Binary64.isZero_iff.mp hzero)).1
  have hnan := (unclampedValue_eq_nan_iff hlower hupper hlt hfinite).mpr ⟨hinfinite, hzero⟩
  refine (valueAt_real_eq_ok (by omega)).mpr ⟨by omega, hfinite, ?_⟩
  rw [hnan, Number.clamp_nan]

/-! ## Reading -/

theorem decodeReal_eq_ok :
    decodeReal bits (.real lower) (.real upper) gray = .ok x ↔
      checkBounds (.real lower) (.real upper) = .ok () ∧ IsWidth bits.length
        ∧ valueAt (bitsValue (plainBits bits gray)) (.real lower) (.real upper) bits.length
          = .ok x := by
  rw [← length_plainBits bits gray]
  simp only [decodeReal, decodeBinary, checkWidth, bind_eq_ok, require_eq_ok, Except.ok.injEq,
    exists_const, and_true, plainBits]
  constructor
  · rintro ⟨_, hbounds, _, ⟨hwidth, rfl⟩, hx⟩
    exact ⟨hbounds, hwidth, hx⟩
  · rintro ⟨hbounds, hwidth, hx⟩
    exact ⟨(), hbounds, _, ⟨hwidth, rfl⟩, hx⟩

/-- The clear word alone stands for the least index, plain or Gray coded. -/
theorem bitsValue_plainBits_eq_zero_iff (bits : Bits) (gray : Bool) :
    bitsValue (plainBits bits gray) = 0 ↔ ∀ b ∈ bits, b = false := by
  rw [bitsValue_eq_zero_iff]
  cases gray
  · exact Iff.rfl
  · exact forall_fromGray_eq_false_iff

/-- **What is read lies between the bounds**, unless a clear word meets an infinite width. -/
theorem mem_or_eq_nan_of_decodeReal
    (h : decodeReal bits (.real lower) (.real upper) gray = .ok x) :
    (Number.real lower).le x ∧ x.le (.real upper)
      ∨ x = .real .nan ∧ upper.sub lower = .infinity false ∧ ∀ b ∈ bits, b = false := by
  obtain ⟨hbounds, hwidth, hvalue⟩ := decodeReal_eq_ok.mp h
  obtain ⟨p, q, hp, hq, hlt⟩ := bounds_of_checkBounds hbounds
  rw [← bitsValue_plainBits_eq_zero_iff bits gray]
  exact mem_or_eq_nan_of_valueAt hp hq hlt hwidth hvalue

/-- **The one word that is read as no number**: the clear one, between finite bounds whose width is
no double. -/
theorem decodeReal_eq_nan_iff :
    decodeReal bits (.real lower) (.real upper) gray = .ok (.real .nan) ↔
      lower.isFinite ∧ upper.isFinite ∧ upper.sub lower = .infinity false ∧ IsWidth bits.length
        ∧ ∀ b ∈ bits, b = false := by
  constructor
  · intro h
    obtain ⟨hbounds, hwidth, -⟩ := decodeReal_eq_ok.mp h
    obtain ⟨hlower, hupper, -⟩ := checkBounds_real_eq_ok.mp hbounds
    rcases mem_or_eq_nan_of_decodeReal h with ⟨-, hmem⟩ | ⟨-, hinfinite, hclear⟩
    · exact absurd hmem nofun
    · exact ⟨hlower, hupper, hinfinite, hwidth, hclear⟩
  · rintro ⟨hlower, hupper, hinfinite, hwidth, hclear⟩
    have hp := Binary64.extended?_eq_point.mpr ⟨hlower, rfl⟩
    have hq := Binary64.extended?_eq_point.mpr ⟨hupper, rfl⟩
    have hlt := Binary64.lt_of_sub_eq_infinity hq hp hinfinite
    have hbelow : upper.le lower = false := by
      rw [Binary64.le_of_extended? hq hp]
      exact Bool.eq_false_iff.mpr (mt Extended.point_le_point.mp hlt.not_ge)
    refine decodeReal_eq_ok.mpr ⟨checkBounds_real_eq_ok.mpr ⟨hlower, hupper, hbelow⟩, hwidth, ?_⟩
    rw [(bitsValue_plainBits_eq_zero_iff bits gray).mpr hclear]
    exact valueAt_zero_of_infinite hp hq hlt hwidth hinfinite

end MigrationPlan.Codec
