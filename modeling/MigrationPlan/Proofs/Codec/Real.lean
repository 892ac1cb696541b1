import MigrationPlan.Proofs.Codec.Gray
import MigrationPlan.Proofs.Codec.Natural
import MigrationPlan.Proofs.Codec.Steps

/-!
# Proofs/Codec/Real — between bounds whose width is a double, nothing overflows

There the codec computes what rounded rational arithmetic does: a value in the interval is written
as the word of its nearest index, and any other double is out of range (**`encodeReal_eq`**); a word
is read as the value of its index (**`exists_decodeReal`**).  On numbers the codec on values as
given is this codec: `encodeRealGiven_number`, `decodeRealGiven_flags`.
-/

namespace MigrationPlan

/-! ## Arithmetic of doubles, as numbers -/

namespace Number

variable {x y z : Binary64} {i : Int}

theorem real_sub_real : (real x).sub (real y) = .ok (real (x.sub y)) := rfl

theorem real_add_real : (real x).add (real y) = .ok (real (x.add y)) := rfl

theorem real_mul_whole (h : Binary64.ofInt? i = .ok z) :
    (real x).mul (whole i) = .ok (real (x.mul z)) := by
  simp only [mul, combine, whole?, toReal?, h, ok_bind]

theorem real_div_real (h : y.isZero = false) : (real x).div (real y) = .ok (real (x.div y)) := by
  simp only [div, whole?, toReal?, h, ok_bind, Bool.false_eq_true, if_false]

end Number

namespace Codec

variable {lower upper x : Binary64} {a : Rat} {n k : Nat} {gray : Bool} {bits : Bits}

/-! ## Intervals -/

/-- Finite bounds in order. -/
structure IsInterval (lower upper : Binary64) : Prop where
  lower_isFinite : lower.isFinite
  upper_isFinite : upper.isFinite
  lt : lower.toRat < upper.toRat

/-- Finite bounds in order whose width is a double. -/
structure IsMeasured (lower upper : Binary64) : Prop extends IsInterval lower upper where
  width_isFinite : (upper.sub lower).isFinite

namespace IsInterval

variable (h : IsInterval lower upper)
include h

theorem extended?_lower : lower.extended? = some (.point lower.toRat) :=
  Binary64.extended?_eq_point.mpr ⟨h.lower_isFinite, rfl⟩

theorem extended?_upper : upper.extended? = some (.point upper.toRat) :=
  Binary64.extended?_eq_point.mpr ⟨h.upper_isFinite, rfl⟩

theorem checkBounds_eq_ok : checkBounds (.real lower) (.real upper) = .ok () := by
  refine checkBounds_real_eq_ok.mpr ⟨h.lower_isFinite, h.upper_isFinite, ?_⟩
  rw [Binary64.le_of_extended? h.extended?_upper h.extended?_lower, Bool.eq_false_iff]
  exact mt Extended.point_le_point.mp h.lt.not_ge

/-- What lies between finite bounds is finite. -/
theorem le_and_le_iff :
    lower.le x ∧ x.le upper ↔ x.isFinite ∧ lower.toRat ≤ x.toRat ∧ x.toRat ≤ upper.toRat := by
  constructor
  · rintro ⟨hlower, hupper⟩
    obtain ⟨_, z, hp, hz, hpz⟩ := Binary64.exists_extended?_of_le hlower
    obtain rfl := Option.some.inj (hp.symm.trans h.extended?_lower)
    rw [Binary64.le_of_extended? hz h.extended?_upper] at hupper
    obtain ⟨r, rfl, hpr, hrq⟩ := Extended.exists_point_of_between hpz hupper
    obtain ⟨hfinite, rfl⟩ := Binary64.extended?_eq_point.mp hz
    exact ⟨hfinite, hpr, hrq⟩
  · rintro ⟨hfinite, hlower, hupper⟩
    have hx := Binary64.extended?_eq_point.mpr ⟨hfinite, rfl⟩
    rw [Binary64.le_of_extended? h.extended?_lower hx,
      Binary64.le_of_extended? hx h.extended?_upper]
    exact ⟨Extended.point_le_point.mpr hlower, Extended.point_le_point.mpr hupper⟩

/-- Bounds that differ have a width that is not rounded away. -/
theorem width_pos : 0 < roundOnGrid (upper.toRat - lower.toRat) := by
  have hunit : IsRepresentable ((2 : Rat) ^ (-1074 : Int)) := isRepresentable_two_zpow le_rfl
  have hleast := Binary64.le_sub_of_lt h.extended?_upper h.extended?_lower h.lt
  exact (two_zpow_pos (-1074)).trans_le (le_roundOnGrid hunit (two_zpow_pos _).le hleast)

end IsInterval

namespace IsMeasured

variable (h : IsMeasured lower upper)
include h

theorem width_lt : roundOnGrid (upper.toRat - lower.toRat) < 2 ^ 1024 := by
  have hwidth := Binary64.extended?_sub h.extended?_upper h.extended?_lower
  have hpoint := Binary64.extended?_eq_point.mpr ⟨h.width_isFinite, rfl⟩
  rw [hpoint, Binary64.extended?_ofRat (sub_pos.mpr h.lt).le, Extended.rounded] at hwidth
  by_contra hlarge
  rw [if_neg hlarge] at hwidth
  cases hwidth

/-- The difference of a value in the interval and the lower bound is a double. -/
theorem extended?_offset (hx : x.extended? = some (.point a)) (hlower : lower.toRat ≤ a)
    (hupper : a ≤ upper.toRat) :
    (x.sub lower).extended? = some (.point (roundOnGrid (a - lower.toRat))) := by
  have hle := roundOnGrid_mono (sub_nonneg.mpr hlower) (sub_le_sub_right hupper lower.toRat)
  rw [Binary64.extended?_sub hx h.extended?_lower]
  exact Binary64.extended?_ofRat_of_lt (sub_nonneg.mpr hlower) (hle.trans_lt h.width_lt)

theorem extended?_width :
    (upper.sub lower).extended? = some (.point (roundOnGrid (upper.toRat - lower.toRat))) :=
  h.extended?_offset h.extended?_upper h.lt.le le_rfl

end IsMeasured

/-- Three tenths below zero to one above it. -/
theorem isMeasured_tenths : IsMeasured (.ofRat (-3 / 10)) (.ofRat (1 / 10)) where
  lower_isFinite := by decide +kernel
  upper_isFinite := by decide +kernel
  lt := by decide +kernel
  width_isFinite := by decide +kernel

/-! ## The index of a value -/

theorem two_pow_lt (h : n ≤ 64) : (2 : Rat) ^ (n : Int) < 2 ^ 1024 := by
  rw [zpow_natCast]
  exact pow_lt_pow_right₀ one_lt_two (by omega)

/-- The largest index as a double. -/
theorem exists_ofInt?_maxIndex (hn : IsWidth n) :
    ∃ z, Binary64.ofInt? (maxIndex n) = .ok z
      ∧ z.extended? = some (.point (roundOnGrid (maxIndex n))) := by
  have hlt := two_pow_lt (n := n) (by have := isWidth_iff.mp hn; omega)
  have hround : (Binary64.ofInt (maxIndex n)).extended?
      = some (.point (roundOnGrid (maxIndex n))) := by
    rw [Binary64.ofInt, Binary64.extended?_ofRat_eq, Int.cast_natCast,
      Extended.nearest_of_le (isRepresentable_two_pow n) hlt (Nat.cast_nonneg _) (maxIndex_le n)]
  exact ⟨_, if_pos (Binary64.extended?_eq_point.mp hround).1, hround⟩

theorem extended?_half : (Binary64.ofRat (1 / 2)).extended? = some (.point (1 / 2)) := by
  rw [Binary64.extended?_ofRat_eq, Extended.nearest_of_nonneg (by norm_num),
    Extended.rounded_of_isRepresentable isRepresentable_half]
  exact (by norm_num : (1 / 2 : Rat) < 1).trans (one_lt_pow₀ one_lt_two (by norm_num))

/-- The index of a double between doubles is computed in doubles. -/
theorem indexOf_real_real {z : Binary64} (hz : Binary64.ofInt? (maxIndex n) = .ok z)
    (hwidth : (upper.sub lower).isZero = false) :
    indexOf (.real x) (.real lower) (.real upper) n =
      ((((x.sub lower).div (upper.sub lower)).mul z).add (.ofRat (1 / 2))).floor? >>= fun i =>
        .ok (min i (maxIndex n)) := by
  simp only [indexOf, Number.real_sub_real, Number.real_div_real hwidth, Number.real_mul_whole hz,
    Number.real_add_real, Number.floor?, ok_bind]

/-- **Nothing overflows on the way to the index of a value.** -/
theorem indexOf_real (h : IsMeasured lower upper) (hn : IsWidth n)
    (hx : x.extended? = some (.point a)) (hlower : lower.toRat ≤ a) (hupper : a ≤ upper.toRat) :
    indexOf (.real x) (.real lower) (.real upper) n
      = .ok (nearestIndex n lower.toRat upper.toRat a : Nat) := by
  have hwidth := h.width_pos
  have hbits := isWidth_iff.mp hn
  obtain ⟨z, hz, hmax⟩ := exists_ofInt?_maxIndex hn
  have hscale : ((x.sub lower).div (upper.sub lower)).extended?
      = some (.point (partBelow lower.toRat upper.toRat a)) := by
    rw [Binary64.extended?_div (h.extended?_offset hx hlower hupper) h.extended?_width hwidth.ne',
      Extended.nearest_of_le (isRepresentable_two_pow 0) (two_pow_lt (by omega))
        (offset_div_nonneg hwidth hlower) (offset_div_le_one hwidth hlower hupper)]
    rfl
  have hsteps : (((x.sub lower).div (upper.sub lower)).mul z).extended?
      = some (.point (stepsBelow n lower.toRat upper.toRat a)) := by
    rw [Binary64.extended?_mul hscale hmax,
      Extended.nearest_of_le (isRepresentable_two_pow n) (two_pow_lt (by omega))
        (partBelow_mul_nonneg hwidth hlower) (partBelow_mul_le hwidth hlower hupper)]
    rfl
  have hshifted : ((((x.sub lower).div (upper.sub lower)).mul z).add (.ofRat (1 / 2))).extended?
      = some (.point (roundOnGrid (stepsBelow n lower.toRat upper.toRat a + 1 / 2))) := by
    rw [Binary64.extended?_add hsteps extended?_half, Binary64.extended?_ofRat_eq,
      Extended.nearest_of_le (isRepresentable_two_pow (n + 1)) (two_pow_lt (by omega))
        (stepsBelow_add_half_nonneg hwidth hlower) (stepsBelow_add_half_le hwidth hlower hupper)]
  have hnonzero : (upper.sub lower).isZero = false := by
    rw [Bool.eq_false_iff, ne_eq, Binary64.isZero_iff, h.extended?_width]
    simpa using hwidth.ne'
  rw [indexOf_real_real hz hnonzero, Binary64.floor?_of_extended? hshifted, ok_bind,
    cast_nearestIndex hwidth n hlower]

/-! ## The value of an index -/

/-- A number that is not below the lower bound is only cut off at the upper one. -/
theorem exists_clamp {y : Binary64} {p q : Rat} {z : Extended} (hy : y.extended? = some z)
    (hlower : lower.extended? = some (.point p)) (hupper : upper.extended? = some (.point q))
    (h : (Extended.point p).le z) :
    ∃ v : Binary64, ((Number.real y).max (.real lower)).min (.real upper) = .real v
      ∧ v.extended? = some (if z.le (.point q) then z else .point q) := by
  have hmax : (Number.real y).max (.real lower) = .real y := by
    have hnot : ¬(Number.real y).lt (.real lower) := fun hlt =>
      (Number.lt_iff_of_extended? (x := .real y) (y := .real lower) hy hlower).mp hlt h
    rw [Number.max, if_neg hnot]
  have hlt := Number.lt_iff_of_extended? (x := .real upper) (y := .real y) hupper hy
  rw [hmax, Number.min]
  by_cases hz : z.le (.point q)
  · rw [if_neg (fun hbelow => hlt.mp hbelow hz), if_pos hz]
    exact ⟨y, rfl, hy⟩
  · rw [if_pos (hlt.mpr hz), if_neg hz]
    exact ⟨upper, rfl, hupper⟩

/-- Cutting off what is rounded is rounding what is cut off, at a bound that is a double. -/
theorem ite_nearest_eq {p q : Rat} (hp : (Extended.point p).le (.nearest a))
    (hq : Extended.nearest q = .point q) :
    (if (Extended.nearest a).le (.point q) then .nearest a else .point q)
      = Extended.point (roundSigned (min a q)) := by
  rcases le_or_gt a q with hle | hgt
  · have hbelow : (Extended.nearest a).le (.point q) := hq ▸ Extended.nearest_mono hle
    obtain ⟨r, hr, -, -⟩ := Extended.exists_point_of_between hp hbelow
    rw [if_pos hbelow, min_eq_left hle, hr, Extended.roundSigned_eq_of_nearest hr]
  · have habove : (Extended.point q).le (.nearest a) := hq ▸ Extended.nearest_mono hgt.le
    rw [min_eq_right hgt.le, Extended.roundSigned_eq_of_nearest hq]
    split_ifs with hbelow
    · obtain ⟨r, hr, hqr, hrq⟩ := Extended.exists_point_of_between habove hbelow
      rw [hr, hrq.antisymm hqr]
    · rfl

/-- **What overflows on the way to the value of an index is cut off.** -/
theorem exists_valueAt (h : IsMeasured lower upper) (hn : IsWidth n) (hk : k ≤ maxIndex n) :
    ∃ y : Binary64, valueAt k (.real lower) (.real upper) n = .ok (.real y)
      ∧ y.extended? = some (.point (stepValue n lower.toRat upper.toRat k)) := by
  by_cases hmax : k = maxIndex n
  · refine ⟨upper, by rw [valueAt, if_pos hmax], ?_⟩
    rw [hmax, stepValue_maxIndex, h.extended?_upper]
  have hfraction : (fraction k n).extended? = some (.point (share n k)) := by
    rw [fraction, Int.cast_natCast, Int.cast_natCast, Binary64.extended?_ofRat_eq,
      Extended.nearest_of_le (isRepresentable_two_pow 0) (two_pow_lt (by omega))
        (div_maxIndex_nonneg n k) (div_maxIndex_le_one hk)]
    rfl
  have hwidth := roundOnGrid_nonneg (sub_nonneg.mpr h.lt.le)
  have hoffset : ((upper.sub lower).mul (fraction k n)).extended?
      = some (.point (stepOffset n lower.toRat upper.toRat k)) := by
    rw [Binary64.extended?_mul h.extended?_width hfraction,
      Extended.nearest_of_le (isRepresentable_roundOnGrid (sub_nonneg.mpr h.lt.le)) h.width_lt
        (mul_nonneg hwidth (share_nonneg n k)) (mul_le_of_le_one_right hwidth (share_le_one hk))]
    rfl
  have hvalue : (unclampedValue k lower upper n).extended?
      = some (.nearest (lower.toRat + stepOffset n lower.toRat upper.toRat k)) := by
    rw [unclampedValue, Binary64.extended?_add h.extended?_lower hoffset,
      Binary64.extended?_ofRat_eq]
  have habove : (Extended.point lower.toRat).le
      (.nearest (lower.toRat + stepOffset n lower.toRat upper.toRat k)) := by
    rw [← Binary64.nearest_of_extended? h.extended?_lower]
    exact Extended.nearest_mono (le_add_of_nonneg_right (stepOffset_nonneg h.lt.le))
  obtain ⟨y, hclamp, hy⟩ := exists_clamp hvalue h.extended?_lower h.extended?_upper habove
  refine ⟨y, (valueAt_real_eq_ok hmax).mpr ⟨?_, ?_, hclamp⟩, ?_⟩
  · exact_mod_cast (maxIndex_pos hn).ne'
  · exact (Binary64.extended?_eq_point.mp hfraction).1
  · rw [hy, ite_nearest_eq habove (Binary64.nearest_of_extended? h.extended?_upper), stepValue,
      if_neg hmax]

/-! ## Words -/

/-- The word of an index, plain or Gray coded. -/
def wordOf (n k : Nat) (gray : Bool) : Bits :=
  if gray then toGray (bitsOf n k) else bitsOf n k

@[simp] theorem length_wordOf (n k : Nat) (gray : Bool) : (wordOf n k gray).length = n := by
  cases gray <;> simp [wordOf]

/-- The bits of a word that are read as a number. -/
theorem plainBits_wordOf (n k : Nat) (gray : Bool) :
    plainBits (wordOf n k gray) gray = bitsOf n k := by
  cases gray <;> simp [plainBits, wordOf, fromGray_toGray]

theorem bitsValue_plainBits_wordOf (hk : k ≤ maxIndex n) :
    bitsValue (plainBits (wordOf n k gray) gray) = k := by
  have hcount : maxIndex n < 2 ^ n := Nat.sub_lt (Nat.two_pow_pos n) Nat.one_pos
  rw [plainBits_wordOf, bitsValue_bitsOf (hk.trans_lt hcount)]

theorem decodeBinary_plainBits {i : Nat} :
    decodeBinary (plainBits bits gray) = .ok i ↔
      IsWidth bits.length ∧ bitsValue (plainBits bits gray) = i := by
  rw [decodeBinary_eq_ok, length_plainBits]

/-- A word stands for no more than the largest index. -/
theorem bitsValue_plainBits_le (bits : Bits) (gray : Bool) :
    bitsValue (plainBits bits gray) ≤ maxIndex bits.length := by
  have hlt := bitsValue_lt (plainBits bits gray)
  rw [length_plainBits] at hlt
  exact Nat.le_sub_one_of_lt hlt

/-! ## Writing and reading -/

theorem checkWithin_real (x lower upper : Binary64) :
    checkWithin (.real x) (.real lower) (.real upper) =
      if lower.le x ∧ x.le upper then .ok ()
      else .error (.outsideBounds (.number (.real x)) (.number (.real lower))
        (.number (.real upper))) := by
  have hlower : (Number.real lower).le (.real x) = lower.le x := rfl
  have hupper : (Number.real x).le (.real upper) = x.le upper := rfl
  simp only [checkWithin, hlower, hupper, Bool.and_eq_true]

/-- What is written is the word of the index of a value between the bounds. -/
theorem exists_indexOf_of_encodeReal
    (h : encodeReal (.real x) (.real lower) (.real upper) n gray = .ok bits) :
    (lower.le x ∧ x.le upper) ∧ ∃ i : Nat,
      indexOf (.real x) (.real lower) (.real upper) n = .ok (i : Int)
        ∧ i ≤ maxIndex n ∧ wordOf n i gray = bits := by
  simp only [encodeReal, bind_eq_ok, Except.ok.injEq, checkWithin_real] at h
  obtain ⟨_, -, _, -, _, hwithin, i, hi, plain, hplain, rfl⟩ := h
  obtain ⟨hnonneg, -, hlt, rfl⟩ := encodeNat_eq_ok.mp hplain
  obtain ⟨k, rfl⟩ := Int.eq_ofNat_of_zero_le hnonneg
  refine ⟨?_, k, hi, Nat.le_sub_one_of_lt (Int.ofNat_lt.mp hlt), rfl⟩
  by_contra hnot
  rw [if_neg hnot] at hwithin
  cases hwithin

/-- **A double in the interval is written as the word of its nearest index; any other is out of
bounds.** -/
theorem encodeReal_eq (h : IsMeasured lower upper) (hn : IsWidth n) (x : Binary64) (gray : Bool) :
    encodeReal (.real x) (.real lower) (.real upper) n gray =
      if lower.le x ∧ x.le upper then
        .ok (wordOf n (nearestIndex n lower.toRat upper.toRat x.toRat) gray)
      else .error (.outsideBounds (.number (.real x)) (.number (.real lower))
        (.number (.real upper))) := by
  simp only [encodeReal, h.checkBounds_eq_ok, checkWidth, if_pos hn, checkWithin_real, ok_bind]
  by_cases hwithin : lower.le x ∧ x.le upper
  · obtain ⟨hfinite, hle, hge⟩ := h.le_and_le_iff.mp hwithin
    have hx := Binary64.extended?_eq_point.mpr ⟨hfinite, rfl⟩
    have hlt : nearestIndex n lower.toRat upper.toRat x.toRat < codeCount n :=
      (nearestIndex_le _ _ _ _).trans_lt (Nat.sub_lt (Nat.two_pow_pos n) Nat.one_pos)
    have hword := encodeNat_eq_ok.mpr
      ⟨Int.natCast_nonneg (nearestIndex n lower.toRat upper.toRat x.toRat), hn,
        Int.ofNat_lt.mpr hlt, rfl⟩
    simp only [if_pos hwithin, ok_bind, Int.toNat_natCast, indexOf_real h hn hx hle hge, hword]
    cases gray <;> rfl
  · simp only [if_neg hwithin, error_bind]

/-- **A word is read as the value of its index.** -/
theorem exists_decodeReal (h : IsMeasured lower upper) (hn : IsWidth bits.length) (gray : Bool) :
    ∃ y : Binary64, decodeReal bits (.real lower) (.real upper) gray = .ok (.real y)
      ∧ y.extended? = some (.point (stepValue bits.length lower.toRat upper.toRat
        (bitsValue (plainBits bits gray)))) := by
  obtain ⟨y, hy, hvalue⟩ := exists_valueAt h hn (bitsValue_plainBits_le bits gray)
  exact ⟨y, decodeReal_eq_ok.mpr ⟨h.checkBounds_eq_ok, hn, hy⟩, hvalue⟩

/-! ## Values as given -/

/-- Bounds that are numbers are checked as numbers. -/
theorem checkGivenBounds_number (l u : Number) :
    checkGivenBounds (.number l) (.number u) = (checkBounds l u).map fun _ => (l, u) := by
  have hnumber (y : Number) : (Datum.number y).number? = .ok y := rfl
  have hdisplay : (Datum.number u).display = u.text := rfl
  simp only [checkGivenBounds, checkBounds, hnumber, hdisplay, ok_bind]
  rcases l.isFinite? with e | b
  · rfl
  · cases b with
    | false => rfl
    | true =>
      simp only [ok_bind, if_true]
      rcases u.isFinite? with e | b
      · rfl
      · simp only [ok_bind]
        split_ifs <;> rfl

/-- **On numbers, reals are written as given as they are written as numbers.** -/
theorem encodeRealGiven_number (value l u : Number) (m : Int) (gray : Bool) :
    encodeRealGiven (.number value) (.number l) (.number u) (.whole m) gray
      = encodeReal value l u m gray := by
  have hnumber : (Datum.number value).number? = .ok value := rfl
  simp only [encodeRealGiven, checkGivenBounds_number, checkGivenWidth_whole, hnumber]
  rcases hbounds : checkBounds l u with e | _
  · simp [encodeReal, hbounds, Except.map]
  rcases hwidth : checkWidth m with e | _
  · simp [encodeReal, hbounds, hwidth, Except.map]
  rcases hwithin : checkWithin value l u with e | _
  · simp [encodeReal, hbounds, hwidth, hwithin, Except.map]
  · simp [hwithin, Except.map, useWidth]

theorem vector?_flags (bits : Bits) : vector? (.flags bits) = .ok bits := by
  simp [vector?, Datum.bits?_flags]

/-- **A list of truth values is read as given as it is read as bits.** -/
theorem decodeRealGiven_flags (bits : Bits) (l u : Number) (gray : Bool) :
    decodeRealGiven (.flags bits) (.number l) (.number u) gray = decodeReal bits l u gray := by
  simp only [decodeRealGiven, checkGivenBounds_number, vector?_flags]
  rcases hbounds : checkBounds l u with e | _
  · simp [decodeReal, hbounds, Except.map]
  · rfl

end Codec

end MigrationPlan
