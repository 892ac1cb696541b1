import MigrationPlan.Numeric.Conversion
import MigrationPlan.Proofs.Accepted
import MigrationPlan.Proofs.Numeric.Binary64
import Mathlib.Data.Rat.Cast.Order

/-!
# Proofs/Numeric/Whole — whole numbers compare as integers

Numbers are compared on the extended rational line.  Between whole numbers and truth values, that
is wherever `Number.whole?` has an answer, this is the comparison of integers, and nothing is
rounded.  A double without a fractional part stands where its integer part stands
(`extended?_of_toInt?`), so that a bound on the one is a bound on the other, and so does the double
that this integer is rounded to (`exists_toReal?_whole`).
-/

namespace MigrationPlan

namespace Number

variable {x y : Number} {i j : Int}

@[simp] theorem whole?_whole (i : Int) : (whole i).whole? = some i := rfl

/-- Truth values and whole numbers are the numbers that are whole. -/
theorem whole?_eq_some :
    x.whole? = some i ↔ (∃ b, x = flag b ∧ (if b then 1 else 0) = i) ∨ x = whole i := by
  cases x <;> simp [whole?]

theorem extended?_of_whole? (h : x.whole? = some i) : x.extended? = some (.point i) := by
  rcases whole?_eq_some.mp h with ⟨b, rfl, rfl⟩ | rfl
  · cases b <;> simp [extended?]
  · rfl

/-- Integers on the extended line are ordered as integers. -/
theorem le_of_extended? (hx : x.extended? = some (.point i)) (hy : y.extended? = some (.point j)) :
    x.le y = decide (i ≤ j) := by
  rw [le, hx, hy]
  exact decide_eq_decide.mpr Int.cast_le

theorem lt_of_extended? (hx : x.extended? = some (.point i)) (hy : y.extended? = some (.point j)) :
    x.lt y = decide (i < j) := by
  rw [lt, hx, hy]
  change (!decide ((j : Rat) ≤ (i : Rat))) = _
  rw [decide_eq_decide.mpr (Int.cast_le (R := Rat)), ← decide_not, decide_eq_decide, not_le]

/-- **Whole numbers are ordered as integers.** -/
theorem le_of_whole? (hx : x.whole? = some i) (hy : y.whole? = some j) :
    x.le y = decide (i ≤ j) :=
  le_of_extended? (extended?_of_whole? hx) (extended?_of_whole? hy)

theorem lt_of_whole? (hx : x.whole? = some i) (hy : y.whole? = some j) :
    x.lt y = decide (i < j) :=
  lt_of_extended? (extended?_of_whole? hx) (extended?_of_whole? hy)

/-- A number that is neither below nor above an integer stands at it. -/
theorem extended?_eq_point_iff :
    x.extended? = some (.point i) ↔ (whole i).le x ∧ x.le (whole i) := by
  have hi : (whole i).extended? = some (.point i) := rfl
  rw [Number.le, Number.le, hi]
  rcases x.extended? with _ | _ | q | _ <;> simp [Extended.le]
  rw [eq_comm, le_antisymm_iff]

@[simp] theorem whole_le_whole (i j : Int) : (whole i).le (whole j) = decide (i ≤ j) :=
  le_of_whole? rfl rfl

@[simp] theorem whole_lt_whole (i j : Int) : (whole i).lt (whole j) = decide (i < j) :=
  lt_of_whole? rfl rfl

/-- A whole number is the least integer not below it. -/
theorem ceil?_of_whole? (h : x.whole? = some i) : x.ceil? = .ok i := by
  rcases whole?_eq_some.mp h with ⟨b, rfl, rfl⟩ | rfl
  · rfl
  · rfl

/-! ## Doubles without a fractional part -/

theorem cast_truncate {q : Rat} (h : q.den = 1) : (truncate q : Rat) = q := by
  obtain ⟨k, rfl⟩ : ∃ k : Int, (k : Rat) = q := ⟨q.num, Rat.coe_int_num_of_den_eq_one h⟩
  rw [truncate]
  split_ifs
  · rw [Rat.floor_intCast]
  · rw [← Int.cast_neg, Rat.floor_intCast, neg_neg]

/-- **A number without a fractional part is its integer part.** -/
theorem extended?_of_toInt? (hx : x.fractional? = none) (hi : x.toInt? = .ok i) :
    x.extended? = some (.point i) := by
  rcases x with b | k | d
  · obtain rfl : (if b then 1 else 0) = i := by simpa [toInt?] using hi
    exact extended?_of_whole? rfl
  · obtain rfl : k = i := by simpa [toInt?] using hi
    rfl
  · cases d with
    | finite negative m e canonical =>
      have hden : (Binary64.finite negative m e canonical).toRat.den = 1 := by
        simpa [fractional?, Binary64.isFinite] using hx
      have htruncate : truncate (Binary64.finite negative m e canonical).toRat = i := by
        simpa [toInt?] using hi
      rw [← htruncate, cast_truncate hden]
      rfl
    | nan | infinity _ => simp [toInt?] at hi

/-- **A number is read as an integer, and has no fractional part, exactly if it stands there.** -/
theorem toInt?_eq_ok_iff_extended? :
    x.fractional? = none ∧ x.toInt? = .ok i ↔ x.extended? = some (.point i) := by
  refine ⟨fun ⟨hx, hi⟩ => extended?_of_toInt? hx hi, fun h => ?_⟩
  rcases x with b | k | d
  · have hpoint := (extended?_of_whole? (x := flag b) rfl).symm.trans h
    have hi : (if b then 1 else 0) = i :=
      Int.cast_injective (Extended.point.inj (Option.some.inj hpoint))
    exact ⟨rfl, congrArg Except.ok hi⟩
  · have hi : k = i := by simpa [extended?] using h
    exact ⟨rfl, congrArg Except.ok hi⟩
  · cases d with
    | finite negative m e canonical =>
      have hvalue : (Binary64.finite negative m e canonical).toRat = i := by
        simpa [extended?, Binary64.extended?] using h
      have hden : (Binary64.finite negative m e canonical).toRat.den = 1 := by
        rw [hvalue, Rat.den_intCast]
      have htruncate : truncate (Binary64.finite negative m e canonical).toRat = i := by
        exact_mod_cast (cast_truncate hden).trans hvalue
      refine ⟨?_, congrArg Except.ok htruncate⟩
      simp [fractional?, Binary64.isFinite, hden]
    | nan => simp [extended?, Binary64.extended?] at h
    | infinity negative => cases negative <;> simp [extended?, Binary64.extended?] at h

/-- A number without a fractional part is read as an integer. -/
theorem exists_toInt?_of_fractional? (h : x.fractional? = none) : ∃ i, x.toInt? = .ok i := by
  rcases x with b | k | d
  · exact ⟨_, rfl⟩
  · exact ⟨_, rfl⟩
  · cases d with
    | finite => exact ⟨_, rfl⟩
    | nan | infinity _ => simp [fractional?, Binary64.isFinite] at h

/-- **The integer part of a number without a fractional part is rounded to where the number is
rounded to.** -/
theorem exists_toReal?_whole {d : Binary64} (hx : x.fractional? = none) (hi : x.toInt? = .ok i)
    (hd : x.toReal? = .ok d) : ∃ e, (whole i).toReal? = .ok e ∧ e.extended? = d.extended? := by
  rcases x with b | k | y
  · refine ⟨d, ?_, rfl⟩
    obtain rfl : (if b then 1 else 0) = i := Except.ok.inj hi
    obtain rfl : (if b then 1 else 0) = d := Except.ok.inj hd
    have hone : Binary64.ofInt? 1 = .ok 1 := by decide +kernel
    have hzero : Binary64.ofInt? 0 = .ok 0 := by decide +kernel
    cases b <;> simp [toReal?, hone, hzero]
  · obtain rfl : k = i := Except.ok.inj hi
    exact ⟨d, hd, rfl⟩
  · obtain rfl : y = d := Except.ok.inj hd
    have hy : y.extended? = some (.point i) := extended?_of_toInt? hx hi
    have hround : (Binary64.ofInt i).extended? = some (.point i) :=
      Binary64.extended?_ofRat_of_extended? hy
    have hfinite := (Binary64.extended?_eq_point.mp hround).1
    exact ⟨_, if_pos hfinite, hround.trans hy.symm⟩

end Number

end MigrationPlan
