import MigrationPlan.Proofs.Codec.Bounds

/-!
# Proofs/Codec/Monotone — the real codec keeps order

Rounding keeps order, and so does every operation between a value and its index, and between an
index and its value (`nearestIndex_mono`, `stepValue_mono`).  Where the width of the bounds is no
double, a value that has an index at all has the least one (**`eq_zero_of_indexOf`**): what is
finite is nothing of an infinite width.  The main statement is
**`encodeRealGiven_decodeRealGiven_mono`**.
-/

namespace MigrationPlan

/-- What is finite is nothing of an infinity. -/
theorem Binary64.extended?_div_infinity {x : Binary64} (hx : x.isFinite) (negative : Bool) :
    (x.div (infinity negative)).extended? = some (.point 0) := by
  rw [← isZero_iff]
  cases x with
  | finite => rfl
  | _ => simp [isFinite] at hx

namespace Codec

variable {lower upper x y : Binary64} {n : Nat} {i j : Int} {a b : Bits} {gray : Bool}

/-! ## Writing -/

/-- **Of an infinite width only the least index is left**: an infinite difference has no place in
it, and a finite one is nothing of it. -/
theorem eq_zero_of_indexOf (h : IsInterval lower upper) (hn : IsWidth n) (hx : x.isFinite)
    (hlower : lower.toRat ≤ x.toRat) (hinfinite : upper.sub lower = .infinity false)
    (hi : indexOf (.real x) (.real lower) (.real upper) n = .ok i) : i = 0 := by
  obtain ⟨z, hz, hmax⟩ := exists_ofInt?_maxIndex hn
  have hpoint := Binary64.extended?_eq_point.mpr ⟨hx, rfl⟩
  rw [indexOf_real_real hz (by rw [hinfinite]; rfl), hinfinite] at hi
  rcases Binary64.sub_isFinite_or hpoint h.extended?_lower hlower with hoffset | hoffset
  · have hsteps := Binary64.extended?_mul (Binary64.extended?_div_infinity hoffset false) hmax
    rw [zero_mul, Extended.nearest_of_nonneg le_rfl, Extended.rounded_zero] at hsteps
    have hshifted := Binary64.extended?_add hsteps extended?_half
    rw [zero_add, extended?_half] at hshifted
    rw [Binary64.floor?_of_extended? hshifted, ok_bind, Except.ok.injEq] at hi
    rw [← hi, show ⌊(1 / 2 : Rat)⌋ = 0 by norm_num]
    exact min_eq_left (Int.natCast_nonneg _)
  · rw [hoffset] at hi
    exact nomatch hi

/-- **A larger double has no smaller index.** -/
theorem indexOf_mono (h : IsInterval lower upper) (hn : IsWidth n)
    (hx : lower.le x ∧ x.le upper) (hy : lower.le y ∧ y.le upper) (hxy : x.le y)
    (hi : indexOf (.real x) (.real lower) (.real upper) n = .ok i)
    (hj : indexOf (.real y) (.real lower) (.real upper) n = .ok j) : i ≤ j := by
  obtain ⟨hxfinite, hxlower, hxupper⟩ := h.le_and_le_iff.mp hx
  obtain ⟨hyfinite, hylower, hyupper⟩ := h.le_and_le_iff.mp hy
  have hxpoint := Binary64.extended?_eq_point.mpr ⟨hxfinite, rfl⟩
  have hypoint := Binary64.extended?_eq_point.mpr ⟨hyfinite, rfl⟩
  rcases Binary64.sub_isFinite_or h.extended?_upper h.extended?_lower h.lt.le with hwidth | hwidth
  · have hmeasured : IsMeasured lower upper := ⟨h, hwidth⟩
    rw [indexOf_real hmeasured hn hxpoint hxlower hxupper, Except.ok.injEq] at hi
    rw [indexOf_real hmeasured hn hypoint hylower hyupper, Except.ok.injEq] at hj
    rw [Binary64.le_of_extended? hxpoint hypoint, Extended.point_le_point] at hxy
    rw [← hi, ← hj]
    exact Int.ofNat_le.mpr (nearestIndex_mono h.width_pos hxlower hxy)
  · rw [eq_zero_of_indexOf h hn hxfinite hxlower hwidth hi,
      eq_zero_of_indexOf h hn hyfinite hylower hwidth hj]

/-! ## The statement -/

/-- **The real codec keeps order.**  Between finite bounds, on every width from 1 to 63, plain or
Gray coded: of two doubles that are written, the larger has no smaller index; and of two words of
`n` bits, the one with the larger index is not read as less, if the width of the bounds is a
double. -/
theorem encodeRealGiven_decodeRealGiven_mono (h : IsInterval lower upper) (hn : 1 ≤ n ∧ n ≤ 63)
    (gray : Bool) :
    (∀ (x y : Binary64) (a b : Bits), x.le y →
        encodeRealGiven (.real x) (.real lower) (.real upper) (.whole n) gray = .ok a →
        encodeRealGiven (.real y) (.real lower) (.real upper) (.whole n) gray = .ok b →
          ∃ i j, decodeBinary (plainBits a gray) = .ok i ∧ decodeBinary (plainBits b gray) = .ok j
            ∧ i ≤ j)
      ∧ ((upper.sub lower).isFinite → ∀ (a b : Bits) (i j : Nat), a.length = n → b.length = n →
          decodeBinary (plainBits a gray) = .ok i → decodeBinary (plainBits b gray) = .ok j →
          i ≤ j → ∃ u v : Binary64,
            decodeRealGiven (.flags a) (.real lower) (.real upper) gray = .ok (.real u)
              ∧ decodeRealGiven (.flags b) (.real lower) (.real upper) gray = .ok (.real v)
              ∧ u.le v) := by
  have hwidth := isWidth_iff.mpr hn
  simp only [encodeRealGiven_number, decodeRealGiven_flags]
  constructor
  · intro x y a b hxy hx hy
    obtain ⟨hxmem, i, hi, himax, rfl⟩ := exists_indexOf_of_encodeReal hx
    obtain ⟨hymem, j, hj, hjmax, rfl⟩ := exists_indexOf_of_encodeReal hy
    exact ⟨i, j, decodeBinary_plainBits_wordOf hwidth himax,
      decodeBinary_plainBits_wordOf hwidth hjmax,
      Int.ofNat_le.mp (indexOf_mono h hwidth hxmem hymem hxy hi hj)⟩
  · intro hfinite a b i j ha hb hi hj hij
    have hmeasured : IsMeasured lower upper := ⟨h, hfinite⟩
    have hawidth : IsWidth a.length := by rwa [ha]
    have hbwidth : IsWidth b.length := by rwa [hb]
    obtain ⟨u, hu, hupoint⟩ := exists_decodeReal hmeasured hawidth gray
    obtain ⟨v, hv, hvpoint⟩ := exists_decodeReal hmeasured hbwidth gray
    refine ⟨u, v, hu, hv, ?_⟩
    have hjmax := bitsValue_plainBits_le b gray
    rw [(decodeBinary_plainBits.mp hi).2, ha] at hupoint
    rw [(decodeBinary_plainBits.mp hj).2, hb] at hvpoint hjmax
    rw [Binary64.le_of_extended? hupoint hvpoint, Extended.point_le_point]
    exact stepValue_mono h.lt.le (Binary64.isRepresentable_abs h.extended?_lower)
      (Binary64.isRepresentable_abs h.extended?_upper) hij hjmax

/-- Two tenths below zero and zero, in three steps. -/
theorem encodeRealGiven_decodeRealGiven_mono_tenths :
    (IsInterval (.ofRat (-3 / 10)) (.ofRat (1 / 10)) ∧ 1 ≤ 2 ∧ 2 ≤ 63)
      ∧ ((Binary64.ofRat (-2 / 10)).le (.ofRat 0)
          ∧ encodeRealGiven (.real (.ofRat (-2 / 10))) (.real (.ofRat (-3 / 10)))
              (.real (.ofRat (1 / 10))) (.whole (2 : Nat)) true = .ok [true, false]
          ∧ encodeRealGiven (.real (.ofRat 0)) (.real (.ofRat (-3 / 10)))
              (.real (.ofRat (1 / 10))) (.whole (2 : Nat)) true = .ok [true, true]
          ∧ ∃ i j, decodeBinary (plainBits [true, false] true) = .ok i
            ∧ decodeBinary (plainBits [true, true] true) = .ok j ∧ i ≤ j)
      ∧ ((Binary64.ofRat (1 / 10)).sub (.ofRat (-3 / 10))).isFinite
      ∧ ∃ u v : Binary64,
          decodeRealGiven (.flags [true, true]) (.real (.ofRat (-3 / 10)))
              (.real (.ofRat (1 / 10))) true = .ok (.real u)
            ∧ decodeRealGiven (.flags [false, true]) (.real (.ofRat (-3 / 10)))
              (.real (.ofRat (1 / 10))) true = .ok (.real v)
            ∧ u.le v := by
  have hwidth : 1 ≤ 2 ∧ 2 ≤ 63 := by decide
  have hle : (Binary64.ofRat (-2 / 10)).le (.ofRat 0) := by decide +kernel
  have hx : encodeRealGiven (.real (.ofRat (-2 / 10))) (.real (.ofRat (-3 / 10)))
      (.real (.ofRat (1 / 10))) (.whole (2 : Nat)) true = .ok [true, false] := by decide +kernel
  have hy : encodeRealGiven (.real (.ofRat 0)) (.real (.ofRat (-3 / 10)))
      (.real (.ofRat (1 / 10))) (.whole (2 : Nat)) true = .ok [true, true] := by decide +kernel
  obtain ⟨hwrite, hread⟩ :=
    encodeRealGiven_decodeRealGiven_mono isMeasured_tenths.toIsInterval hwidth true
  exact ⟨⟨isMeasured_tenths.toIsInterval, hwidth⟩, ⟨hle, hx, hy, hwrite _ _ _ _ hle hx hy⟩,
    isMeasured_tenths.width_isFinite,
    hread isMeasured_tenths.width_isFinite [true, true] [false, true] 2 3 rfl rfl rfl rfl
      (by decide)⟩

end Codec

end MigrationPlan
