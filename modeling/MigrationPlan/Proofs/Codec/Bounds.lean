import MigrationPlan.Proofs.Codec.Real

/-!
# Proofs/Codec/Bounds — the real codec stays within its bounds and reaches them

On every admissible width, also where there are more steps than a double has bits, exactly the
doubles of the interval are written, the bounds as the least and the largest index, and these are
read as the bounds.  Every word is read as a double of the interval.  The main statement is
**`encodeRealGiven_decodeRealGiven_bounds`**.
-/

namespace MigrationPlan.Codec

variable {lower upper : Binary64} {n : Nat} {gray : Bool} {bits : Bits}

/-- What is written is the index of a value. -/
theorem decodeBinary_plainBits_wordOf {k : Nat} (hn : IsWidth n) (hk : k ≤ maxIndex n) :
    decodeBinary (plainBits (wordOf n k gray) gray) = .ok k := by
  refine decodeBinary_plainBits.mpr ⟨?_, bitsValue_plainBits_wordOf hk⟩
  rwa [length_wordOf]

/-- **A word is read as a double of the interval.** -/
theorem exists_decodeReal_mem (h : IsMeasured lower upper) (hn : IsWidth bits.length)
    (gray : Bool) :
    ∃ y : Binary64, decodeReal bits (.real lower) (.real upper) gray = .ok (.real y)
      ∧ (lower.le y ∧ y.le upper)
      ∧ y.toRat
        = stepValue bits.length lower.toRat upper.toRat (bitsValue (plainBits bits gray)) := by
  obtain ⟨y, hread, hy⟩ := exists_decodeReal h hn gray
  obtain ⟨hfinite, hvalue⟩ := Binary64.extended?_eq_point.mp hy
  refine ⟨y, hread, h.le_and_le_iff.mpr ⟨hfinite, ?_⟩, hvalue⟩
  rw [hvalue]
  exact stepValue_mem h.lt.le (Binary64.isRepresentable_abs h.extended?_lower)
    (Binary64.isRepresentable_abs h.extended?_upper)

/-- The word of the largest index is read as the upper bound itself. -/
theorem decodeReal_of_maxIndex (h : IsInterval lower upper) (hn : IsWidth bits.length)
    (hmax : bitsValue (plainBits bits gray) = maxIndex bits.length) :
    decodeReal bits (.real lower) (.real upper) gray = .ok (.real upper) := by
  refine decodeReal_eq_ok.mpr ⟨h.checkBounds_eq_ok, hn, ?_⟩
  rw [hmax, valueAt, if_pos rfl]

/-- **The real codec is total on its interval, and exact at both ends.**  Between finite bounds
whose width is a double, on every width from 1 to 63, plain or Gray coded: a double is written
exactly if it lies between the bounds, and is out of range otherwise; the lower bound has index zero
and the upper one index `2 ^ n - 1`; and every word of `n` bits is read as a double between the
bounds, which is the lower bound for index zero and the upper one for index `2 ^ n - 1`. -/
theorem encodeRealGiven_decodeRealGiven_bounds (h : IsMeasured lower upper) (hn : 1 ≤ n ∧ n ≤ 63)
    (gray : Bool) :
    (∀ x : Binary64,
        ((∃ bits, encodeRealGiven (.real x) (.real lower) (.real upper) (.whole n) gray = .ok bits)
            ↔ lower.le x ∧ x.le upper)
          ∧ ∀ fault,
            encodeRealGiven (.real x) (.real lower) (.real upper) (.whole n) gray = .error fault →
              fault.category = .range)
      ∧ (∃ bits,
          encodeRealGiven (.real lower) (.real lower) (.real upper) (.whole n) gray = .ok bits
          ∧ decodeBinary (plainBits bits gray) = .ok 0)
      ∧ (∃ bits,
          encodeRealGiven (.real upper) (.real lower) (.real upper) (.whole n) gray = .ok bits
          ∧ decodeBinary (plainBits bits gray) = .ok (2 ^ n - 1))
      ∧ ∀ bits : Bits, bits.length = n → ∃ y : Binary64,
          decodeRealGiven (.flags bits) (.real lower) (.real upper) gray = .ok (.real y)
            ∧ (lower.le y ∧ y.le upper)
            ∧ (decodeBinary (plainBits bits gray) = .ok 0 → y.toRat = lower.toRat)
            ∧ (decodeBinary (plainBits bits gray) = .ok (2 ^ n - 1) → y = upper) := by
  have hwidth := isWidth_iff.mpr hn
  have hself {x : Binary64} (hx : x.isFinite) (hlower : lower.toRat ≤ x.toRat)
      (hupper : x.toRat ≤ upper.toRat) : lower.le x ∧ x.le upper :=
    h.le_and_le_iff.mpr ⟨hx, hlower, hupper⟩
  simp only [encodeRealGiven_number, decodeRealGiven_flags, encodeReal_eq h hwidth]
  refine ⟨fun x => ?_, ?_, ?_, fun bits hlength => ?_⟩
  · by_cases hwithin : lower.le x ∧ x.le upper
    · simp [hwithin]
    · simp only [if_neg hwithin, Except.error.injEq]
      exact ⟨by simp [hwithin], fun fault hfault => hfault ▸ rfl⟩
  · refine ⟨_, if_pos (hself h.lower_isFinite le_rfl h.lt.le), ?_⟩
    rw [nearestIndex_lower]
    exact decodeBinary_plainBits_wordOf hwidth (Nat.zero_le _)
  · refine ⟨_, if_pos (hself h.upper_isFinite h.lt.le le_rfl), ?_⟩
    rw [nearestIndex_upper h.width_pos]
    exact decodeBinary_plainBits_wordOf hwidth le_rfl
  · subst hlength
    obtain ⟨y, hread, hmem, hvalue⟩ := exists_decodeReal_mem h hwidth gray
    refine ⟨y, hread, hmem, fun hzero => ?_, fun hmax => ?_⟩
    · rw [hvalue, (decodeBinary_plainBits.mp hzero).2]
      exact stepValue_zero h.lt.le hwidth (Binary64.isRepresentable_abs h.extended?_lower)
    · have hupper := decodeReal_of_maxIndex h.toIsInterval hwidth (decodeBinary_plainBits.mp hmax).2
      exact Number.real.inj (Except.ok.inj (hread.symm.trans hupper))

/-- More steps than a double has bits. -/
theorem encodeRealGiven_decodeRealGiven_tenths :
    IsMeasured (.ofRat (-3 / 10)) (.ofRat (1 / 10)) ∧ (1 ≤ 63 ∧ 63 ≤ 63)
      ∧ (∃ bits, encodeRealGiven (.real (.ofRat (1 / 10))) (.real (.ofRat (-3 / 10)))
            (.real (.ofRat (1 / 10))) (.whole (63 : Nat)) true = .ok bits
          ∧ decodeBinary (plainBits bits true) = .ok (2 ^ 63 - 1))
      ∧ ∃ y : Binary64,
          decodeRealGiven (.flags (List.replicate 63 false)) (.real (.ofRat (-3 / 10)))
            (.real (.ofRat (1 / 10))) true = .ok (.real y)
          ∧ (Binary64.ofRat (-3 / 10)).le y ∧ y.le (.ofRat (1 / 10)) := by
  have hwidth : 1 ≤ 63 ∧ 63 ≤ 63 := by decide
  obtain ⟨-, -, hupper, hread⟩ :=
    encodeRealGiven_decodeRealGiven_bounds isMeasured_tenths hwidth true
  obtain ⟨y, hy, hmem, -⟩ := hread (List.replicate 63 false) (List.length_replicate ..)
  exact ⟨isMeasured_tenths, hwidth, hupper, y, hy, hmem⟩

end MigrationPlan.Codec
