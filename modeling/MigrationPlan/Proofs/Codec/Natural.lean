import MigrationPlan.Codec.Given
import MigrationPlan.Proofs.Codec.Binary
import MigrationPlan.Proofs.Datum.Reading
import MigrationPlan.Proofs.Numeric.Whole
import Mathlib.Data.Nat.Bitwise

/-!
# Proofs/Codec/Natural — numbers below `2 ^ n` are the words of `n` bits

A word and its number have the same binary digits: `testBit_bitsValue` reads them off the number,
and `getElem?_bitsOf` off the word.  So writing undoes reading, and reading undoes writing as long
as the number fits the width.  Whatever else is to be written is refused as out of range:
**`encodeBinaryGiven_decodeBinary`**.
-/

namespace MigrationPlan.Codec

variable {bs bits : Bits} {n v i : Nat}

/-! ## Binary digits -/

theorem bitsValue_cons (b : Bool) (bs : Bits) : bitsValue (b :: bs) = Nat.bit b (bitsValue bs) := by
  cases b
  · simp [bitsValue]
  · simp [bitsValue, Nat.add_comm]

/-- **The digits of a word's number are its bits**, and zeros beyond them. -/
theorem testBit_bitsValue (bs : Bits) (i : Nat) : (bitsValue bs).testBit i = bs.getD i false := by
  induction bs generalizing i with
  | nil => simp [bitsValue]
  | cons b bs ih =>
    rw [bitsValue_cons]
    cases i with
    | zero => rw [Nat.testBit_bit_zero, List.getD_cons_zero]
    | succ i => rw [Nat.testBit_bit_succ, ih, List.getD_cons_succ]

/-- **The bits of a written number are its lowest digits.** -/
theorem getElem?_bitsOf : (bitsOf n v)[i]? = if i < n then some (v.testBit i) else none := by
  induction n generalizing v i with
  | zero => simp [bitsOf]
  | succ n ih =>
    cases i with
    | zero => simp [bitsOf, Nat.testBit_zero]
    | succ i => simp [bitsOf, ih, Nat.testBit_succ]

theorem bitsValue_lt (bs : Bits) : bitsValue bs < 2 ^ bs.length :=
  Nat.lt_pow_two_of_testBit _ fun i hi => by rw [testBit_bitsValue, List.getD_eq_default _ _ hi]

/-- **A number is read back** if it fits the width. -/
theorem bitsValue_bitsOf (h : v < 2 ^ n) : bitsValue (bitsOf n v) = v := by
  refine Nat.eq_of_testBit_eq fun i => ?_
  rw [testBit_bitsValue, List.getD_eq_getElem?_getD, getElem?_bitsOf]
  by_cases hi : i < n
  · rw [if_pos hi, Option.getD_some]
  · have hlarge : v < 2 ^ i := h.trans_le (Nat.pow_le_pow_right (by decide) (not_lt.mp hi))
    rw [if_neg hi, Option.getD_none, Nat.testBit_lt_two_pow hlarge]

/-- **A word is written back.** -/
theorem bitsOf_bitsValue (bs : Bits) : bitsOf bs.length (bitsValue bs) = bs := by
  refine List.ext_getElem? fun i => ?_
  rw [getElem?_bitsOf, testBit_bitsValue]
  by_cases hi : i < bs.length
  · rw [if_pos hi, List.getD_eq_getElem _ _ hi, List.getElem?_eq_getElem hi]
  · rw [if_neg hi, List.getElem?_eq_none (not_lt.mp hi)]

/-! ## Reading and writing -/

theorem decodeBinary_eq_ok :
    decodeBinary bits = .ok v ↔ IsWidth bits.length ∧ bitsValue bits = v := by
  simp only [decodeBinary, checkWidth, bind_eq_ok, require_eq_ok, Except.ok.injEq, exists_const,
    and_true]

section Given

variable {value : Number} {n : Int} {fault : Fault}

/-- A whole width is checked as an integer. -/
theorem checkGivenWidth_whole (n : Int) :
    checkGivenWidth (.whole n) = (checkWidth n).map fun _ => Number.whole n := by
  have hcheck : checkGivenWidth (.whole n)
      = if n < 1 ∨ 63 < n then .error (.bitCount (.whole n)) else .ok (.whole n) := by
    have hnumber : (Datum.whole n).number? = .ok (.whole n) := rfl
    simp only [checkGivenWidth, hnumber, ok_bind, Number.whole_lt_whole, Bool.or_eq_true,
      decide_eq_true_eq]
  by_cases h : IsWidth n
  · have hinside : ¬(n < 1 ∨ 63 < n) := fun houtside => by unfold IsWidth at h; omega
    rw [hcheck, if_neg hinside, checkWidth, if_pos h]
    rfl
  · have houtside : n < 1 ∨ 63 < n := by unfold IsWidth at h; omega
    rw [hcheck, if_pos houtside, checkWidth, if_neg h]
    rfl

/-- **On numbers, the codec on values as given is the codec on numbers.** -/
theorem encodeBinaryGiven_number (value : Number) (n : Int) :
    encodeBinaryGiven (.number value) (.whole n) = encodeBinary value n := by
  rcases hfraction : value.fractional? with _ | x
  · obtain ⟨i, hi⟩ := Number.exists_toInt?_of_fractional? hfraction
    have hgiven : (Datum.number value).toInt? = .ok i := hi
    have hwhole : (Datum.number value).refuseFraction = .ok () :=
      Datum.refuseFraction_number_eq_ok.mpr hfraction
    simp only [encodeBinaryGiven, encodeBinary, hwhole, hgiven, hi, hfraction, ok_bind,
      checkGivenWidth_whole, encodeNat]
    by_cases hneg : i < 0
    · simp only [if_pos hneg, error_bind]
    · by_cases hwidth : IsWidth n
      · simp only [if_neg hneg, checkWidth, if_pos hwidth, ok_map, ok_bind, useWidth,
          Number.whole?_whole]
        split_ifs <;> rfl
      · simp only [if_neg hneg, checkWidth, if_neg hwidth]
        rfl
  · simp [encodeBinaryGiven, encodeBinary, Datum.refuseFraction, hfraction]

theorem encodeBinary_eq_ok :
    encodeBinary value n = .ok bits ↔
      ∃ i : Int, value.extended? = some (.point i) ∧ encodeNat i n = .ok bits := by
  simp only [← Number.toInt?_eq_ok_iff_extended?]
  rcases hfraction : value.fractional? with _ | x <;>
    simp [encodeBinary, hfraction, bind_eq_ok]

/-- **What is written**: the integers that fit an admissible width, in whatever form they come. -/
theorem encodeBinaryGiven_eq_ok :
    encodeBinaryGiven (.number value) (.whole n) = .ok bits ↔
      ∃ v : Nat, value.extended? = some (.point v) ∧ IsWidth n ∧ v < 2 ^ n.toNat
        ∧ bitsOf n.toNat v = bits := by
  rw [encodeBinaryGiven_number, encodeBinary_eq_ok]
  simp only [encodeNat_eq_ok]
  constructor
  · rintro ⟨i, hi, hnat, hwidth, hlt, rfl⟩
    obtain ⟨v, rfl⟩ := Int.eq_ofNat_of_zero_le hnat
    exact ⟨v, hi, hwidth, Int.ofNat_lt.mp hlt, rfl⟩
  · rintro ⟨v, hv, hwidth, hlt, rfl⟩
    exact ⟨v, hv, Int.natCast_nonneg v, hwidth, Int.ofNat_lt.mpr hlt, rfl⟩

theorem category_of_encodeNat {i : Int} (h : encodeNat i n = .error fault) :
    fault.category = .range := by
  by_cases hneg : i < 0
  · obtain rfl : Fault.negativeInteger i = fault := by simpa [encodeNat, hneg] using h
    rfl
  · by_cases hwidth : IsWidth n
    · by_cases hlarge : codeCount n.toNat ≤ i
      · obtain rfl : Fault.tooFewBits i (.whole n) = fault := by
          simpa [encodeNat, hneg, checkWidth, hwidth, hlarge] using h
        rfl
      · simp [encodeNat, hneg, checkWidth, hwidth, hlarge] at h
    · obtain rfl : Fault.bitCount (.whole n) = fault := by
        simpa [encodeNat, hneg, checkWidth, hwidth] using h
      rfl

/-- **What is not written is out of range.** -/
theorem category_of_encodeBinaryGiven
    (h : encodeBinaryGiven (.number value) (.whole n) = .error fault) :
    fault.category = .range := by
  rw [encodeBinaryGiven_number] at h
  rcases hfraction : value.fractional? with _ | x
  · obtain ⟨i, hi⟩ := Number.exists_toInt?_of_fractional? hfraction
    refine category_of_encodeNat (i := i) (n := n) ?_
    simpa [encodeBinary, hfraction, hi] using h
  · obtain rfl : Fault.notAnInteger x = fault := by simpa [encodeBinary, hfraction] using h
    rfl

end Given

/-! ## The two together -/

/-- **Numbers and words determine each other.**  A number, whole or real, is written on `n` bits
exactly if it is an integer from zero up to `2 ^ n` and `n` is between 1 and 63; otherwise it is out
of range.  Its word has `n` bits, which are the digits of the number, and is read as the number.
Every word of an admissible width is read, as a number below `2 ^ n`, and this number is written as
the word. -/
theorem encodeBinaryGiven_decodeBinary :
    (∀ (value : Number) (n : Int),
      ((∃ bits, encodeBinaryGiven (.number value) (.whole n) = .ok bits) ↔
          (1 ≤ n ∧ n ≤ 63) ∧ ∃ v : Int, value.extended? = some (.point v) ∧ 0 ≤ v
            ∧ v < 2 ^ n.toNat)
        ∧ (∀ fault, encodeBinaryGiven (.number value) (.whole n) = .error fault →
          fault.category = .range)
        ∧ ∀ bits, encodeBinaryGiven (.number value) (.whole n) = .ok bits →
          bits.length = n ∧ ∃ v : Nat, value.extended? = some (.point v)
            ∧ (∀ i < bits.length, bits[i]? = some (v.testBit i)) ∧ decodeBinary bits = .ok v)
      ∧ ∀ bits : Bits,
        ((∃ v, decodeBinary bits = .ok v) ↔ 1 ≤ bits.length ∧ bits.length ≤ 63)
          ∧ ∀ v, decodeBinary bits = .ok v → v < 2 ^ bits.length
            ∧ encodeBinaryGiven (.whole v) (.whole bits.length) = .ok bits := by
  refine ⟨fun value n => ⟨?_, fun _ => category_of_encodeBinaryGiven, fun bits h => ?_⟩,
    fun bits => ⟨?_, fun v h => ?_⟩⟩
  · simp only [encodeBinaryGiven_eq_ok]
    constructor
    · rintro ⟨_, v, hv, hwidth, hlt, -⟩
      exact ⟨hwidth, v, hv, Int.natCast_nonneg v, by exact_mod_cast hlt⟩
    · rintro ⟨hwidth, v, hv, hnat, hlt⟩
      obtain ⟨k, rfl⟩ := Int.eq_ofNat_of_zero_le hnat
      exact ⟨_, k, hv, hwidth, by exact_mod_cast hlt, rfl⟩
  · obtain ⟨v, hv, hwidth, hlt, rfl⟩ := encodeBinaryGiven_eq_ok.mp h
    have hlength : ((bitsOf n.toNat v).length : Int) = n := by
      rw [length_bitsOf, Int.toNat_of_nonneg (by unfold IsWidth at hwidth; omega)]
    refine ⟨hlength, v, hv, fun i hi => ?_, ?_⟩
    · rw [length_bitsOf] at hi
      rw [getElem?_bitsOf, if_pos hi]
    · exact decodeBinary_eq_ok.mpr ⟨by rwa [hlength], bitsValue_bitsOf hlt⟩
  · simp only [decodeBinary_eq_ok, exists_and_left, exists_eq', and_true]
    unfold IsWidth
    omega
  · obtain ⟨hwidth, rfl⟩ := decodeBinary_eq_ok.mp h
    refine ⟨bitsValue_lt bits, encodeBinaryGiven_eq_ok.mpr ⟨_, rfl, hwidth, ?_, ?_⟩⟩
    · simpa using bitsValue_lt bits
    · simpa using bitsOf_bitsValue bits

end MigrationPlan.Codec
