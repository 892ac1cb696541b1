import MigrationPlan.Proofs.Codec.Gray

/-!
# Proofs/Codec/Adjacency — Gray codes of neighbours differ in one bit

Counting up by one turns over the digits from the lowest up to the lowest clear one, however long
that carry is (`exists_turned_succ`), and counting from the other end, `v ↦ 2 ^ n - 1 - v`, turns
over all of them.  A bit of a Gray code is the sum of two neighbouring digits, so that it changes
only where the turned digits end: **`differOnlyAt_toGray`**.  The main statement,
**`toGray_succ_differs_reflected`**, has both: the codes of neighbours differ in one bit, and those
of a number and its mirror image in the top bit.
-/

namespace MigrationPlan.Codec

variable {n v w k : Nat}

/-- Two words of one length that differ at one position and nowhere else. -/
structure DifferOnlyAt (k : Nat) (a b : Bits) : Prop where
  length_eq : a.length = b.length
  lt_length : k < a.length
  ne_iff : ∀ i, a[i]? ≠ b[i]? ↔ i = k

/-- Two numbers whose digits differ from the lowest up to the one at `k`, and nowhere above. -/
def IsTurned (k v w : Nat) : Prop :=
  ∀ i, w.testBit i = (v.testBit i ^^ decide (i ≤ k))

/-! ## Turned digits -/

/-- **Counting up turns over a run of digits**: a clear lowest digit is set, and a set one is
cleared while the digits above it count up. -/
theorem exists_turned_succ (v : Nat) : ∃ k, IsTurned k v (v + 1) := by
  induction v using Nat.binaryRec with
  | zero =>
    refine ⟨0, fun i => ?_⟩
    cases i <;> simp [Nat.testBit_succ]
  | bit b v ih =>
    cases b with
    | false =>
      have hsucc : Nat.bit false v + 1 = Nat.bit true v := by simp [Nat.bit]
      refine ⟨0, fun i => ?_⟩
      rw [hsucc]
      cases i with
      | zero => simp
      | succ i =>
        rw [Nat.testBit_bit_succ, Nat.testBit_bit_succ]
        simp
    | true =>
      obtain ⟨k, hk⟩ := ih
      have hsucc : Nat.bit true v + 1 = Nat.bit false (v + 1) := by
        simp only [Nat.bit_true, Nat.bit_false]
        omega
      refine ⟨k + 1, fun i => ?_⟩
      rw [hsucc]
      cases i with
      | zero => simp
      | succ i =>
        rw [Nat.testBit_bit_succ, Nat.testBit_bit_succ, hk i]
        simp

/-- The last turned digit is set in one of the two numbers, so that it lies within the width. -/
theorem IsTurned.lt (h : IsTurned k v w) (hv : v < 2 ^ n) (hw : w < 2 ^ n) : k < n := by
  by_contra hk
  have hpow : 2 ^ n ≤ 2 ^ k := Nat.pow_le_pow_right (by decide) (not_lt.mp hk)
  have hdigit := h k
  rw [Nat.testBit_lt_two_pow (hv.trans_le hpow),
    Nat.testBit_lt_two_pow (hw.trans_le hpow)] at hdigit
  simp at hdigit

/-- **Counting from the other end turns over all digits.** -/
theorem isTurned_reflected (hpos : 1 ≤ n) (hv : v < 2 ^ n) :
    IsTurned (n - 1) v (2 ^ n - 1 - v) := by
  intro i
  have hmirror : 2 ^ n - 1 - v = 2 ^ n - (v + 1) := by omega
  rw [hmirror, Nat.testBit_two_pow_sub_succ hv]
  by_cases hi : i < n
  · have hle : i ≤ n - 1 := by omega
    simp [hi, hle]
  · have hnot : ¬i ≤ n - 1 := by omega
    have hlarge : v < 2 ^ i := hv.trans_le (Nat.pow_le_pow_right (by decide) (not_lt.mp hi))
    simp [hi, hnot, Nat.testBit_lt_two_pow hlarge]

/-! ## Gray codes -/

/-- A bit of the Gray code of a number is the sum of its digit there and the one above. -/
theorem getElem?_toGray_bitsOf (hv : v < 2 ^ n) (i : Nat) :
    (toGray (bitsOf n v))[i]?
      = if i < n then some (v.testBit i ^^ v.testBit (i + 1)) else none := by
  have hdigit (j : Nat) : (bitsOf n v).getD j false = v.testBit j := by
    rw [← testBit_bitsValue, bitsValue_bitsOf hv]
  split_ifs with hi
  · have hlt : i < (toGray (bitsOf n v)).length := by rwa [length_toGray, length_bitsOf]
    rw [List.getElem?_eq_getElem hlt, ← List.getD_eq_getElem _ false hlt, getD_toGray, hdigit,
      hdigit]
  · rw [List.getElem?_eq_none]
    rw [length_toGray, length_bitsOf]
    exact not_lt.mp hi

/-- **Where the turned digits end, and only there, the Gray codes differ**: elsewhere both digits of
a sum are turned or neither is. -/
theorem differOnlyAt_toGray (hv : v < 2 ^ n) (hw : w < 2 ^ n) (h : IsTurned k v w) :
    DifferOnlyAt k (toGray (bitsOf n v)) (toGray (bitsOf n w)) where
  length_eq := by rw [length_toGray, length_toGray, length_bitsOf, length_bitsOf]
  lt_length := by
    rw [length_toGray, length_bitsOf]
    exact h.lt hv hw
  ne_iff i := by
    have hk := h.lt hv hw
    rw [getElem?_toGray_bitsOf hv, getElem?_toGray_bitsOf hw, h i, h (i + 1)]
    by_cases hi : i < n
    · rcases lt_trichotomy i k with hlt | rfl | hgt
      · have hle : i ≤ k := hlt.le
        have hsucc : i + 1 ≤ k := hlt
        simp [hi, hle, hsucc, hlt.ne]
      · simp [hi]
      · have hnot : ¬i ≤ k := hgt.not_ge
        have hsucc : ¬i + 1 ≤ k := by omega
        simp [hi, hnot, hsucc, hgt.ne']
    · simp only [if_neg hi, ne_eq, not_true_eq_false, false_iff]
      omega

theorem encodeBinaryGiven_of_lt (hwidth : IsWidth n) (hv : v < 2 ^ n) :
    encodeBinaryGiven (.whole v) (.whole n) = .ok (bitsOf n v) :=
  encodeBinaryGiven_eq_ok.mpr ⟨v, rfl, hwidth, hv, rfl⟩

/-- **Neighbours have Gray codes that differ in exactly one bit, and the code is reflected**: a
number and the one as far from the other end have codes that differ in exactly the top bit, so that
the first code is also next to the last. -/
theorem toGray_succ_differs_reflected (n : Nat) (hpos : 1 ≤ n) (hmax : n ≤ 63) :
    (∀ v : Nat, v + 1 < 2 ^ n → ∃ a b : Bits,
        encodeBinaryGiven (.whole v) (.whole n) = .ok a
          ∧ encodeBinaryGiven (.whole ((v + 1 : Nat) : Int)) (.whole n) = .ok b
          ∧ ∃ k, DifferOnlyAt k (toGray a) (toGray b))
      ∧ ∀ v : Nat, v < 2 ^ n → ∃ a b : Bits,
        encodeBinaryGiven (.whole v) (.whole n) = .ok a
          ∧ encodeBinaryGiven (.whole ((2 ^ n - 1 - v : Nat) : Int)) (.whole n) = .ok b
          ∧ DifferOnlyAt (n - 1) (toGray a) (toGray b) := by
  have hwidth := isWidth_iff.mpr ⟨hpos, hmax⟩
  constructor
  · intro v hsucc
    have hv : v < 2 ^ n := by omega
    obtain ⟨k, hk⟩ := exists_turned_succ v
    exact ⟨_, _, encodeBinaryGiven_of_lt hwidth hv, encodeBinaryGiven_of_lt hwidth hsucc, k,
      differOnlyAt_toGray hv hsucc hk⟩
  · intro v hv
    have hmirror : 2 ^ n - 1 - v < 2 ^ n := by omega
    exact ⟨_, _, encodeBinaryGiven_of_lt hwidth hv, encodeBinaryGiven_of_lt hwidth hmirror,
      differOnlyAt_toGray hv hmirror (isTurned_reflected hpos hv)⟩

/-- A carry through sixty-two digits, and the two ends of the longest code. -/
theorem toGray_differs_longestWidth :
    (1 ≤ 63 ∧ 63 ≤ 63)
      ∧ (2 ^ 62 - 1 + 1 < 2 ^ 63 ∧ ∃ a b : Bits,
        encodeBinaryGiven (.whole ((2 ^ 62 - 1 : Nat) : Int)) (.whole (63 : Nat)) = .ok a
          ∧ encodeBinaryGiven (.whole ((2 ^ 62 - 1 + 1 : Nat) : Int)) (.whole (63 : Nat)) = .ok b
          ∧ ∃ k, DifferOnlyAt k (toGray a) (toGray b))
      ∧ 0 < 2 ^ 63 ∧ ∃ a b : Bits,
        encodeBinaryGiven (.whole (0 : Nat)) (.whole (63 : Nat)) = .ok a
          ∧ encodeBinaryGiven (.whole ((2 ^ 63 - 1 - 0 : Nat) : Int)) (.whole (63 : Nat)) = .ok b
          ∧ DifferOnlyAt 62 (toGray a) (toGray b) := by
  have hwidth : 1 ≤ 63 ∧ 63 ≤ 63 := by decide
  have hcarry : 2 ^ 62 - 1 + 1 < 2 ^ 63 := by decide
  have hfirst : 0 < 2 ^ 63 := by decide
  obtain ⟨hsucc, hreflected⟩ := toGray_succ_differs_reflected 63 hwidth.1 hwidth.2
  exact ⟨hwidth, ⟨hcarry, hsucc _ hcarry⟩, hfirst, hreflected _ hfirst⟩

end MigrationPlan.Codec
