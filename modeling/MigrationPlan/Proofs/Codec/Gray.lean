import MigrationPlan.Proofs.Codec.Natural

/-!
# Proofs/Codec/Gray — Gray codes are undone by running sums

A bit of a Gray code is the sum of two neighbouring bits (`getD_toGray`), and a decoded bit is the
sum of all Gray bits from its place up (`getElem?_fromGray`).  These sums telescope, so each of the
two conversions undoes the other, on words of any length.  On numbers the Gray code of `v` is `v`
with its half added bit by bit (`bitsValue_toGray`).  The main statement is
**`toGray_fromGray_mutuallyInverse`**.
-/

namespace MigrationPlan.Codec

/-! ## Bit by bit -/

/-- With zeros above the top bit, every Gray bit is a sum of neighbours. -/
theorem toGray_cons (b : Bool) (bs : Bits) :
    toGray (b :: bs) = (bs.headD false ^^ b) :: toGray bs := by
  cases bs with
  | nil => simp [toGray]
  | cons c rest => rfl

theorem getD_toGray (bs : Bits) (i : Nat) :
    (toGray bs).getD i false = (bs.getD i false ^^ bs.getD (i + 1) false) := by
  induction bs generalizing i with
  | nil => rfl
  | cons b bs ih =>
    rw [toGray_cons]
    cases i with
    | zero =>
      rw [List.getD_cons_zero, List.getD_cons_zero, List.getD_cons_succ, Bool.xor_comm]
      cases bs <;> rfl
    | succ i => rw [List.getD_cons_succ, ih, List.getD_cons_succ, List.getD_cons_succ]

/-- The lowest decoded bit is the sum of all Gray bits. -/
theorem headD_fromGray (bs : Bits) : (fromGray bs).headD false = bs.foldr xor false := by
  induction bs with
  | nil => rfl
  | cons g rest ih => rw [fromGray, List.headD_cons, ih, List.foldr_cons, Bool.xor_comm]

/-- **A decoded bit is the sum of the Gray bits from its place up.** -/
theorem getElem?_fromGray {bs : Bits} {i : Nat} (hi : i < bs.length) :
    (fromGray bs)[i]? = some ((bs.drop i).foldr xor false) := by
  induction bs generalizing i with
  | nil => simp at hi
  | cons g rest ih =>
    cases i with
    | zero =>
      rw [List.drop_zero, ← headD_fromGray]
      rfl
    | succ i =>
      rw [fromGray, List.getElem?_cons_succ, List.drop_succ_cons]
      exact ih (Nat.lt_of_succ_lt_succ hi)

/-! ## Back and forth -/

theorem fromGray_toGray (bs : Bits) : fromGray (toGray bs) = bs := by
  induction bs with
  | nil => rfl
  | cons b bs ih => simp only [toGray_cons, fromGray, ih, Bool.bne_self_left]

theorem toGray_fromGray (bs : Bits) : toGray (fromGray bs) = bs := by
  induction bs with
  | nil => rfl
  | cons g rest ih => simp only [toGray_cons, fromGray, ih, Bool.bne_self_left]

/-! ## On numbers -/

/-- **The Gray code of a number is the sum of the number and its half, digit by digit.** -/
theorem bitsValue_toGray (bs : Bits) :
    bitsValue (toGray bs) = bitsValue bs ^^^ (bitsValue bs >>> 1) := by
  refine Nat.eq_of_testBit_eq fun i => ?_
  rw [Nat.testBit_xor, Nat.testBit_shiftRight, testBit_bitsValue, testBit_bitsValue,
    testBit_bitsValue, getD_toGray, Nat.add_comm 1 i]

/-- Neighbours differ in one bit. -/
example : (List.range 8).map (fun v => bitsValue (toGray (bitsOf 3 v)))
    = [0, 1, 3, 2, 6, 7, 5, 4] := by
  decide

/-- **The two conversions are inverse to each other**, on words of every length, and keep the
length.  A decoded bit is the sum of the Gray bits from its place up.  On an admissible width the
Gray code of a number `v` is read as the sum of `v` and its half, digit by digit. -/
theorem toGray_fromGray_mutuallyInverse :
    (∀ bits : Bits, fromGray (toGray bits) = bits ∧ toGray (fromGray bits) = bits
        ∧ (toGray bits).length = bits.length ∧ (fromGray bits).length = bits.length
        ∧ ∀ i < bits.length, (fromGray bits)[i]? = some ((bits.drop i).foldr xor false))
      ∧ ∀ n v : Nat, 1 ≤ n → n ≤ 63 → v < 2 ^ n →
        ∃ bits, encodeBinaryGiven (.whole v) (.whole n) = .ok bits
          ∧ decodeBinary (toGray bits) = .ok (v ^^^ (v >>> 1)) := by
  refine ⟨fun bits => ⟨fromGray_toGray bits, toGray_fromGray bits, length_toGray bits,
    length_fromGray bits, fun i => getElem?_fromGray⟩, fun n v hpos hmax hlt => ?_⟩
  have hwidth : IsWidth n := by
    unfold IsWidth
    omega
  refine ⟨bitsOf n v, encodeBinaryGiven_eq_ok.mpr ⟨v, rfl, hwidth, hlt, rfl⟩,
    decodeBinary_eq_ok.mpr ⟨?_, ?_⟩⟩
  · rwa [length_toGray, length_bitsOf]
  · rw [bitsValue_toGray, bitsValue_bitsOf hlt]

end MigrationPlan.Codec
