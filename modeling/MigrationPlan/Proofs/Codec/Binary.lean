import MigrationPlan.Codec.Quantize
import MigrationPlan.Proofs.Accepted

/-!
# Proofs/Codec/Binary — a code word is as long as it was asked to be

Writing a number, plain or Gray coded, gives as many bits as were asked for, whatever the number is.
Of the words of one length, plain or Gray coded, the clear one alone stands for zero.
-/

namespace MigrationPlan.Codec

theorem isWidth_iff {n : Nat} : IsWidth n ↔ 1 ≤ n ∧ n ≤ 63 := by
  unfold IsWidth
  omega

@[simp] theorem length_bitsOf (n v : Nat) : (bitsOf n v).length = n := by
  induction n generalizing v with
  | zero => rfl
  | succ n ih => rw [bitsOf, List.length_cons, ih]

@[simp] theorem length_toGray (bs : Bits) : (toGray bs).length = bs.length := by
  fun_induction toGray bs with
  | case1 | case2 => rfl
  | case3 b c rest ih => simp only [List.length_cons, ih]

@[simp] theorem length_fromGray (bs : Bits) : (fromGray bs).length = bs.length := by
  induction bs with
  | nil => rfl
  | cons g rest ih => rw [fromGray, List.length_cons, List.length_cons, ih]

/-! ## Clear words -/

theorem bitsValue_eq_zero_iff {bs : Bits} : bitsValue bs = 0 ↔ ∀ b ∈ bs, b = false := by
  induction bs with
  | nil => simp [bitsValue]
  | cons b bs ih =>
    rw [bitsValue, Nat.add_eq_zero_iff, Nat.mul_eq_zero, or_iff_right (by decide), ih,
      List.forall_mem_cons]
    cases b <;> simp

/-- A word is clear if its Gray code is. -/
theorem forall_fromGray_eq_false_iff {bs : Bits} :
    (∀ b ∈ fromGray bs, b = false) ↔ ∀ b ∈ bs, b = false := by
  induction bs with
  | nil => simp [fromGray]
  | cons g rest ih =>
    simp only [fromGray, List.forall_mem_cons, ih]
    refine and_congr_left fun hrest => ?_
    -- below a clear word nothing is added to the bit
    have hclear : (fromGray rest).headD false = false := by
      cases hdecoded : fromGray rest with
      | nil => rfl
      | cons b bs => exact ih.mpr hrest b (hdecoded ▸ List.mem_cons_self ..)
    rw [hclear, Bool.false_xor]

/-! ## Writing -/

theorem encodeNat_eq_ok {value n : Int} {bits : Bits} :
    encodeNat value n = .ok bits ↔
      0 ≤ value ∧ IsWidth n ∧ value < codeCount n.toNat ∧ bitsOf n.toNat value.toNat = bits := by
  simp only [encodeNat, checkWidth, error_bind, refuse_eq_ok, bind_eq_ok, require_eq_ok,
    Int.not_lt, Int.not_le, Except.ok.injEq, exists_const, and_true]

/-- **A real is written on as many bits as were asked for.** -/
theorem length_of_encodeReal {value lower upper : Number} {n : Nat} {gray : Bool} {bits : Bits}
    (h : encodeReal value lower upper n gray = .ok bits) : bits.length = n := by
  simp only [encodeReal, bind_eq_ok, Except.ok.injEq] at h
  obtain ⟨_, -, _, -, _, -, _, -, plain, hplain, rfl⟩ := h
  obtain ⟨-, -, -, rfl⟩ := encodeNat_eq_ok.mp hplain
  cases gray <;> simp

end MigrationPlan.Codec
