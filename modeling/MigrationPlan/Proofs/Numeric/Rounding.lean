import MigrationPlan.Numeric.Rounding
import Mathlib.Algebra.Order.Field.Power
import Mathlib.Data.Int.Log
import Mathlib.Data.Rat.Floor
import Mathlib.Tactic.Linarith
import Mathlib.Tactic.Positivity
import Mathlib.Tactic.Ring

/-!
# Proofs/Numeric/Rounding — rounding to integers keeps order, and the binary scale is a logarithm

Rounding to the nearest integer leaves integers alone and never reverses an order, so that it stays
between any two integers that its argument lies between (`le_roundHalfEven`, `roundHalfEven_le`).
The binary scale of a positive rational is its integer logarithm (**`binaryLog_eq_log`**): the bit
lengths of numerator and denominator miss it by at most one, and the comparison settles which.
-/

namespace MigrationPlan

variable {a b q r : Rat} {i : Int}

/-! ## The nearest integer -/

@[simp] theorem roundHalfEven_intCast (i : Int) : roundHalfEven i = i := by
  have hexcess : (i : Rat) - ((i : Rat).floor : Int) < 1 / 2 := by
    rw [Rat.floor_intCast, sub_self]
    norm_num
  rw [roundHalfEven, if_pos hexcess, Rat.floor_intCast]

/-- The nearest integer is one of the two neighbours. -/
theorem floor_le_roundHalfEven (q : Rat) : q.floor ≤ roundHalfEven q := by
  simp only [roundHalfEven]
  split_ifs <;> omega

theorem roundHalfEven_le_floor_add_one (q : Rat) : roundHalfEven q ≤ q.floor + 1 := by
  simp only [roundHalfEven]
  split_ifs <;> omega

/-- **Rounding keeps order.** -/
theorem roundHalfEven_mono (h : q ≤ r) : roundHalfEven q ≤ roundHalfEven r := by
  rcases (Rat.floor_monotone h).eq_or_lt with hfloor | hfloor
  · -- on one side of the same integer, the larger excess is rounded up if the smaller one is
    simp only [roundHalfEven, hfloor]
    split_ifs <;> linarith
  · calc roundHalfEven q ≤ q.floor + 1 := roundHalfEven_le_floor_add_one q
      _ ≤ r.floor := hfloor
      _ ≤ roundHalfEven r := floor_le_roundHalfEven r

theorem le_roundHalfEven (h : (i : Rat) ≤ q) : i ≤ roundHalfEven q := by
  rw [← roundHalfEven_intCast i]
  exact roundHalfEven_mono h

theorem roundHalfEven_le (h : q ≤ i) : roundHalfEven q ≤ i := by
  rw [← roundHalfEven_intCast i]
  exact roundHalfEven_mono h

/-! ## The binary scale -/

/-- The logarithm is the one integer whose binade holds the number. -/
theorem log_eq_of_mem_binade {k : Int} (ha : 0 < a) (hle : (2 : Rat) ^ k ≤ a)
    (hlt : a < (2 : Rat) ^ (k + 1)) : Int.log 2 a = k := by
  have hlog := Int.zpow_log_le_self (b := 2) Nat.one_lt_two ha
  have hsucc := Int.lt_zpow_succ_log_self (b := 2) Nat.one_lt_two a
  push_cast at hlog hsucc
  have hupper := (zpow_lt_zpow_iff_right₀ one_lt_two).mp (hlog.trans_lt hlt)
  have hlower := (zpow_lt_zpow_iff_right₀ one_lt_two).mp (hle.trans_lt hsucc)
  omega

/-- The binary logarithm of a natural number bounds it from both sides. -/
theorem mem_binade_log2 {n : Nat} (hn : n ≠ 0) :
    (2 : Rat) ^ (n.log2 : Int) ≤ n ∧ (n : Rat) < (2 : Rat) ^ ((n.log2 : Int) + 1) := by
  constructor
  · exact_mod_cast Nat.log2_self_le hn
  · exact_mod_cast Nat.lt_log2_self

/-- The bit lengths of numerator and denominator place a rational within two binades. -/
theorem mem_binades (ha : 0 < a) :
    (2 : Rat) ^ ((a.num.natAbs.log2 : Int) - a.den.log2 - 1) ≤ a
      ∧ a < (2 : Rat) ^ ((a.num.natAbs.log2 : Int) - a.den.log2 + 1) := by
  have hnum : 0 < a.num := Rat.num_pos.mpr ha
  obtain ⟨hnum_le, hnum_lt⟩ := mem_binade_log2 (n := a.num.natAbs) (by omega)
  obtain ⟨hden_le, hden_lt⟩ := mem_binade_log2 a.den_nz
  have hden : (0 : Rat) < a.den := Nat.cast_pos.mpr a.den_pos
  have hquotient : a = (a.num.natAbs : Rat) / a.den := by
    rw [Nat.cast_natAbs, abs_of_pos hnum, Rat.num_div_den]
  generalize (a.num.natAbs.log2 : Int) = k at *
  generalize (a.den.log2 : Int) = l at *
  rw [hquotient]
  constructor
  · rw [le_div_iff₀ hden]
    calc (2 : Rat) ^ (k - l - 1) * a.den
        ≤ (2 : Rat) ^ (k - l - 1) * (2 : Rat) ^ (l + 1) := by gcongr
      _ = (2 : Rat) ^ k := by rw [← zpow_add₀ two_ne_zero]; congr 1; ring
      _ ≤ a.num.natAbs := hnum_le
  · rw [div_lt_iff₀ hden]
    calc (a.num.natAbs : Rat) < (2 : Rat) ^ (k + 1) := hnum_lt
      _ = (2 : Rat) ^ (k - l + 1) * (2 : Rat) ^ l := by
          rw [← zpow_add₀ two_ne_zero]; congr 1; ring
      _ ≤ (2 : Rat) ^ (k - l + 1) * a.den := by gcongr

/-- **The binary scale is the integer logarithm.** -/
theorem binaryLog_eq_log (ha : 0 < a) : binaryLog a = Int.log 2 a := by
  obtain ⟨hle, hlt⟩ := mem_binades ha
  rw [binaryLog]
  split_ifs with hscale
  · exact (log_eq_of_mem_binade ha hscale hlt).symm
  · refine (log_eq_of_mem_binade ha hle ?_).symm
    rw [sub_add_cancel]
    exact not_le.mp hscale

theorem zpow_binaryLog_le (ha : 0 < a) : (2 : Rat) ^ binaryLog a ≤ a := by
  rw [binaryLog_eq_log ha]
  exact_mod_cast Int.zpow_log_le_self (b := 2) Nat.one_lt_two ha

theorem lt_zpow_binaryLog (ha : 0 < a) : a < (2 : Rat) ^ (binaryLog a + 1) := by
  rw [binaryLog_eq_log ha]
  exact_mod_cast Int.lt_zpow_succ_log_self (b := 2) Nat.one_lt_two a

/-- A larger number has no smaller scale. -/
theorem binaryLog_mono (ha : 0 < a) (h : a ≤ b) : binaryLog a ≤ binaryLog b := by
  rw [binaryLog_eq_log ha, binaryLog_eq_log (ha.trans_le h)]
  exact Int.log_mono_right ha h

end MigrationPlan
