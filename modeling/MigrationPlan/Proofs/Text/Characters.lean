import MigrationPlan.Text.Characters
import Mathlib.Data.List.Basic
import Mathlib.Data.List.TakeWhile

/-!
# Proofs/Text/Characters — blanks, digits, and what trimming leaves

No character is both a blank and a digit, so a run of the one ends where the other begins.
`head?_trim` and `trim_append` say what trimming leaves of a line; `digitsValue_toDigits` says that
the decimal digits of a number spell this number.
-/

namespace MigrationPlan.Text

/-! ## The two classes are disjoint -/

theorem isDigit_iff {c : Char} :
    isDigit c ↔ ∃ z ∈ digitZeros, z ≤ c.toNat ∧ c.toNat < z + 10 := by
  simp [isDigit, digitValue?]

theorem isBlank_iff {c : Char} : isBlank c ↔ ∃ r ∈ blankRanges, r.1 ≤ c.toNat ∧ c.toNat ≤ r.2 := by
  simp [isBlank, Ranges.contain]

/-- **A digit is no blank.** -/
theorem isBlank_eq_false_of_isDigit {c : Char} (h : isDigit c) : isBlank c = false := by
  obtain ⟨z, hz, hlow, hhigh⟩ := isDigit_iff.mp h
  refine Bool.eq_false_iff.mpr fun hblank => ?_
  obtain ⟨r, hr, hfrom, hto⟩ := isBlank_iff.mp hblank
  have hapart : ∀ z ∈ digitZeros, ∀ r ∈ blankRanges, r.2 < z ∨ z + 10 ≤ r.1 := by decide
  rcases hapart z hz r hr with hr | hr <;> omega

/-- **A blank is no digit.** -/
theorem isDigit_eq_false_of_isBlank {c : Char} (h : isBlank c) : isDigit c = false := by
  refine Bool.eq_false_iff.mpr fun hdigit => ?_
  rw [isBlank_eq_false_of_isDigit hdigit] at h
  exact Bool.false_ne_true h

/-! ## Trimming -/

theorem trimStart_append {bs cs : List Char} (h : ∀ b ∈ bs, isBlank b) :
    trimStart (bs ++ cs) = trimStart cs :=
  List.dropWhile_append_of_pos h

theorem trimStart_cons {c : Char} {cs : List Char} (h : isBlank c = false) :
    trimStart (c :: cs) = c :: cs := by
  simp [trimStart, h]

/-- Blanks before a text do not count. -/
theorem trim_append {bs cs : List Char} (h : ∀ b ∈ bs, isBlank b) : trim (bs ++ cs) = trim cs := by
  rw [trim, trim, trimStart_append h]

/-- Nor do blanks behind it. -/
theorem trim_append_right {bs cs : List Char} (h : ∀ b ∈ bs, isBlank b) :
    trim (cs ++ bs) = trim cs := by
  have hblank : trimStart bs = [] := List.dropWhile_eq_nil_iff.mpr h
  have hreverse : ∀ b ∈ bs.reverse, isBlank b := fun b hb => h b (List.mem_reverse.mp hb)
  have happend : trimStart (cs ++ bs) = if (trimStart cs).isEmpty then trimStart bs
      else trimStart cs ++ bs := List.dropWhile_append
  rw [trim, happend, trim]
  split_ifs with hempty
  · rw [hblank, List.isEmpty_iff.mp hempty]
  · rw [List.reverse_append, trimStart_append hreverse]

/-- **A text that neither starts nor ends with a blank stays as it is.** -/
theorem trim_eq_self {first middle last : List Char} (hfirst : first.head?.any fun c => !isBlank c)
    (hlast : last.getLast?.any fun c => !isBlank c) :
    trim (first ++ (middle ++ last)) = first ++ (middle ++ last) := by
  obtain ⟨c, hc, hcblank⟩ := (Option.any_eq_true _ _).mp hfirst
  obtain ⟨d, hd, hdblank⟩ := (Option.any_eq_true _ _).mp hlast
  obtain ⟨first, rfl⟩ := List.head?_eq_some_iff.mp hc
  obtain ⟨last, rfl⟩ := List.getLast?_eq_some_iff.mp hd
  have hend : (c :: first ++ (middle ++ (last ++ [d]))).reverse
      = d :: (c :: first ++ (middle ++ last)).reverse := by simp
  rw [trim, List.cons_append, trimStart_cons (by simpa using hcblank), ← List.cons_append, hend,
    trimStart_cons (by simpa using hdblank), ← hend, List.reverse_reverse]

/-- The first character that is no blank comes first. -/
theorem head?_trim (cs : List Char) : (trim cs).head? = cs.find? fun c => !isBlank c := by
  induction cs with
  | nil => rfl
  | cons c cs ih =>
    by_cases hc : isBlank c
    · have hblank : ∀ b ∈ [c], isBlank b := by simpa using hc
      have htrim : trim (c :: cs) = trim cs := trim_append hblank
      rw [List.find?_cons_of_neg (by simp [hc]), ← ih, htrim]
    · have hc : isBlank c = false := by simpa using hc
      rw [List.find?_cons_of_pos (by simp [hc]), trim, trimStart_cons hc, List.reverse_cons,
        trimStart, List.dropWhile_append]
      split <;> simp [hc]

/-- What is left is a part of the text. -/
theorem isInfix_trim (cs : List Char) : trim cs <:+: cs := by
  have hstart : trimStart cs <:+: cs := (List.dropWhile_suffix _).isInfix
  have hend : trimStart (trimStart cs).reverse <:+: (trimStart cs).reverse :=
    (List.dropWhile_suffix _).isInfix
  exact (List.reverse_infix.mp (by simpa [trim] using hend)).trans hstart

/-! ## Decimal digits of a number -/

theorem digitValue?_of_isDigit {c : Char} (h : c.isDigit) :
    digitValue? c = some (c.toNat - '0'.toNat) := by
  have hrange : 0x30 ≤ c.toNat ∧ c.toNat < 0x30 + 10 := by
    simp only [Char.isDigit, Bool.and_eq_true, decide_eq_true_eq, ge_iff_le,
      UInt32.le_iff_toNat_le] at h
    exact ⟨h.1, Nat.lt_succ_of_le h.2⟩
  rw [digitValue?, digitZeros, List.find?_cons_of_pos (by simpa using hrange)]
  rfl

theorem isDigit_of_mem_toDigits {c : Char} {n : Nat} (h : c ∈ Nat.toDigits 10 n) : isDigit c := by
  rw [isDigit, digitValue?_of_isDigit (Nat.isDigit_of_mem_toDigits (by decide) (by decide) h)]
  rfl

theorem getLast?_toDigits (n : Nat) : (Nat.toDigits 10 n).getLast?.any fun c => !isBlank c := by
  have hne : Nat.toDigits 10 n ≠ [] := Nat.toDigits_ne_nil
  have hblank := isBlank_eq_false_of_isDigit (isDigit_of_mem_toDigits (List.getLast_mem hne))
  rw [List.getLast?_eq_some_getLast hne, Option.any_some, hblank]
  rfl

/-- **The decimal digits of a number spell it.** -/
theorem digitsValue_toDigits (n : Nat) : digitsValue (Nat.toDigits 10 n) = n := by
  have hstep : ∀ c ∈ Nat.toDigits 10 n, ∀ k : Nat,
      10 * k + (digitValue? c).getD 0 = 10 * k + (c.toNat - '0'.toNat) := fun c hc k => by
    rw [digitValue?_of_isDigit (Nat.isDigit_of_mem_toDigits (by decide) (by decide) hc)]
    rfl
  calc digitsValue (Nat.toDigits 10 n)
      = (Nat.toDigits 10 n).foldl (fun k c => 10 * k + (c.toNat - '0'.toNat)) 0 :=
        List.foldl_ext _ _ _ fun k c hc => hstep c hc k
    _ = n := Nat.ofDigitChars_ten_toDigits

end MigrationPlan.Text
