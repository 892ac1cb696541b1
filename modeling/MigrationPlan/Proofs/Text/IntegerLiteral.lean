import MigrationPlan.Proofs.Accepted
import MigrationPlan.Proofs.Text.Characters
import MigrationPlan.Proofs.Text.Split
import MigrationPlan.Text.IntegerLiteral

/-!
# Proofs/Text/IntegerLiteral — the decimal numbers of a list with commas

The decimal digits of a number are read as this number, whatever white space stands around them:
**`readInteger_digits`**.  A text enumerates numbers (`Enumerates`) if it holds items with commas
between, each of them blank or a number that is written so; what counts among the items is read as
the numbers, in their order: **`Enumerates.mapM_readInteger`**.
-/

namespace MigrationPlan.Text

variable {c : Char} {cs ds before after : List Char} {n : Nat}

/-! ## Digits and white space -/

theorem isBlank_of_literalBlank (h : literalBlank c) : isBlank c :=
  (Bool.and_eq_true_iff.mp h).1

theorem ne_of_isDigit (h : isDigit c) : c ≠ '_' ∧ c ≠ '-' ∧ c ≠ '+' ∧ c ≠ ',' := by
  refine ⟨?_, ?_, ?_, ?_⟩ <;> rintro rfl <;> exact absurd h (by decide)

/-- No digit and no underscore goes on with a run of digits. -/
theorem digitRun?_of_forall_isBlank (h : ∀ c ∈ cs, isBlank c) :
    digitRun? isDigit cs = some ([], cs) := by
  rcases cs with _ | ⟨c, cs⟩
  · rfl
  have hc : isBlank c := h c (List.mem_cons_self ..)
  have hunderscore : c ≠ '_' := by
    rintro rfl
    exact absurd hc (by decide)
  rw [digitRun?, if_neg (by simp [isDigit_eq_false_of_isBlank hc])]
  all_goals simp [hunderscore]

/-- **A run of digits ends where white space begins.** -/
theorem digitRun?_append (hds : ∀ d ∈ ds, isDigit d) (hcs : ∀ c ∈ cs, isBlank c) :
    digitRun? isDigit (ds ++ cs) = some (ds, cs) := by
  induction ds with
  | nil => exact digitRun?_of_forall_isBlank hcs
  | cons d ds ih =>
    obtain ⟨hd, hds⟩ := List.forall_mem_cons.mp hds
    rw [List.cons_append, digitRun?, if_pos hd, ih hds, Option.map_some]
    all_goals simp [(ne_of_isDigit hd).1]

/-! ## One number -/

theorem digitsToNat_of_length_le (short : ds.length ≤ digitLimit) :
    digitsToNat ds = .ok (digitsValue ds) :=
  if_neg (Nat.not_lt.mpr short)

/-- The decimal digits of a number begin with a digit. -/
theorem exists_toDigits_eq_cons (n : Nat) : ∃ d ds, Nat.toDigits 10 n = d :: ds ∧ isDigit d := by
  obtain ⟨d, ds, hds⟩ := List.exists_cons_of_ne_nil (Nat.toDigits_ne_nil (b := 10) (n := n))
  exact ⟨d, ds, hds, isDigit_of_mem_toDigits (hds ▸ List.mem_cons_self ..)⟩

/-- **The decimal digits of a number are read as this number**, if they are not too many; white
space around them does not count. -/
theorem readInteger_digits (hbefore : ∀ c ∈ before, literalBlank c)
    (hafter : ∀ c ∈ after, literalBlank c) (short : (Nat.toDigits 10 n).length ≤ digitLimit) :
    readInteger (String.ofList (before ++ Nat.toDigits 10 n ++ after)) = .ok (n : Int) := by
  have hrun : digitRun? isDigit (Nat.toDigits 10 n ++ after) = some (Nat.toDigits 10 n, after) :=
    digitRun?_append (fun d hd => isDigit_of_mem_toDigits hd) fun c hc =>
      isBlank_of_literalBlank (hafter c hc)
  have hvalue : digitsToNat (Nat.toDigits 10 n) = .ok n := by
    rw [digitsToNat_of_length_le short, digitsValue_toDigits]
  obtain ⟨d, ds, hds, hd⟩ := exists_toDigits_eq_cons n
  rw [hds] at hrun hvalue ⊢
  obtain ⟨hunderscore, hminus, hplus, -⟩ := ne_of_isDigit hd
  have hdrop : (before ++ (d :: ds) ++ after).dropWhile literalBlank = d :: ds ++ after := by
    rw [List.append_assoc, List.dropWhile_append_of_pos hbefore, List.cons_append,
      List.dropWhile_cons_of_neg]
    simp [literalBlank, isBlank_eq_false_of_isDigit hd]
  have hsign : splitSign (d :: ds ++ after) = (false, d :: ds ++ after) := by
    rw [List.cons_append, splitSign]
    all_goals simp [hminus, hplus]
  have hhead : (d :: ds ++ after).head? ≠ some '_' := by simp [hunderscore]
  have hleft : after.all literalBlank := List.all_eq_true.mpr hafter
  simp only [readInteger, String.toList_ofList, hdrop, hsign, if_neg hhead, hrun, hvalue,
    if_pos hleft]
  rfl

/-! ## Several numbers -/

/-- **Items that stand for a list of numbers**: the decimal digits of each number, in their order,
with white space around them, and blank items anywhere. -/
inductive Itemizes : List (List Char) → List Nat → Prop
  | nil : Itemizes [] []
  | blank {item : List Char} {items : List (List Char)} {is : List Nat} :
      (∀ c ∈ item, isBlank c) → Itemizes items is → Itemizes (item :: items) is
  | number {before after : List Char} {i : Nat} {items : List (List Char)} {is : List Nat} :
      (∀ c ∈ before, literalBlank c) → (∀ c ∈ after, literalBlank c) → Itemizes items is →
        Itemizes ((before ++ Nat.toDigits 10 i ++ after) :: items) (i :: is)

namespace Itemizes

variable {item : List Char} {items : List (List Char)} {is : List Nat}

/-- An item holds digits and white space only. -/
theorem isBlank_or_isDigit (h : Itemizes items is) (hitem : item ∈ items) (hc : c ∈ item) :
    isBlank c ∨ isDigit c := by
  induction h with
  | nil => exact absurd hitem List.not_mem_nil
  | blank hblank _ ih =>
    obtain rfl | hitem := List.mem_cons.mp hitem
    · exact .inl (hblank c hc)
    · exact ih hitem
  | number hbefore hafter _ ih =>
    obtain rfl | hitem := List.mem_cons.mp hitem
    · obtain (hc | hc) | hc : (_ ∨ _) ∨ _ := by simpa only [List.mem_append] using hc
      · exact .inl (isBlank_of_literalBlank (hbefore c hc))
      · exact .inr (isDigit_of_mem_toDigits hc)
      · exact .inl (isBlank_of_literalBlank (hafter c hc))
    · exact ih hitem

/-- The items that count are read as the numbers. -/
theorem mapM_readInteger (h : Itemizes items is)
    (short : ∀ i ∈ is, (Nat.toDigits 10 i).length ≤ digitLimit) :
    ((items.filter fun item => !item.all isBlank).mapM fun item =>
      readInteger (String.ofList item)) = .ok (is.map Int.ofNat) := by
  induction h with
  | nil => rfl
  | blank hblank _ ih =>
    rw [List.filter_cons_of_neg (by simpa using hblank)]
    exact ih short
  | @number before after i items is hbefore hafter _ ih =>
    obtain ⟨hi, short⟩ := List.forall_mem_cons.mp short
    -- the first digit is no blank, so that the item counts
    obtain ⟨d, ds, hds, hd⟩ := exists_toDigits_eq_cons i
    have hcounts : (before ++ Nat.toDigits 10 i ++ after).all isBlank = false := by
      simp [hds, isBlank_eq_false_of_isDigit hd]
    rw [List.filter_cons_of_pos (by simp only [hcounts, Bool.not_false]), List.mapM_cons,
      readInteger_digits hbefore hafter hi, ok_bind, ih short]
    rfl

end Itemizes

/-- **A text that enumerates numbers**: items that stand for them, with commas between. -/
def Enumerates (text : String) (is : List Nat) : Prop :=
  ∃ items, Itemizes items is ∧ String.ofList (join ',' items) = text

namespace Enumerates

variable {text : String} {is : List Nat}

/-- It holds commas, white space and digits. -/
theorem of_mem (h : Enumerates text is) (hc : c ∈ text.toList) :
    c = ',' ∨ isBlank c ∨ isDigit c := by
  obtain ⟨items, hitems, rfl⟩ := h
  rw [String.toList_ofList] at hc
  exact (mem_join hc).imp_right fun ⟨_, hitem, hc⟩ => hitems.isBlank_or_isDigit hitem hc

/-- **The numbers are read in their order.** -/
theorem mapM_readInteger (h : Enumerates text is)
    (short : ∀ i ∈ is, (Nat.toDigits 10 i).length ≤ digitLimit) :
    (((split ',' text.toList).filter fun item => !item.all isBlank).mapM fun item =>
      readInteger (String.ofList item)) = .ok (is.map Int.ofNat) := by
  obtain ⟨items, hitems, rfl⟩ := h
  rw [String.toList_ofList]
  by_cases hnil : items = []
  · subst hnil
    cases hitems
    rfl
  have plain (item : List Char) (hitem : item ∈ items) : ',' ∉ item := fun hcomma => by
    obtain hblank | hdigit := hitems.isBlank_or_isDigit hitem hcomma
    · exact absurd hblank (by decide)
    · exact absurd hdigit (by decide)
  rw [split_join hnil plain]
  exact hitems.mapM_readInteger short

end Enumerates

end MigrationPlan.Text
