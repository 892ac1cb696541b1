import MigrationPlan.Proofs.Accepted
import MigrationPlan.Variable.Access

/-!
# Proofs/Variable/Access — what each write needs, and what it leaves

One statement per write: it succeeds exactly if the variable is of its kind and the value passes its
checks, and then it changes the value of the variable and nothing else of it.  Callers go through
these statements and unfold no accessor.
-/

namespace MigrationPlan.Variable

variable {v w source target : Variable} {d : Datum}

/-! ## Kinds -/

@[simp] theorem real?_eq_ok {r : RealVariable} : v.real? = .ok r ↔ v = real r := by
  cases v <;> simp [real?]

@[simp] theorem binary?_eq_ok {b : BinaryVariable} : v.binary? = .ok b ↔ v = binary b := by
  cases v <;> simp [binary?]

@[simp] theorem subset?_eq_ok {s : SubsetVariable} : v.subset? = .ok s ↔ v = subset s := by
  cases v <;> simp [subset?]

@[simp] theorem permutation?_eq_ok {p : PermutationVariable} :
    v.permutation? = .ok p ↔ v = permutation p := by
  cases v <;> simp [permutation?]

/-! ## Reals and integers -/

/-- A value passes its check if its double lies between the bounds. -/
theorem checkReal_eq_ok {r : RealVariable} {x : Binary64} :
    checkReal r d = .ok x ↔ d.toReal? = .ok x ∧ r.lower.le x ∧ x.le r.upper := by
  simp only [checkReal, bind_eq_ok, require_eq_ok, Bool.and_eq_true, Except.ok.injEq]
  constructor
  · rintro ⟨_, hx, hbounds, rfl⟩
    exact ⟨hx, hbounds⟩
  · rintro ⟨hx, hbounds⟩
    exact ⟨x, hx, hbounds, rfl⟩

/-- A double that passes its check lies between the bounds. -/
theorem bounds_of_checkReal {r : RealVariable} {x : Binary64} (h : checkReal r d = .ok x) :
    r.lower.le x ∧ x.le r.upper :=
  (checkReal_eq_ok.mp h).2

theorem setReal_eq_ok :
    v.setReal d = .ok w ↔
      ∃ r, v = real r ∧ ∃ x, checkReal r d = .ok x ∧ real { r with value := .real x } = w := by
  simp only [setReal, bind_eq_ok, real?_eq_ok, Except.ok.injEq]

/-- The number that is compared with the bounds has no fractional part. -/
theorem checkInt_integer_eq_ok {n : IntegerVariable} {i : Int} :
    checkInt (integer n) d = .ok i ↔
      d.refuseFraction = .ok () ∧ ∃ x, d.entry? = .ok x ∧ x.within? n.lower n.upper = .ok true
        ∧ x.toInt? = .ok i := by
  simp only [checkInt, bind_eq_ok, require_eq_ok]
  constructor
  · rintro ⟨_, hfraction, x, hx, _, hwithin, rfl, hi⟩
    exact ⟨hfraction, x, hx, hwithin, hi⟩
  · rintro ⟨hfraction, x, hx, hwithin, hi⟩
    exact ⟨(), hfraction, x, hx, true, hwithin, rfl, hi⟩

/-- A real variable compares the double of the number with its bounds. -/
theorem checkInt_real_eq_ok {r : RealVariable} {i : Int} :
    checkInt (real r) d = .ok i ↔
      d.refuseFraction = .ok () ∧ (∃ x, checkReal r d = .ok x) ∧ d.toInt? = .ok i := by
  simp only [checkInt, bind_eq_ok]
  constructor
  · rintro ⟨_, hfraction, x, hx, hi⟩
    exact ⟨hfraction, ⟨x, hx⟩, hi⟩
  · rintro ⟨hfraction, ⟨x, hx⟩, hi⟩
    exact ⟨(), hfraction, x, hx, hi⟩

/-- An integer that passes its check is stored as it is, or as its double in a real. -/
theorem setInt_eq_ok :
    v.setInt d = .ok w ↔
      ∃ i, checkInt v d = .ok i ∧
        ((∃ n, v = integer n ∧ integer { n with value := .number (.whole i) } = w)
          ∨ v.setReal (.whole i) = .ok w) := by
  simp only [setInt, bind_eq_ok]
  refine exists_congr fun i => and_congr_right fun _ => ?_
  cases v with
  | integer n => simp [setReal_eq_ok]
  | _ => simp

/-! ## Bits -/

theorem setBinary_eq_ok :
    v.setBinary d = .ok w ↔
      ∃ b, v = binary b ∧ ∃ sides bits, d.bits? = .ok (sides, bits) ∧ sides = [b.length]
        ∧ binary ⟨bits⟩ = w := by
  simp only [setBinary, bind_eq_ok, binary?_eq_ok, require_eq_ok, Except.ok.injEq, Prod.exists]

theorem setBitset_eq_ok :
    v.setBitset d = .ok w ↔
      ∃ b, v = binary b ∧ ∃ items, d.items? = .ok items
        ∧ ∃ is, items.mapM Datum.toInt? = .ok is ∧ (∀ i ∈ is, 0 ≤ i ∧ i < b.length)
          ∧ binary ⟨bitsAt b.length is⟩ = w := by
  have hinside (b : BinaryVariable) (is : List Int) :
      ¬(is.any fun i => i < 0 || b.length ≤ i) = true ↔ ∀ i ∈ is, 0 ≤ i ∧ i < b.length := by
    simp
  simp only [setBitset, bind_eq_ok, binary?_eq_ok, refuse_eq_ok, hinside, Except.ok.injEq]

theorem setBoolean_eq_ok {x : Bool} :
    v.setBoolean x = .ok w ↔ ∃ b, v = binary ⟨[b]⟩ ∧ binary ⟨[x]⟩ = w := by
  simp only [setBoolean, boolean?, bind_eq_ok, binary?_eq_ok, Except.ok.injEq]
  constructor
  · rintro ⟨b, ⟨⟨bits⟩, rfl, hb⟩, hw⟩
    match bits with
    | [c] => exact ⟨c, rfl, hw⟩
    | [] | _ :: _ :: _ => simp at hb
  · rintro ⟨b, rfl, hw⟩
    exact ⟨b, ⟨⟨[b]⟩, rfl, rfl⟩, hw⟩

/-! ## Subsets and permutations -/

theorem setSubset_eq_ok :
    v.setSubset d = .ok w ↔
      ∃ s, v = subset s ∧ ∃ items, d.items? = .ok items
        ∧ ∃ is, items.mapM Datum.toInt? = .ok is ∧ (memberList is).length = is.length
          ∧ SubsetVariable.isOverfull { s with members := memberList is } = false
          ∧ (∀ m ∈ memberList is, s.isSelectable m)
          ∧ subset { s with members := memberList is } = w := by
  have hinside (s : SubsetVariable) (is : List Int) :
      ((memberList is).filter fun m => !s.isSelectable m).isEmpty = true
        ↔ ∀ m ∈ memberList is, s.isSelectable m := by
    simp [List.filter_eq_nil_iff]
  simp only [setSubset, bind_eq_ok, subset?_eq_ok, error_bind, refuse_eq_ok, require_eq_ok, hinside,
    Except.ok.injEq, not_not, ne_eq, Bool.not_eq_true]

theorem setPermutation_eq_ok :
    v.setPermutation d = .ok w ↔
      ∃ p, v = permutation p ∧ ∃ order, PermutationVariable.order? p.length d = .ok order
        ∧ permutation { p with order } = w := by
  simp only [setPermutation, bind_eq_ok, permutation?_eq_ok, Except.ok.injEq]

/-! ## From real to bits and back -/

theorem encodeInto_eq_ok {gray : Bool} :
    source.encodeInto target gray = .ok w ↔
      ∃ r, source = real r ∧ ∃ b, target = binary b
        ∧ ∃ bits, Codec.encodeReal r.value (.real r.lower) (.real r.upper) b.length gray = .ok bits
          ∧ binary ⟨bits⟩ = w := by
  simp only [encodeInto, bind_eq_ok, real?_eq_ok, binary?_eq_ok, Except.ok.injEq]

theorem decodeInto_eq_ok {gray : Bool} :
    source.decodeInto target gray = .ok w ↔
      ∃ b, source = binary b ∧ ∃ r, target = real r
        ∧ ∃ value, Codec.decodeReal b.bits (.real r.lower) (.real r.upper) gray = .ok value
          ∧ real { r with value } = w := by
  simp only [decodeInto, bind_eq_ok, real?_eq_ok, binary?_eq_ok, Except.ok.injEq]

end MigrationPlan.Variable
