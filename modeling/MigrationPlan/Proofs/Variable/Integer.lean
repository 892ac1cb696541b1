import MigrationPlan.Proofs.Datum.Reading
import MigrationPlan.Proofs.Numeric.Signed
import MigrationPlan.Proofs.Numeric.Whole
import MigrationPlan.Proofs.Variable.Access

/-!
# Proofs/Variable/Integer — which integer is read after one is written

An integer variable compares an integer with its bounds as it is, and keeps it
(`integer_of_setInt`).  A real variable does both with the nearest double (`real_of_setInt`), which
is an integer again (`Binary64.exists_ofInt?`), and is the one that was written wherever doubles
reach every integer.  The main statement is **`asInt_of_setInt`**; `asInt_setInt_beyond_doubles`
shows what rounding does to an integer that is no double, and to its place between the bounds.
-/

namespace MigrationPlan

/-- **The double of an integer is an integer.** -/
theorem Binary64.exists_ofInt? {i : Int} {x : Binary64} (h : ofInt? i = .ok x) :
    ∃ d : Int, ofInt i = x ∧ x.extended? = some (.point d) ∧ Extended.nearest i = .point d
      ∧ roundSigned i = d := by
  obtain ⟨hfinite, rfl⟩ : (ofInt i).isFinite ∧ ofInt i = x := by
    simpa only [ofInt?, require_eq_ok, Except.ok.injEq] using h
  have hpoint := extended?_eq_point.mpr ⟨hfinite, rfl⟩
  have hnearest : Extended.nearest i = .point (ofInt i).toRat :=
    Option.some.inj ((extended?_ofRat_eq i).symm.trans hpoint)
  have hround := Extended.roundSigned_eq_of_nearest hnearest
  obtain ⟨d, hd⟩ := exists_roundSigned_intCast i
  rw [← hround, hd] at hpoint hnearest
  exact ⟨d, rfl, hpoint, hnearest, hd⟩

namespace Variable

variable {v w : Variable} {r : RealVariable} {x : Number} {k : Int}

/-- An integer that lies, as it is, between the bounds of a variable; only reals and integers have
bounds. -/
def Spans (v : Variable) (i : Int) : Prop :=
  match v with
  | real r => (Number.real r.lower).le (.whole i) ∧ (Number.whole i).le (.real r.upper)
  | integer n => ∃ l u, n.lower = .number l ∧ n.upper = .number u ∧ l.le (.whole i)
      ∧ (Number.whole i).le u
  | _ => False

/-- What passes the check of a whole number is the number. -/
theorem eq_of_checkInt_number {i : Int} (hk : x.whole? = some k)
    (h : checkInt v (.number x) = .ok i) : k = i := by
  have hread : x.toInt? = .ok k :=
    (Number.toInt?_eq_ok_iff_extended?.mpr (Number.extended?_of_whole? hk)).2
  cases v with
  | real r =>
    obtain ⟨-, -, hi⟩ := checkInt_real_eq_ok.mp h
    exact Except.ok.inj (hread.symm.trans hi)
  | integer n =>
    obtain ⟨-, e, he, -, hi⟩ := checkInt_integer_eq_ok.mp h
    obtain rfl := Except.ok.inj he
    exact Except.ok.inj (hread.symm.trans hi)
  | _ => simp [checkInt, bind_eq_ok] at h

/-- **An integer variable keeps an integer between its bounds.** -/
theorem integer_of_setInt {n : IntegerVariable} (hk : x.whole? = some k)
    (h : (integer n).setInt (.number x) = .ok w) :
    (integer n).Spans k ∧ integer { n with value := .number (.whole k) } = w := by
  obtain ⟨i, hi, ⟨n', hn, rfl⟩ | hreal⟩ := setInt_eq_ok.mp h
  · obtain rfl := eq_of_checkInt_number hk hi
    obtain rfl := Variable.integer.inj hn
    obtain ⟨-, e, he, hwithin, -⟩ := checkInt_integer_eq_ok.mp hi
    obtain rfl := Except.ok.inj he
    obtain ⟨l, u, hl, hu, hlower, hupper⟩ := Entry.number_within?_eq_true.mp hwithin
    have hstands : x.extended? = (Number.whole k).extended? := Number.extended?_of_whole? hk
    rw [Number.le, hstands, ← Number.le] at hlower hupper
    exact ⟨⟨l, u, hl, hu, hlower, hupper⟩, rfl⟩
  · obtain ⟨r, hr, -⟩ := setReal_eq_ok.mp hreal
    cases hr

/-- **A real variable keeps the double of an integer, if that lies between its bounds.** -/
theorem real_of_setInt (hk : x.whole? = some k) (h : (real r).setInt (.number x) = .ok w) :
    ∃ y, Binary64.ofInt? k = .ok y ∧ (r.lower.le y ∧ y.le r.upper)
      ∧ real { r with value := .real y } = w := by
  obtain ⟨i, hi, ⟨n, hn, -⟩ | hreal⟩ := setInt_eq_ok.mp h
  · cases hn
  · obtain rfl := eq_of_checkInt_number hk hi
    obtain ⟨r', hr, y, hy, rfl⟩ := setReal_eq_ok.mp hreal
    obtain rfl := Variable.real.inj hr
    obtain ⟨hread, hbounds⟩ := checkReal_eq_ok.mp hy
    exact ⟨y, hread, hbounds, rfl⟩

/-- **The double of an integer lies where the integer lies**, unless it is the bound that the
integer lies beyond. -/
theorem spans_or_eq_bound {y : Binary64} {d : Int} (hy : y.extended? = some (.point d))
    (hround : Extended.nearest k = .point d) (hlower : r.lower.le y) (hupper : y.le r.upper) :
    (real r).Spans d
      ∧ (¬(Number.real r.lower).le (.whole k) → r.lower.extended? = some (.point d))
      ∧ (¬(Number.whole k).le (.real r.upper) → r.upper.extended? = some (.point d)) := by
  obtain ⟨l, _, hl, hy', hld⟩ := Binary64.exists_extended?_of_le hlower
  obtain rfl := Option.some.inj (hy'.symm.trans hy)
  obtain ⟨_, u, hy', hu, hdu⟩ := Binary64.exists_extended?_of_le hupper
  obtain rfl := Option.some.inj (hy'.symm.trans hy)
  have hle_lower (i : Int) : (Number.real r.lower).le (.whole i) = l.le (.point i) := by
    rw [Number.le, show (Number.real r.lower).extended? = some l from hl]
    rfl
  have hle_upper (i : Int) : (Number.whole i).le (.real r.upper) = (Extended.point i).le u := by
    rw [Number.le, show (Number.real r.upper).extended? = some u from hu]
    rfl
  refine ⟨⟨(hle_lower d).trans hld, (hle_upper d).trans hdu⟩, fun hbelow => ?_, fun habove => ?_⟩
  · rw [hle_lower] at hbelow
    have hkl := (Extended.le_total _ _).resolve_right hbelow
    rw [hl, Binary64.eq_of_between hl hround (.inr ⟨hkl, hld⟩)]
  · rw [hle_upper] at habove
    have huk := (Extended.le_total _ _).resolve_right habove
    rw [hu, Binary64.eq_of_between hu hround (.inl ⟨hdu, huk⟩)]

/-- **What is read after an integer was written.**  It is an integer `d` that lies exactly between
the bounds.  An integer variable gives back what was written.  A real variable gives back its
double: no double is nearer to `k` than `d`, ties go as `Binary64.ofInt` has them, and `d` is `k` if
`k` is a double, as it is up to `2 ^ 53`; a `k` that is not itself between the bounds was rounded to
the bound that it lies beyond. -/
theorem asInt_of_setInt (hk : x.whole? = some k) (h : v.setInt (.number x) = .ok w) :
    ∃ d : Int, w.asInt = .ok d ∧ v.Spans d
      ∧ (∀ n, v = integer n → d = k)
      ∧ ∀ r, v = real r →
        (Binary64.ofInt k).extended? = some (.point d)
          ∧ (∀ (y : Binary64) (q : Rat), y.extended? = some (.point q) →
            |(d : Rat) - k| ≤ |q - k|)
          ∧ ((∃ y : Binary64, y.extended? = some (.point k)) → d = k)
          ∧ (|k| ≤ 2 ^ 53 → d = k)
          ∧ (¬(Number.real r.lower).le (.whole k) → r.lower.extended? = some (.point d))
          ∧ (¬(Number.whole k).le (.real r.upper) → r.upper.extended? = some (.point d)) := by
  cases v with
  | integer n =>
    obtain ⟨hspans, rfl⟩ := integer_of_setInt hk h
    refine ⟨k, rfl, hspans, fun _ _ => rfl, ?_⟩
    rintro r ⟨⟩
  | real r =>
    obtain ⟨y, hy, ⟨hlower, hupper⟩, rfl⟩ := real_of_setInt hk h
    obtain ⟨d, rfl, hpoint, hnearest, hround⟩ := Binary64.exists_ofInt? hy
    obtain ⟨hspans, hbelow, habove⟩ := spans_or_eq_bound hpoint hnearest hlower hupper
    have hread : (Binary64.ofInt k).floor? = .ok d := by
      rw [Binary64.floor?_of_extended? hpoint, Int.floor_intCast]
    refine ⟨d, hread, hspans, ?_, ?_⟩
    · rintro n ⟨⟩
    rintro _ ⟨⟩
    refine ⟨hpoint, fun y q hq => ?_, fun ⟨y, hy⟩ => ?_, fun hsmall => ?_, hbelow, habove⟩
    · rw [← hround]
      exact abs_roundSigned_sub_le (Binary64.isRepresentable_abs hq) k
    · have hexact := hnearest.symm.trans (Binary64.nearest_of_extended? hy)
      exact Int.cast_injective (Extended.point.inj hexact)
    · rw [roundSigned_intCast_of_abs_le hsmall] at hround
      exact (Int.cast_injective hround).symm
  | binary b | subset s | permutation p =>
    obtain ⟨i, hi, -⟩ := setInt_eq_ok.mp h
    simp [checkInt, bind_eq_ok] at hi

/-- A real variable from zero up to `2 ^ 53`, which the next integer is rounded to. -/
def upToLimit : RealVariable :=
  ⟨0, .ofInt (2 ^ 53), .real 0⟩

theorem asInt_of_setInt_upToLimit :
    (Number.whole (2 ^ 53 + 1)).whole? = some (2 ^ 53 + 1)
      ∧ (real upToLimit).setInt (.whole (2 ^ 53 + 1))
        = .ok (real { upToLimit with value := .real (.ofInt (2 ^ 53)) })
      ∧ ∃ d : Int, (real { upToLimit with value := .real (.ofInt (2 ^ 53)) }).asInt = .ok d
        ∧ (real upToLimit).Spans d ∧ upToLimit.upper.extended? = some (.point d) := by
  have hwrite : (real upToLimit).setInt (.whole (2 ^ 53 + 1))
      = .ok (real { upToLimit with value := .real (.ofInt (2 ^ 53)) }) := by decide +kernel
  obtain ⟨d, hread, hspans, -, hreal⟩ := asInt_of_setInt rfl hwrite
  obtain ⟨-, -, -, -, -, habove⟩ := hreal upToLimit rfl
  exact ⟨rfl, hwrite, d, hread, hspans, habove (by decide +kernel)⟩

/-- **Not every integer that is written is read**, nor does it always lie between the bounds. -/
theorem asInt_setInt_beyond_doubles :
    (∃ w, (real ⟨0, .ofInt (2 ^ 54), .real 0⟩).setInt (.whole (2 ^ 53 + 1)) = .ok w
        ∧ w.asInt = .ok (2 ^ 53))
      ∧ ∃ w, (real upToLimit).setInt (.whole (2 ^ 53 + 1)) = .ok w
        ∧ ¬(real upToLimit).Spans (2 ^ 53 + 1) := by
  have hfails : (Number.whole (2 ^ 53 + 1)).le (.real upToLimit.upper) = false := by
    decide +kernel
  refine ⟨⟨real ⟨0, .ofInt (2 ^ 54), .real (.ofInt (2 ^ 53))⟩, ?_, ?_⟩,
    ⟨real { upToLimit with value := .real (.ofInt (2 ^ 53)) }, ?_, fun hspans => ?_⟩⟩
  · decide +kernel
  · decide +kernel
  · decide +kernel
  · exact Bool.false_ne_true (hfails.symm.trans hspans.2)

end Variable

end MigrationPlan
