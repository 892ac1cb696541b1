import MigrationPlan.Proofs.Datum.Reading
import MigrationPlan.Proofs.Numeric.Whole
import MigrationPlan.Variable.Basic

/-!
# Proofs/Variable/Creation — what a variable is made from

One statement per way of making a variable: it succeeds exactly if what is handed over passes the
checks, and then the variable has these bounds and this value.
-/

namespace MigrationPlan

namespace RealVariable

/-- Bounds are finite doubles in order; the value is the lower bound, or a given number between the
two. -/
theorem create_eq_ok {lower upper : Datum} {value : Option Datum} {v : RealVariable} :
    create lower upper value = .ok v ↔
      ∃ l, lower.toReal? = .ok l ∧ ∃ u, upper.toReal? = .ok u ∧ l.isFinite ∧ u.isFinite
        ∧ u.lt l = false
        ∧ match value with
          | none => ⟨l, u, .real l⟩ = v
          | some d => ∃ x, d.number? = .ok x ∧ ∃ nan, x.isNan? = .ok nan
            ∧ if nan then ⟨l, u, .real l⟩ = v
              else ((Number.real l).le x ∧ x.le (.real u)) ∧ ⟨l, u, x⟩ = v := by
  have hbounds (l u : Binary64) : ¬(!(l.isFinite && u.isFinite) || u.lt l) = true
      ↔ l.isFinite ∧ u.isFinite ∧ u.lt l = false := by
    cases l.isFinite <;> cases u.isFinite <;> simp
  simp only [create, bind_eq_ok, error_bind, refuse_eq_ok, hbounds, and_assoc]
  refine exists_congr fun l => and_congr_right fun _ => exists_congr fun u => and_congr_right
    fun _ => and_congr_right fun _ => and_congr_right fun _ => and_congr_right fun _ => ?_
  cases value with
  | none => simp
  | some d =>
    simp only [bind_eq_ok]
    refine exists_congr fun x => and_congr_right fun _ => exists_congr fun nan =>
      and_congr_right fun _ => ?_
    cases nan <;> simp [require_eq_ok, and_assoc]

end RealVariable

namespace IntegerVariable

/-- Bounds are entries in order; the value is the lower bound, or a given one between the two. -/
theorem create_eq_ok {lower upper : Datum} {value : Option Datum} {v : IntegerVariable} :
    create lower upper value = .ok v ↔
      ∃ l, lower.entry? = .ok l ∧ ∃ u, upper.entry? = .ok u ∧ u.lt? l = .ok false
        ∧ match value with
          | none => ⟨l, u, l⟩ = v
          | some d => ∃ x, d.entry? = .ok x ∧ x.within? l u = .ok true ∧ ⟨l, u, x⟩ = v := by
  simp only [create, bind_eq_ok, error_bind, refuse_eq_ok]
  refine exists_congr fun l => and_congr_right fun _ => exists_congr fun u => and_congr_right
    fun _ => ?_
  cases value with
  | none => simp
  | some d => simp [bind_eq_ok, require_eq_ok]

theorem new_eq_ok {lower upper : Datum} {v : IntegerVariable} :
    new lower upper = .ok v ↔
      ∃ l, lower.toInt? = .ok l ∧ ∃ u, upper.toInt? = .ok u
        ∧ create (.whole l) (.whole u) none = .ok v := by
  simp only [new, bind_eq_ok]

end IntegerVariable

namespace BinaryVariable

theorem create_eq_ok {array : Datum} {v : BinaryVariable} :
    create array = .ok v ↔
      ∃ sides bits, array.bits? = .ok (sides, bits) ∧ sides.length = 1 ∧ bits ≠ []
        ∧ ⟨bits⟩ = v := by
  simp [create, bind_eq_ok, require_eq_ok, and_assoc]

theorem new_eq_ok [Memory] {length : Datum} {v : BinaryVariable} :
    new length = .ok v ↔
      ∃ n, length.number? = .ok n ∧ n.lt (.whole 1) = false
        ∧ ∃ count, newSide? 1 length = .ok count ∧ ⟨List.replicate count false⟩ = v := by
  simp only [new, bind_eq_ok, error_bind, refuse_eq_ok, Bool.not_eq_true, Except.ok.injEq]

end BinaryVariable

namespace SubsetVariable

section Checks

variable {v : SubsetVariable} {c l u m : Int}

theorem isOverfull_eq_false_iff (h : v.capacity.whole? = some c) :
    v.isOverfull = false ↔ v.members.length ≤ c := by
  rw [isOverfull, Number.lt_of_whole? h rfl, decide_eq_false_iff_not, not_lt]

theorem isSelectable_iff (hl : v.lower.whole? = some l) (hu : v.upper.whole? = some u) :
    v.isSelectable m ↔ l ≤ m ∧ m < u := by
  rw [isSelectable, Number.lt_of_whole? rfl hl, Number.le_of_whole? hu rfl]
  simp

end Checks

/-- The range is in order, and the capacity is between zero and its length. -/
theorem checkCapacity_eq_ok {capacity lower upper : Datum} {c l u : Number} :
    checkCapacity capacity lower upper = .ok (c, l, u) ↔
      capacity = .number c ∧ lower = .number l ∧ upper = .number u ∧ u.lt l = false
        ∧ ∃ length, u.sub l = .ok length ∧ (Number.whole 0).le c ∧ c.le length := by
  simp only [checkCapacity, bind_eq_ok, error_bind, refuse_eq_ok, require_eq_ok,
    Datum.entry?_eq_ok, Datum.number?_eq_ok, Entry.number?_eq_ok, Bool.not_eq_true,
    Bool.and_eq_true, Except.ok.injEq, Prod.mk.injEq]
  constructor
  · rintro ⟨_, rfl, _, rfl, below, hbelow, hordered, _, rfl, _, rfl, _, rfl, length, hlength, hc,
      rfl, rfl, rfl⟩
    obtain rfl : _ = below := Except.ok.inj hbelow
    exact ⟨rfl, rfl, rfl, hordered, length, hlength, hc⟩
  · rintro ⟨rfl, rfl, rfl, hordered, length, hlength, hc⟩
    exact ⟨_, rfl, _, rfl, _, rfl, hordered, _, rfl, _, rfl, _, rfl, length, hlength, hc, rfl, rfl,
      rfl⟩

theorem create_eq_ok {capacity lower upper members : Datum} {v : SubsetVariable} :
    create capacity lower upper members = .ok v ↔
      ∃ c l u, checkCapacity capacity lower upper = .ok (c, l, u)
        ∧ ∃ items, members.items? = .ok items ∧ ∃ is, items.mapM Datum.toInt? = .ok is
          ∧ isOverfull ⟨c, l, u, memberList is⟩ = false
          ∧ (∀ m ∈ memberList is, isSelectable ⟨c, l, u, memberList is⟩ m)
          ∧ ⟨c, l, u, memberList is⟩ = v := by
  simp only [create, bind_eq_ok, error_bind, refuse_eq_ok, require_eq_ok, List.all_eq_true,
    Prod.exists, Bool.not_eq_true, Except.ok.injEq]

end SubsetVariable

namespace PermutationVariable

theorem order?_eq_ok {length : Number} {array : Datum} {order : List Nat} :
    order? length array = .ok order ↔
      ∃ sides is, array.words? = .ok (sides, is) ∧ sides.length = 1
        ∧ (Number.whole is.length).le length ∧ length.le (.whole is.length)
        ∧ isOrder is.length is ∧ is.map Int.toNat = order := by
  have hcheck (is : List Int) (fault : Except Fault Number) (e : Number → Fault) :
      (if isOrder is.length is then .ok (is.map Int.toNat) else fault >>= fun n => .error (e n))
        = .ok order ↔ isOrder is.length is ∧ is.map Int.toNat = order := by
    by_cases h : isOrder is.length is <;> simp [h]
  simp only [order?, bind_eq_ok, require_eq_ok, Prod.exists, Bool.and_eq_true, decide_eq_true_eq,
    hcheck, and_assoc]

theorem create_eq_ok [Memory] {length : Datum} {order : Option Datum} {v : PermutationVariable} :
    create length order = .ok v ↔
      ∃ n, length.number? = .ok n ∧ n.lt (.whole 1) = false
        ∧ match order with
          | none => ∃ k, count? n = .ok k ∧ ⟨n, List.range k⟩ = v
          | some array => ∃ order, order? n array = .ok order ∧ ⟨n, order⟩ = v := by
  simp only [create, bind_eq_ok, error_bind, refuse_eq_ok, Bool.not_eq_true]
  refine exists_congr fun n => and_congr_right fun _ => and_congr_right fun _ => ?_
  cases order <;> simp [map_eq_ok]

end PermutationVariable

end MigrationPlan
