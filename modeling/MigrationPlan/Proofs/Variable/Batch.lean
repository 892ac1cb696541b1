import MigrationPlan.Proofs.Numeric.Whole
import MigrationPlan.Proofs.Variable.Session

/-!
# Proofs/Variable/Batch — batch writes are all or nothing

A batch write checks every value of its span before it writes the first one.  Reals are then stored
without a further check, integers one by one through `setInt`, which checks once more, and by then
another value: the integer part of what was given.  The second check agrees with the first
(`checkInt_whole_of_checkInt`), since a number without a fractional part and its integer part
stand at one place and are rounded to one place.  So a batch of numbers over distinct variables is
written in full or not at all (**`isAtomic_setReals_setInts`**).
-/

namespace MigrationPlan

/-- Numbers as a list. -/
def Datum.numbers (xs : List Number) : Datum :=
  .node (xs.map Datum.number)

namespace Variable

variable {α : Type} {pool state : List Variable} {batch is : Batch} {start : Datum}
  {stop : Option Datum} {i j p : Nat} {v w : Variable} {x : Number} {k : Int}

/-! ## Spans -/

/-- From `start` up to `stop` are the places `i, …, j - 1` of a batch. -/
def Covers (batch : Batch) (start : Datum) (stop : Option Datum) (i j : Nat) : Prop :=
  start.count? = .ok (i : Int) ∧ (stop.getD (.whole batch.length)).count? = .ok (j : Int)
    ∧ i ≤ j ∧ j ≤ batch.length

theorem Covers.unique {i' j' : Nat} (h : Covers batch start stop i j)
    (h' : Covers batch start stop i' j') : i = i' ∧ j = j' := by
  have hi := Except.ok.inj (h.1.symm.trans h'.1)
  have hj := Except.ok.inj (h.2.1.symm.trans h'.2.1)
  exact ⟨Int.ofNat_inj.mp hi, Int.ofNat_inj.mp hj⟩

/-- **A span is there exactly if its ends are counts in order.** -/
theorem span_eq_ok :
    span batch start stop = .ok is ↔
      ∃ i j, Covers batch start stop i j ∧ (batch.drop i).take (j - i) = is := by
  simp only [span, bind_eq_ok, error_bind, refuse_eq_ok, Datum.number?_eq_ok, Datum.count?_eq_ok,
    Except.ok.injEq, Bool.not_eq_true', Bool.not_eq_false, Bool.and_eq_true, Covers]
  constructor
  · rintro ⟨x, hstart, hfirst, y, hstop, ⟨horder, hlast⟩, i, ⟨x', hi, hx⟩, j, ⟨y', hj, hy⟩, rfl⟩
    obtain rfl : x = x' := by simpa using hstart.symm.trans hi
    obtain rfl : y = y' := by simpa using hstop.symm.trans hj
    rw [Number.le_of_whole? rfl hx, decide_eq_true_iff] at hfirst
    rw [Number.le_of_whole? hx hy, decide_eq_true_iff] at horder
    rw [Number.le_of_whole? hy rfl, decide_eq_true_iff] at hlast
    obtain ⟨i, rfl⟩ := Int.eq_ofNat_of_zero_le hfirst
    obtain ⟨j, rfl⟩ := Int.eq_ofNat_of_zero_le (hfirst.trans horder)
    have hij : i ≤ j := Int.ofNat_le.mp horder
    refine ⟨i, j, ⟨⟨x, hi, hx⟩, ⟨y, hj, hy⟩, hij, Int.ofNat_le.mp hlast⟩, ?_⟩
    rw [Int.toNat_natCast, ← Int.ofNat_sub hij, Int.toNat_natCast]
  · rintro ⟨i, j, ⟨⟨x, hi, hx⟩, ⟨y, hj, hy⟩, hij, hlast⟩, rfl⟩
    have hfirst : (Number.whole 0).le x := by rw [Number.le_of_whole? rfl hx]; simp
    have horder : x.le y := by rw [Number.le_of_whole? hx hy]; simpa
    have hlast : y.le (.whole batch.length) := by rw [Number.le_of_whole? hy rfl]; simpa
    refine ⟨x, hi, hfirst, y, hj, ⟨horder, hlast⟩, i, ⟨x, hi, hx⟩, j, ⟨y, hj, hy⟩, ?_⟩
    rw [Int.toNat_natCast, ← Int.ofNat_sub hij, Int.toNat_natCast]

/-! ## The checking pass -/

/-- Checks a value for each place of a span. -/
def checkSpan (check : Variable → Datum → Except Fault α) (pool : List Variable) (batch : Batch)
    (values start : Datum) (stop : Option Datum) : Except Fault (List (Nat × α)) := do
  let is ← span batch start stop
  let values ← values.items?
  checkCount is values
  checkEach check pool is values

/-- The positions of a span, with the numbers for them. -/
def requests (batch : Batch) (values : List Number) (i j : Nat) : List (Nat × Number) :=
  ((batch.drop i).take (j - i)).zip values

/-- A number passes its check for a variable of the pool. -/
def Passes (check : Variable → Datum → Except Fault α) (pool : List Variable)
    (request : Nat × Number) (entry : Nat × α) : Prop :=
  entry.1 = request.1 ∧ ∃ v, pool[request.1]? = some v ∧ check v (.number request.2) = .ok entry.2

variable {check : Variable → Datum → Except Fault α} {checked : List (Nat × α)}
  {values : List Number}

theorem checkEach_eq_ok :
    checkEach check pool is (values.map Datum.number) = .ok checked ↔
      List.Forall₂ (Passes check pool) (is.zip values) checked := by
  rw [checkEach, List.zip_map_right, List.mapM_map, mapM_eq_ok]
  refine iff_of_eq (congrArg (List.Forall₂ · _ _) ?_)
  ext ⟨p, x⟩ ⟨q, a⟩
  simp only [Passes, Function.comp_apply, Prod.map, id, bind_eq_ok, at?_eq_ok, map_eq_ok,
    Prod.mk.injEq]
  constructor
  · rintro ⟨v, hv, _, ha, rfl, rfl⟩
    exact ⟨rfl, v, hv, ha⟩
  · rintro ⟨rfl, v, hv, ha⟩
    exact ⟨v, hv, a, ha, rfl, rfl⟩

/-- **The checking pass accepts as many numbers as there are places, if each passes its check.** -/
theorem checkSpan_eq_ok :
    checkSpan check pool batch (.numbers values) start stop = .ok checked ↔
      ∃ i j, Covers batch start stop i j ∧ values.length = j - i
        ∧ List.Forall₂ (Passes check pool) (requests batch values i j) checked := by
  have hitems : (Datum.numbers values).items? = .ok (values.map Datum.number) := rfl
  have hlength {i j : Nat} (h : Covers batch start stop i j) :
      ((batch.drop i).take (j - i)).length = j - i := by
    have := h.2.2.2
    simp only [List.length_take, List.length_drop]
    omega
  simp only [checkSpan, bind_eq_ok, span_eq_ok, hitems, Except.ok.injEq, checkCount, require_eq_ok]
  constructor
  · rintro ⟨_, ⟨i, j, h, rfl⟩, _, rfl, _, ⟨hcount, -⟩, hcheck⟩
    rw [List.length_map, hlength h] at hcount
    exact ⟨i, j, h, hcount, checkEach_eq_ok.mp hcheck⟩
  · rintro ⟨i, j, h, hcount, hcheck⟩
    refine ⟨_, ⟨i, j, h, rfl⟩, _, rfl, (), ⟨?_, trivial⟩, checkEach_eq_ok.mpr hcheck⟩
    rw [List.length_map, hlength h, hcount]

/-- The requests of a span, by their places in the batch. -/
theorem mem_requests (hcount : values.length = j - i) :
    (p, x) ∈ requests batch values i j ↔
      ∃ k : Nat, batch[i + k]? = some p ∧ values[k]? = some x := by
  simp only [requests, List.mem_iff_getElem?, List.getElem?_zip_eq_some]
  refine exists_congr fun k => and_congr_left fun hk => ?_
  have hlt : k < j - i := hcount ▸ (List.getElem?_eq_some_iff.mp hk).1
  rw [List.getElem?_take_of_lt hlt, List.getElem?_drop]

/-- There is a place in the span for each number. -/
theorem Covers.exists_getElem? {k : Nat} (h : Covers batch start stop i j)
    (hcount : values.length = j - i) (hx : values[k]? = some x) : ∃ p, batch[i + k]? = some p := by
  have hlt : k < values.length := (List.getElem?_eq_some_iff.mp hx).1
  have hlast : j ≤ batch.length := h.2.2.2
  exact ⟨_, List.getElem?_eq_getElem (by omega)⟩

/-- **The checking pass succeeds exactly if each number passes its check.** -/
theorem exists_checkSpan_eq_ok :
    (∃ checked, checkSpan check pool batch (.numbers values) start stop = .ok checked) ↔
      ∃ i j, Covers batch start stop i j ∧ values.length = j - i
        ∧ ∀ (k : Nat) x, values[k]? = some x → ∃ p v a, batch[i + k]? = some p ∧ pool[p]? = some v
          ∧ check v (.number x) = .ok a := by
  simp only [checkSpan_eq_ok]
  constructor
  · rintro ⟨checked, i, j, h, hcount, hcheck⟩
    refine ⟨i, j, h, hcount, fun k x hx => ?_⟩
    obtain ⟨p, hp⟩ := h.exists_getElem? hcount hx
    obtain ⟨entry, -, -, v, hv, ha⟩ :=
      exists_mem_of_forall₂ hcheck ((mem_requests hcount).mpr ⟨k, hp, hx⟩)
    exact ⟨p, v, entry.2, hp, hv, ha⟩
  · rintro ⟨i, j, h, hcount, hpass⟩
    have hall : ∀ request ∈ requests batch values i j,
        ∃ entry, Passes check pool request entry := by
      rintro ⟨p, x⟩ hrequest
      obtain ⟨k, hp, hx⟩ := (mem_requests hcount).mp hrequest
      obtain ⟨q, v, a, hq, hv, ha⟩ := hpass k x hx
      obtain rfl : q = p := Option.some.inj (hq.symm.trans hp)
      exact ⟨(q, a), rfl, v, hv, ha⟩
    obtain ⟨checked, hcheck⟩ := exists_forall₂_iff.mpr hall
    exact ⟨checked, i, j, h, hcount, hcheck⟩

/-- What has been checked lies at the positions of the span. -/
theorem map_fst_checked (hcount : values.length = j - i)
    (hcheck : List.Forall₂ (Passes check pool) (requests batch values i j) checked) :
    checked.map Prod.fst = (batch.drop i).take (j - i) := by
  have hlength : ((batch.drop i).take (j - i)).length ≤ values.length := by
    rw [hcount, List.length_take]
    exact Nat.min_le_left _ _
  rw [← List.map_fst_zip hlength, eq_comm, ← List.forall₂_eq_eq_eq, List.forall₂_map_left_iff,
    List.forall₂_map_right_iff]
  exact hcheck.imp fun _ _ h => h.1.symm

/-! ## The writing pass -/

variable {put : Variable → α → Except Fault Variable} {rest : List (Nat × α)} {a : α}

/-- Each entry can be put at its position, and no position is named twice. -/
structure Puttable (put : Variable → α → Except Fault Variable) (pool : List Variable)
    (checked : List (Nat × α)) : Prop where
  nodup : (checked.map Prod.fst).Nodup
  there : ∀ p a, (p, a) ∈ checked → ∃ v w, pool[p]? = some v ∧ put v a = .ok w

/-- **Each entry has been put at its position, and all else is as it was.** -/
structure Written (put : Variable → α → Except Fault Variable) (pool : List Variable)
    (checked : List (Nat × α)) (state : List Variable) : Prop where
  elsewhere : ∀ p ∉ checked.map Prod.fst, state[p]? = pool[p]?
  there : ∀ p a, (p, a) ∈ checked → ∃ v w, pool[p]? = some v ∧ put v a = .ok w ∧ state[p]? = some w

theorem Written.nil : Written put pool [] pool where
  elsewhere _ _ := rfl
  there := by simp

/-- Once an entry has been put, the others still can be. -/
theorem Puttable.tail (h : Puttable put pool ((p, a) :: rest)) (w : Variable) :
    Puttable put (pool.set p w) rest where
  nodup := h.nodup.of_cons
  there q b hb := by
    have hne : p ≠ q := by
      rintro rfl
      exact (List.nodup_cons.mp h.nodup).1 (List.mem_map.mpr ⟨_, hb, rfl⟩)
    rw [List.getElem?_set_ne hne]
    exact h.there q b (List.mem_cons_of_mem _ hb)

/-- One entry is put, and then the others. -/
theorem Written.cons (hp : p ∉ rest.map Prod.fst) (hv : pool[p]? = some v) (hw : put v a = .ok w)
    (h : Written put (pool.set p w) rest state) : Written put pool ((p, a) :: rest) state where
  elsewhere q hq := by
    obtain ⟨hne, hq⟩ := List.ne_and_not_mem_of_not_mem_cons hq
    rw [h.elsewhere q hq, List.getElem?_set_ne hne.symm]
  there q b hb := by
    rcases List.mem_cons.mp hb with heq | hb
    · obtain ⟨rfl, rfl⟩ := Prod.mk.inj heq
      have hlt : q < pool.length := (List.getElem?_eq_some_iff.mp hv).1
      exact ⟨v, w, hv, hw, by rw [h.elsewhere q hp, List.getElem?_set_self hlt]⟩
    · obtain ⟨u, u', hu, hput, hstate⟩ := h.there q b hb
      have hne : p ≠ q := fun hpq => hp (hpq ▸ List.mem_map_of_mem hb)
      rw [List.getElem?_set_ne hne] at hu
      exact ⟨u, u', hu, hput, hstate⟩

/-- **Doubles that `setReal` accepts are all written.** -/
theorem written_writeReals {checked : List (Nat × Binary64)}
    (h : Puttable (·.setReal <| .real ·) pool checked) :
    Written (·.setReal <| .real ·) pool checked (writeReals pool checked) := by
  induction checked generalizing pool with
  | nil => exact .nil
  | cons entry rest ih =>
    obtain ⟨p, x⟩ := entry
    obtain ⟨v, w, hv, hw⟩ := h.there p x (List.mem_cons_self ..)
    obtain ⟨r, rfl, y, hy, rfl⟩ := setReal_eq_ok.mp hw
    obtain rfl : x = y := Except.ok.inj (checkReal_eq_ok.mp hy).1
    rw [Session.writeReals_cons hv]
    exact .cons (List.nodup_cons.mp h.nodup).1 hv hw (ih (h.tail _))

/-- **Integers that `setInt` accepts are all written**, and none of the writes is refused. -/
theorem written_writeInts {checked : List (Nat × Int)}
    (h : Puttable (·.setInt <| .whole ·) pool checked) :
    (writeInts checked pool).answer = .ok ()
      ∧ Written (·.setInt <| .whole ·) pool checked (writeInts checked pool).state := by
  induction checked generalizing pool with
  | nil => exact ⟨rfl, .nil⟩
  | cons entry rest ih =>
    obtain ⟨p, k⟩ := entry
    obtain ⟨v, w, hv, hw⟩ := h.there p k (List.mem_cons_self ..)
    have hset : (at? pool p).bind (·.setInt (.whole k)) = .ok w :=
      bind_eq_ok.mpr ⟨v, at?_eq_ok.mpr hv, hw⟩
    obtain ⟨hanswer, hwritten⟩ := ih (h.tail w)
    rw [writeInts, hset]
    exact ⟨hanswer, .cons (List.nodup_cons.mp h.nodup).1 hv hw hwritten⟩

/-! ## What is stored -/

/-- A real takes the double of a number. -/
inductive StoresReal : Variable → Number → Variable → Prop
  | real {r : RealVariable} {x : Number} {d : Binary64} (hd : x.toReal? = .ok d) :
      StoresReal (real r) x (real { r with value := .real d })

/-- An integer variable takes the integer part of a number, and a real the double of that. -/
inductive StoresInt : Variable → Number → Variable → Prop
  | integer {n : IntegerVariable} {x : Number} {k : Int} (hk : x.toInt? = .ok k) :
      StoresInt (integer n) x (integer { n with value := .number (.whole k) })
  | real {r : RealVariable} {x : Number} {k : Int} {d : Binary64} (hk : x.toInt? = .ok k)
      (hd : (Number.whole k).toReal? = .ok d) :
      StoresInt (real r) x (real { r with value := .real d })

/-- The check of a batch of reals. -/
def checkRealOf (v : Variable) (value : Datum) : Except Fault Binary64 := do
  checkReal (← v.real?) value

theorem checkRealOf_eq_ok {d : Datum} {y : Binary64} :
    checkRealOf v d = .ok y ↔ ∃ r, v = real r ∧ checkReal r d = .ok y := by
  simp only [checkRealOf, bind_eq_ok, real?_eq_ok]

/-- **The checked double of a number is written as the number itself would be.** -/
theorem setReal_of_checkRealOf {y : Binary64} (h : checkRealOf v (.number x) = .ok y) :
    ∃ w, v.setReal (.number x) = .ok w ∧ v.setReal (.real y) = .ok w ∧ StoresReal v x w := by
  obtain ⟨r, rfl, hy⟩ := checkRealOf_eq_ok.mp h
  obtain ⟨hx, hbounds⟩ := checkReal_eq_ok.mp hy
  have hagain : checkReal r (.real y) = .ok y := checkReal_eq_ok.mpr ⟨rfl, hbounds⟩
  exact ⟨_, setReal_eq_ok.mpr ⟨r, rfl, y, hy, rfl⟩, setReal_eq_ok.mpr ⟨r, rfl, y, hagain, rfl⟩,
    .real hx⟩

/-- What passes the check of an integer passes it once more as its integer part: without a
fractional part, both stand at one place and are rounded to one place. -/
theorem checkInt_whole_of_checkInt (h : checkInt v (.number x) = .ok k) :
    checkInt v (.whole k) = .ok k := by
  cases v with
  | integer n =>
    obtain ⟨hfraction, e, he, hwithin, hk⟩ := checkInt_integer_eq_ok.mp h
    obtain rfl : Entry.number x = e := by simpa using he
    have hplace : x.extended? = (Number.whole k).extended? :=
      Number.extended?_of_toInt? (Datum.refuseFraction_number_eq_ok.mp hfraction) hk
    obtain ⟨l, u, hl, hu, hlx, hxu⟩ := Entry.number_within?_eq_true.mp hwithin
    rw [Number.le, hplace] at hlx hxu
    have hagain := Entry.number_within?_eq_true.mpr ⟨l, u, hl, hu, hlx, hxu⟩
    exact checkInt_integer_eq_ok.mpr ⟨rfl, _, rfl, hagain, rfl⟩
  | real r =>
    obtain ⟨hfraction, ⟨y, hy⟩, hk⟩ := checkInt_real_eq_ok.mp h
    obtain ⟨hx, hlower, hupper⟩ := checkReal_eq_ok.mp hy
    obtain ⟨z, hz, hplace⟩ :=
      Number.exists_toReal?_whole (Datum.refuseFraction_number_eq_ok.mp hfraction) hk hx
    rw [Binary64.le, ← hplace] at hlower hupper
    exact checkInt_real_eq_ok.mpr ⟨rfl, ⟨z, checkReal_eq_ok.mpr ⟨hz, hlower, hupper⟩⟩, rfl⟩
  | _ => simp [checkInt, bind_eq_ok] at h

/-- **The checked integer part of a number is written as the number itself would be.** -/
theorem setInt_of_checkInt (h : checkInt v (.number x) = .ok k) :
    ∃ w, v.setInt (.number x) = .ok w ∧ v.setInt (.whole k) = .ok w ∧ StoresInt v x w := by
  have hagain := checkInt_whole_of_checkInt h
  cases v with
  | integer n =>
    obtain ⟨-, e, he, -, hk⟩ := checkInt_integer_eq_ok.mp h
    obtain rfl : Entry.number x = e := by simpa using he
    exact ⟨_, setInt_eq_ok.mpr ⟨k, h, .inl ⟨n, rfl, rfl⟩⟩,
      setInt_eq_ok.mpr ⟨k, hagain, .inl ⟨n, rfl, rfl⟩⟩, .integer hk⟩
  | real r =>
    obtain ⟨-, -, hk⟩ := checkInt_real_eq_ok.mp h
    obtain ⟨-, ⟨y, hy⟩, -⟩ := checkInt_real_eq_ok.mp hagain
    have hset := setReal_eq_ok.mpr ⟨r, rfl, y, hy, rfl⟩
    exact ⟨_, setInt_eq_ok.mpr ⟨k, h, .inr hset⟩, setInt_eq_ok.mpr ⟨k, hagain, .inr hset⟩,
      .real hk (checkReal_eq_ok.mp hy).1⟩
  | _ => simp [checkInt, bind_eq_ok] at h

/-! ## All or nothing -/

variable {write : Variable → Datum → Except Fault Variable}
  {stored : Variable → Number → Variable → Prop} {out : Outcome (List Variable) Unit}

/-- **A batch write is all or nothing.**  If it is refused, the pool is as it was.  It is accepted
exactly if the span is there, has as many places as there are numbers, and each of the numbers could
be written by itself.  Then the variables of the span are stored to, and all others are as they
were. -/
structure IsAtomic (write : Variable → Datum → Except Fault Variable)
    (stored : Variable → Number → Variable → Prop) (pool : List Variable) (batch : Batch)
    (values : List Number) (start : Datum) (stop : Option Datum)
    (out : Outcome (List Variable) Unit) : Prop where
  refused : ∀ fault, out.answer = .error fault → out.state = pool
  accepted : out.answer = .ok () ↔ ∃ i j, Covers batch start stop i j ∧ values.length = j - i
    ∧ ∀ (k : Nat) x, values[k]? = some x → ∃ p v w, batch[i + k]? = some p ∧ pool[p]? = some v
      ∧ write v (.number x) = .ok w
  outside : ∀ i j, out.answer = .ok () → Covers batch start stop i j →
    ∀ p, (∀ k, i ≤ k → k < j → batch[k]? ≠ some p) → out.state[p]? = pool[p]?
  inside : ∀ i j, out.answer = .ok () → Covers batch start stop i j →
    ∀ (k : Nat) x, values[k]? = some x → ∃ p v w, batch[i + k]? = some p ∧ pool[p]? = some v
      ∧ stored v x w ∧ out.state[p]? = some w

/-- What has passed the checking pass can be put, if the variables are distinct. -/
theorem puttable_of_checkSpan (hbatch : batch.Nodup)
    (hput : ∀ v x a, check v (.number x) = .ok a → ∃ w, put v a = .ok w)
    (h : checkSpan check pool batch (.numbers values) start stop = .ok checked) :
    Puttable put pool checked := by
  obtain ⟨i, j, -, hcount, hcheck⟩ := checkSpan_eq_ok.mp h
  refine ⟨?_, fun p a hmem => ?_⟩
  · rw [map_fst_checked hcount hcheck]
    exact hbatch.sublist ((List.take_sublist _ _).trans (List.drop_sublist _ _))
  · have hflip := List.Forall₂.flip (R := fun e r => Passes check pool r e) hcheck
    obtain ⟨⟨q, x⟩, -, hq, v, hv, ha⟩ := exists_mem_of_forall₂ hflip hmem
    obtain ⟨w, hw⟩ := hput v x a ha
    exact ⟨v, w, by rw [← hv]; exact congrArg (pool[·]?) hq, hw⟩

/-- **A batch write that checks everything first is all or nothing**, if what has been checked is
written as it would be by itself. -/
theorem isAtomic_of_checkSpan (hbatch : batch.Nodup)
    (hcheck : ∀ v x w, write v (.number x) = .ok w → ∃ a, check v (.number x) = .ok a)
    (hput : ∀ v x a, check v (.number x) = .ok a →
      ∃ w, write v (.number x) = .ok w ∧ put v a = .ok w ∧ stored v x w)
    (hrefused : ∀ fault, checkSpan check pool batch (.numbers values) start stop = .error fault →
      out = ⟨pool, .error fault⟩)
    (hwritten : ∀ checked, checkSpan check pool batch (.numbers values) start stop = .ok checked →
      Puttable put pool checked → out.answer = .ok () ∧ Written put pool checked out.state) :
    IsAtomic write stored pool batch values start stop out := by
  have hwrites (v : Variable) (x : Number) :
      (∃ w, write v (.number x) = .ok w) ↔ ∃ a, check v (.number x) = .ok a :=
    ⟨fun ⟨w, hw⟩ => hcheck v x w hw, fun ⟨a, ha⟩ => (hput v x a ha).imp fun _ h => h.1⟩
  have haccepted :
      (∃ checked, checkSpan check pool batch (.numbers values) start stop = .ok checked) ↔ _ :=
    exists_checkSpan_eq_ok
  simp only [exists_and_left, ← hwrites] at haccepted
  rcases hchecked : checkSpan check pool batch (.numbers values) start stop with fault | checked
  · obtain rfl := hrefused fault hchecked
    refine ⟨fun _ _ => rfl, ?_, nofun, nofun⟩
    simp only [exists_and_left, ← haccepted, hchecked, reduceCtorEq, exists_false]
  have hputtable : Puttable put pool checked := puttable_of_checkSpan hbatch
    (fun v x a ha => (hput v x a ha).imp fun _ h => h.2.1) hchecked
  obtain ⟨hanswer, hstate⟩ := hwritten checked hchecked hputtable
  obtain ⟨i, j, h, hcount, hall⟩ := checkSpan_eq_ok.mp hchecked
  refine ⟨fun fault hfault => ?_, ?_, fun i' j' _ h' p hp => ?_, fun i' j' _ h' k x hx => ?_⟩
  · exact nomatch hanswer.symm.trans hfault
  · simp only [exists_and_left, ← haccepted, hanswer, hchecked, Except.ok.injEq, exists_eq']
  · obtain ⟨rfl, rfl⟩ := h.unique h'
    refine hstate.elsewhere p ?_
    rw [map_fst_checked hcount hall, List.mem_iff_getElem?]
    rintro ⟨k, hk⟩
    rw [List.getElem?_take] at hk
    split_ifs at hk with hlt
    rw [List.getElem?_drop] at hk
    exact hp (i + k) (Nat.le_add_right i k) (by omega) hk
  · obtain ⟨rfl, rfl⟩ := h.unique h'
    obtain ⟨p, hp⟩ := h.exists_getElem? hcount hx
    obtain ⟨⟨q, a⟩, hmem, hq, v, hv, ha⟩ :=
      exists_mem_of_forall₂ hall ((mem_requests hcount).mpr ⟨k, hp, hx⟩)
    obtain rfl : q = p := hq
    obtain ⟨w, -, hw, hstored⟩ := hput v x a ha
    obtain ⟨v', w', hv', hw', hafter⟩ := hstate.there q a hmem
    obtain rfl : v = v' := Option.some.inj (hv.symm.trans hv')
    obtain rfl : w = w' := Except.ok.inj (hw.symm.trans hw')
    exact ⟨q, v, w, hp, hv, hstored, hafter⟩

/-- Reals that have been written are read back. -/
theorem asReals_of_written {checked : List (Nat × Binary64)} (h : Covers batch start stop i j)
    (hcount : values.length = j - i)
    (hcheck : List.Forall₂ (Passes checkRealOf pool) (requests batch values i j) checked)
    (hstate : Written (·.setReal <| .real ·) pool checked state) :
    values.mapM Number.toReal? = .ok (checked.map Prod.snd)
      ∧ asReals state batch start stop = .ok (checked.map Prod.snd) := by
  constructor
  · have hlength : values.length ≤ ((batch.drop i).take (j - i)).length := by
      have := h.2.2
      simp only [List.length_take, List.length_drop]
      omega
    rw [← List.map_snd_zip hlength, mapM_eq_ok, List.forall₂_map_left_iff,
      List.forall₂_map_right_iff]
    refine hcheck.imp fun request entry hpass => ?_
    obtain ⟨-, v, -, hx⟩ := hpass
    obtain ⟨r, -, hx⟩ := checkRealOf_eq_ok.mp hx
    exact (checkReal_eq_ok.mp hx).1
  · have hvalues : (checked.map Prod.fst).mapM (fun p => do asReal (← at? state p))
        = .ok (checked.map fun entry => Number.real entry.2) := by
      rw [List.mapM_map]
      refine mapM_of_ok fun entry hmem => ?_
      obtain ⟨v, w, -, hw, hp⟩ := hstate.there entry.1 entry.2 hmem
      obtain ⟨r, -, y, hy, rfl⟩ := setReal_eq_ok.mp hw
      obtain rfl : entry.2 = y := Except.ok.inj (checkReal_eq_ok.mp hy).1
      rw [Function.comp_apply, at?_eq_ok.mpr hp]
      rfl
    have hspan : span batch start stop = .ok (checked.map Prod.fst) :=
      span_eq_ok.mpr ⟨i, j, h, (map_fst_checked hcount hcheck).symm⟩
    have hreals : (checked.map fun entry => Number.real entry.2).mapM Number.toReal?
        = .ok (checked.map Prod.snd) := by
      rw [List.mapM_map]
      exact mapM_of_ok fun _ _ => rfl
    rw [asReals, hspan, ok_bind, hvalues, ok_bind, hreals]

/-! ## Reals -/

theorem setReals_eq (pool : List Variable) (batch : Batch) (values start : Datum)
    (stop : Option Datum) :
    setReals pool batch values start stop = Outcome.commit pool
      ((checkSpan checkRealOf pool batch values start stop).map
        fun checked => (writeReals pool checked, ())) := by
  rw [setReals, checkSpan]
  rcases span batch start stop with _ | is
  · rfl
  rcases values.items? with _ | items
  · rfl
  rcases hcount : checkCount is items with _ | _
  · simp only [ok_bind, hcount, error_bind, Except.map]
  simp only [ok_bind, hcount]
  rw [show checkEach (fun v x => do checkReal (← v.real?) x) pool is items
    = checkEach checkRealOf pool is items from rfl]
  rcases checkEach checkRealOf pool is items with _ | checked <;> rfl

theorem setReals_of_error {fault : Fault}
    (h : checkSpan checkRealOf pool batch (.numbers values) start stop = .error fault) :
    setReals pool batch (.numbers values) start stop = ⟨pool, .error fault⟩ := by
  rw [setReals_eq, h]
  rfl

theorem setReals_of_ok {checked : List (Nat × Binary64)}
    (h : checkSpan checkRealOf pool batch (.numbers values) start stop = .ok checked) :
    setReals pool batch (.numbers values) start stop = ⟨writeReals pool checked, .ok ()⟩ := by
  rw [setReals_eq, h]
  rfl

theorem puttable_reals {checked : List (Nat × Binary64)} (hbatch : batch.Nodup)
    (h : checkSpan checkRealOf pool batch (.numbers values) start stop = .ok checked) :
    Puttable (·.setReal <| .real ·) pool checked := by
  refine puttable_of_checkSpan hbatch (fun v x a ha => ?_) h
  obtain ⟨w, -, hw, -⟩ := setReal_of_checkRealOf ha
  exact ⟨w, hw⟩

theorem isAtomic_setReals (hbatch : batch.Nodup) :
    IsAtomic setReal StoresReal pool batch values start stop
      (setReals pool batch (.numbers values) start stop) := by
  refine isAtomic_of_checkSpan hbatch (fun v x w hw => ?_)
    (fun v x a ha => setReal_of_checkRealOf ha) (fun fault h => setReals_of_error h)
    fun checked h hputtable => ?_
  · obtain ⟨r, rfl, y, hy, -⟩ := setReal_eq_ok.mp hw
    exact ⟨y, checkRealOf_eq_ok.mpr ⟨r, rfl, hy⟩⟩
  · rw [setReals_of_ok h]
    exact ⟨rfl, written_writeReals hputtable⟩

/-- The doubles of the numbers are read back. -/
theorem exists_asReals_setReals (hbatch : batch.Nodup)
    (h : (setReals pool batch (.numbers values) start stop).answer = .ok ()) :
    ∃ xs, values.mapM Number.toReal? = .ok xs
      ∧ asReals (setReals pool batch (.numbers values) start stop).state batch start stop
        = .ok xs := by
  rcases hchecked : checkSpan checkRealOf pool batch (.numbers values) start stop
    with fault | checked
  · rw [setReals_of_error hchecked] at h
    exact nomatch h
  · obtain ⟨i, j, hcovers, hcount, hall⟩ := checkSpan_eq_ok.mp hchecked
    have hwritten := written_writeReals (puttable_reals hbatch hchecked)
    rw [setReals_of_ok hchecked]
    exact ⟨_, asReals_of_written hcovers hcount hall hwritten⟩

/-! ## Integers -/

theorem setInts_eq (pool : List Variable) (batch : Batch) (values start : Datum)
    (stop : Option Datum) :
    setInts pool batch values start stop =
      match checkSpan checkInt pool batch values start stop with
      | .ok checked => writeInts checked pool
      | .error fault => ⟨pool, .error fault⟩ := rfl

theorem puttable_ints {checked : List (Nat × Int)} (hbatch : batch.Nodup)
    (h : checkSpan checkInt pool batch (.numbers values) start stop = .ok checked) :
    Puttable (·.setInt <| .whole ·) pool checked := by
  refine puttable_of_checkSpan hbatch (fun v x a ha => ?_) h
  obtain ⟨w, -, hw, -⟩ := setInt_of_checkInt ha
  exact ⟨w, hw⟩

theorem isAtomic_setInts (hbatch : batch.Nodup) :
    IsAtomic setInt StoresInt pool batch values start stop
      (setInts pool batch (.numbers values) start stop) := by
  refine isAtomic_of_checkSpan hbatch (fun v x w hw => ?_) (fun v x a ha => setInt_of_checkInt ha)
    (fun fault h => ?_) fun checked h hputtable => ?_
  · obtain ⟨k, hk, -⟩ := setInt_eq_ok.mp hw
    exact ⟨k, hk⟩
  · rw [setInts_eq, h]
  · rw [setInts_eq, h]
    exact written_writeInts hputtable

/-- **Batch writes of numbers to distinct variables are all or nothing.**  Reals take the doubles of
the numbers and are read back as these; integer variables take the integer parts, and reals the
doubles of these.  Once the integers have been checked, none of the writes is refused. -/
theorem isAtomic_setReals_setInts (hbatch : batch.Nodup) (values : List Number) (start : Datum)
    (stop : Option Datum) :
    IsAtomic setReal StoresReal pool batch values start stop
        (setReals pool batch (.numbers values) start stop)
      ∧ ((setReals pool batch (.numbers values) start stop).answer = .ok () →
        ∃ xs, values.mapM Number.toReal? = .ok xs
          ∧ asReals (setReals pool batch (.numbers values) start stop).state batch start stop
            = .ok xs)
      ∧ IsAtomic setInt StoresInt pool batch values start stop
        (setInts pool batch (.numbers values) start stop)
      ∧ ∀ checked, checkSpan checkInt pool batch (.numbers values) start stop = .ok checked →
        (writeInts checked pool).answer = .ok () := by
  refine ⟨isAtomic_setReals hbatch, exists_asReals_setReals hbatch, isAtomic_setInts hbatch,
    fun checked h => ?_⟩
  exact (written_writeInts (puttable_ints hbatch h)).1

/-- An integer, a real and a bit. -/
def mixedPool : List Variable :=
  [integer ⟨.number (.whole 0), .number (.whole 10), .number (.whole 0)⟩, real ⟨0, 5, .real 0⟩,
    binary ⟨[true]⟩]

/-- The real and the integer take one number each, and the bit in front of them stays. -/
theorem isAtomic_mixedPool :
    ([2, 1, 0] : Batch).Nodup
      ∧ (setInts mixedPool [2, 1, 0] (.numbers [.real 2, .whole 3]) (.whole 1) none).answer = .ok ()
      ∧ IsAtomic setInt StoresInt mixedPool [2, 1, 0] [.real 2, .whole 3] (.whole 1) none
        (setInts mixedPool [2, 1, 0] (.numbers [.real 2, .whole 3]) (.whole 1) none)
      ∧ (setReals mixedPool [2, 1, 0] (.numbers [.real 2]) (.whole 1) (some (.whole 2))).answer
        = .ok ()
      ∧ IsAtomic setReal StoresReal mixedPool [2, 1, 0] [.real 2] (.whole 1) (some (.whole 2))
        (setReals mixedPool [2, 1, 0] (.numbers [.real 2]) (.whole 1) (some (.whole 2))) := by
  have hbatch : ([2, 1, 0] : Batch).Nodup := by decide
  refine ⟨hbatch, by decide +kernel, ?_, by decide +kernel, ?_⟩
  · exact (isAtomic_setReals_setInts hbatch _ _ _).2.2.1
  · exact (isAtomic_setReals_setInts hbatch _ _ _).1

end Variable

end MigrationPlan
