import MigrationPlan.Datum.Reading
import MigrationPlan.Proofs.Accepted
import MigrationPlan.Proofs.Nested

/-!
# Proofs/Datum/Reading — which values a reading accepts

Where a single entry, number or count is asked for, nothing else will do.  An array is read only if
it is full, so its shape says how many entries come out.  Reading a flat list as an array reads its
items one after the other, and a list of integers is read back as these integers.
-/

namespace MigrationPlan

/-! ## Single entries -/

@[simp] theorem Entry.number?_eq_ok {e : Entry} {x : Number} :
    e.number? = .ok x ↔ e = .number x := by
  cases e <;> simp [Entry.number?]

theorem Entry.whole?_eq_some {e : Entry} {i : Int} :
    e.whole? = some i ↔ ∃ x, e = .number x ∧ x.whole? = some i := by
  cases e <;> simp [Entry.whole?]

@[simp] theorem Datum.entry?_eq_ok {d : Datum} {e : Entry} : d.entry? = .ok e ↔ d = .leaf e := by
  cases d <;> simp [Datum.entry?]

@[simp] theorem Datum.number?_eq_ok {d : Datum} {x : Number} :
    d.number? = .ok x ↔ d = .number x := by
  simp [Datum.number?, bind_eq_ok]

/-- Only a whole number or a truth value counts. -/
theorem Datum.count?_eq_ok {d : Datum} {i : Int} :
    d.count? = .ok i ↔ ∃ x, d = .number x ∧ x.whole? = some i := by
  simp only [Datum.count?, bind_eq_ok, Datum.number?_eq_ok]
  refine exists_congr fun x => and_congr_right fun _ => ?_
  rcases x.whole? with _ | k <;> simp

/-- A number passes for an integer if it has no fractional part. -/
theorem Datum.refuseFraction_number_eq_ok {x : Number} :
    (Datum.number x).refuseFraction = .ok () ↔ x.fractional? = none := by
  simp only [Datum.refuseFraction]
  rcases x.fractional? with _ | y <;> simp

/-- Lying between numbers is a matter of numbers. -/
theorem Entry.within?_number_eq_true {e : Entry} {x y : Number} :
    e.within? (.number x) (.number y) = .ok true ↔ ∃ z, e = .number z ∧ x.le z ∧ z.le y := by
  cases e with
  | number z =>
    have hle : Entry.le? (.number x) (.number z) = .ok (x.le z) := rfl
    rw [Entry.within?, hle, ok_bind]
    by_cases h : x.le z <;> simp [h, Entry.le?]
  | _ => simp [Entry.within?, Entry.le?]

/-- A number lies only between numbers. -/
theorem Entry.number_within?_eq_true {x : Number} {lower upper : Entry} :
    (Entry.number x).within? lower upper = .ok true ↔
      ∃ l u, lower = .number l ∧ upper = .number u ∧ l.le x ∧ x.le u := by
  constructor
  · intro h
    cases lower with
    | number l =>
      have hle : Entry.le? (.number l) (.number x) = .ok (l.le x) := rfl
      rw [within?, hle, ok_bind] at h
      by_cases hl : l.le x
      · cases upper with
        | number u => exact ⟨l, u, rfl, rfl, hl, by simpa [hl, le?] using h⟩
        | _ => simp [hl, le?] at h
      · simp [hl] at h
    | _ => simp [within?, le?] at h
  · rintro ⟨l, u, rfl, rfl, hl, hu⟩
    exact within?_number_eq_true.mpr ⟨x, rfl, hl, hu⟩

/-! ## New arrays -/

section Room

variable [Memory] {bytes size count n k : Nat}

/-- **There is room** for an array of `n` elements of so many bytes each. -/
structure Fits (bytes n : Nat) : Prop where
  addressed : (n : Int) * bytes ≤ byteLimit
  held : n * bytes ≤ Memory.bytes

/-- What takes no more bytes has room as well. -/
theorem Fits.mono (h : Fits bytes n) (le : k * size ≤ n * bytes) : Fits size k := by
  have hle : (k : Int) * size ≤ n * bytes := by exact_mod_cast le
  exact ⟨Int.le_trans hle h.addressed, Nat.le_trans le h.held⟩

/-- The elements are counted by a word. -/
theorem Fits.isWord (h : Fits bytes n) (hbytes : 1 ≤ bytes) : Entry.IsWord n := by
  have haddressed := h.addressed
  have hleast : (n : Int) * 1 ≤ n * bytes := by
    exact_mod_cast Nat.mul_le_mul_left n hbytes
  simp only [byteLimit] at haddressed
  exact ⟨by omega, by omega⟩

theorem room?_natCast_eq_ok : room? bytes n = .ok count ↔ Fits bytes n ∧ n = count := by
  simp only [room?, refuse_eq_ok, Except.ok.injEq, Int.not_lt, Int.toNat_natCast]
  constructor
  · rintro ⟨addressed, held, rfl⟩
    exact ⟨⟨addressed, by exact_mod_cast held⟩, rfl⟩
  · rintro ⟨⟨addressed, held⟩, rfl⟩
    exact ⟨addressed, by exact_mod_cast held, rfl⟩

/-- **There is a new array of so many elements if there is room for them**, and it has that many. -/
theorem newSide?_natCast_eq_ok (hbytes : 1 ≤ bytes) :
    newSide? bytes (.whole n) = .ok count ↔ Fits bytes n ∧ n = count := by
  simp only [newSide?, refuse_eq_ok, room?_natCast_eq_ok]
  refine ⟨fun ⟨_, _, h⟩ => h, fun ⟨fits, hcount⟩ => ⟨by omega, ?_, fits, hcount⟩⟩
  have hword := (fits.isWord hbytes).2
  simp only [byteLimit]
  omega

/-- No array has fewer elements than none. -/
theorem newSide?_eq_ok {side : Datum} (h : newSide? bytes side = .ok count) :
    side = .whole count := by
  unfold newSide? at h
  split at h
  next n =>
    simp only [room?, refuse_eq_ok, Except.ok.injEq, Int.not_lt] at h
    obtain ⟨nonneg, -, -, -, rfl⟩ := h
    rw [Int.toNat_of_nonneg nonneg]
  · exact nomatch h

variable {fault : Fault}

theorem room?_eq_error {n : Int} (h : room? bytes n = .error fault) :
    fault = .arrayTooLarge ∨ fault = .outOfMemory := by
  unfold room? at h
  split at h
  · exact .inl (Except.error.inj h).symm
  · split at h
    · exact .inr (Except.error.inj h).symm
    · exact nomatch h

/-- Where there is no new array, it would be too large, or memory runs out. -/
theorem newSide?_natCast_eq_error (h : newSide? bytes (.whole n) = .error fault) :
    fault = .sideTooLarge ∨ fault = .arrayTooLarge ∨ fault = .outOfMemory := by
  rw [newSide?, if_neg (Int.not_lt.mpr (Int.natCast_nonneg n))] at h
  split at h
  · exact .inl (Except.error.inj h).symm
  · exact .inr (room?_eq_error h)

end Room

/-! ## Arrays -/

namespace Nested

variable {α β : Type}

/-- **An array is read if it is full** and has not too many sides, and if its entries are. -/
theorem read?_eq_ok {read : α → Except Fault β} {a : Nested α} {sides : Shape} {ys : List β} :
    a.read? read = .ok (sides, ys) ↔
      a.extent = ⟨sides, true⟩ ∧ sides.length ≤ sideLimit ∧ a.entries.mapM read = .ok ys := by
  rcases hextent : a.extent with ⟨shape, full⟩
  cases full with
  | true =>
    simp only [read?, hextent, if_true, refuse_eq_ok, bind_eq_ok, Except.ok.injEq, Prod.mk.injEq,
      Extent.mk.injEq, and_true]
    constructor
    · rintro ⟨hlimit, _, hread, rfl, rfl⟩
      exact ⟨rfl, Nat.le_of_not_lt hlimit, hread⟩
    · rintro ⟨rfl, hlimit, hread⟩
      exact ⟨Nat.not_lt_of_le hlimit, ys, hread, rfl, rfl⟩
  | false => simp [read?, hextent, refuse_eq_ok]

/-- **What is read has the shape of the array**, with an entry for each position. -/
theorem length_of_read? {read : α → Except Fault β} {a : Nested α} {sides : Shape} {ys : List β}
    (h : a.read? read = .ok (sides, ys)) : ys.length = sides.prod := by
  obtain ⟨hextent, -, hread⟩ := read?_eq_ok.mp h
  have hfull : a.extent.full := by rw [hextent]
  rw [← (mapM_eq_ok.mp hread).length_eq, length_entries a hfull, hextent]

/-- **A flat list is read item by item.** -/
theorem read?_ofList (read : α → Except Fault β) (xs : List α) :
    (ofList xs).read? read = (xs.mapM read).map fun ys => ([xs.length], ys) := by
  rw [read?, extent_ofList, entries_ofList]
  cases xs.mapM read <;> rfl

/-- **A list of entries is read as what they were made from.** -/
theorem read?_map {entry : β → α} {read : α → Except Fault β} {xs : List β}
    (h : ∀ x ∈ xs, read (entry x) = .ok x) :
    (node (xs.map fun x => leaf (entry x))).read? read = .ok ([xs.length], xs) := by
  have hread : (xs.map entry).mapM read = .ok xs := by
    rw [List.mapM_map]
    exact mapM_self_of_ok h
  have hlist : node (xs.map fun x => leaf (entry x)) = ofList (xs.map entry) := by
    rw [ofList, List.map_map]
    rfl
  rw [hlist, read?_ofList, hread, ok_map, List.length_map]

end Nested

namespace Datum

/-- The items of a list of integers are these integers. -/
@[simp] theorem mapM_toInt?_whole (is : List Int) : (is.map Datum.whole).mapM toInt? = .ok is := by
  rw [List.mapM_map]
  exact mapM_self_of_ok fun _ _ => rfl

end Datum

/-- Integers that fit a word are read as words. -/
theorem Entry.word?_of_isWord {i : Int} (h : IsWord i) : word? i = .ok i := if_pos h

/-- An entry of an array of words is read as an integer that fits a word. -/
theorem Entry.toWord?_eq_ok {e : Entry} {i : Int} :
    e.toWord? = .ok i ↔ e.toInt? = .ok i ∧ IsWord i := by
  simp only [toWord?, word?, bind_eq_ok, require_eq_ok, Except.ok.injEq]
  constructor
  · rintro ⟨_, hread, hword, rfl⟩
    exact ⟨hread, hword⟩
  · rintro ⟨hread, hword⟩
    exact ⟨i, hread, hword, rfl⟩

namespace Datum

/-- **An array of integers that fit a word is read as these integers.** -/
theorem words?_wholes {is : List Int} (h : ∀ i ∈ is, Entry.IsWord i) :
    (wholes is).words? = .ok ([is.length], is) :=
  Nested.read?_map fun i hi => Entry.word?_of_isWord (h i hi)

/-- **An array of doubles is read as it is.** -/
theorem doubles?_reals (xs : List Binary64) : (reals xs).doubles? = .ok ([xs.length], xs) :=
  Nested.read?_map fun _ _ => rfl

/-- **An array of truth values is read as it is.** -/
theorem bits?_flags (bs : List Bool) : (flags bs).bits? = .ok ([bs.length], bs) :=
  Nested.read?_map fun _ _ => rfl

end Datum

end MigrationPlan
