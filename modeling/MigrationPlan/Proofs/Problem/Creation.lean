import MigrationPlan.Problem.Sample
import MigrationPlan.Proofs.Datum.Reading
import MigrationPlan.Proofs.Numeric.Whole
import MigrationPlan.Proofs.Problem.Answers

/-!
# Proofs/Problem/Creation — which arrays make a problem

A problem is made from three arrays and the sizes announced for them.  What is made is well-formed,
whatever is handed over (`wellFormed_of_create`).  Of whole numbers, only the matrices and budgets
of a well-formed problem make one, and they make that problem: an array is told by its sides and its
entries, and both are checked (`create_eq_ok_iff_isGivenBy`).

* `readArray_eq_ok` — an array of words, none negative;
* `hasSides_iff` — sizes are announced by any numbers that stand at these sizes;
* **`ofLists_exact`** — lists are accepted exactly if they are the rows of a well-formed problem,
  problems are equal exactly if their sizes and entries are, and all problems are well-formed.
-/

namespace MigrationPlan

/-! ## Announced sizes -/

/-- A number of any form that is a natural number. -/
def Number.StandsAt (n : Number) (k : Nat) : Prop :=
  n.extended? = some (.point ((k : Int) : Rat))

namespace Number.StandsAt

variable {n : Number} {k l : Nat}

theorem unique (hk : n.StandsAt k) (hl : n.StandsAt l) : k = l := by
  have hpoint : ((k : Int) : Rat) = ((l : Int) : Rat) :=
    Extended.point.inj (Option.some.inj (hk.symm.trans hl))
  exact_mod_cast hpoint

theorem lt_one_eq_false_iff (h : n.StandsAt k) : n.lt (.whole 1) = false ↔ 1 ≤ k := by
  rw [Number.lt_of_extended? h (y := .whole 1) rfl, decide_eq_false_iff_not]
  omega

end Number.StandsAt

/-! ## Arrays of whole numbers -/

/-- A natural number as an entry. -/
def Entry.natural (n : Nat) : Entry :=
  .number (.whole n)

namespace Datum

/-- Nested lists of whole numbers, of any depth and even or not. -/
def IsIntegral (d : Datum) : Prop :=
  ∀ e ∈ d.entries, ∃ i : Int, e = .number (.whole i)

/-- Natural numbers as a list. -/
def row (xs : List Nat) : Datum :=
  .wholes (xs.map Int.ofNat)

/-- Rows of natural numbers as a list of lists. -/
def matrix (rows : List (List Nat)) : Datum :=
  .node (rows.map row)

theorem row_eq_ofList (xs : List Nat) : row xs = .ofList (xs.map Entry.natural) := by
  rw [row, wholes, Nested.ofList, List.map_map, List.map_map]
  rfl

@[simp] theorem extent_row (xs : List Nat) : (row xs).extent = ⟨[xs.length], true⟩ := by
  rw [row_eq_ofList, Nested.extent_ofList, List.length_map]

@[simp] theorem entries_row (xs : List Nat) : (row xs).entries = xs.map Entry.natural := by
  rw [row_eq_ofList, Nested.entries_ofList]

theorem matrix_eq_rows (rows : List (List Nat)) :
    matrix rows = .node ((rows.map (·.map Entry.natural)).map Nested.ofList) := by
  rw [matrix, List.map_map]
  exact congrArg Nested.node (List.map_congr_left fun xs _ => row_eq_ofList xs)

/-- A matrix is a full array with two sides. -/
theorem extent_matrix {n m : Nat} {rows : List (List Nat)} (h : Problem.IsMatrix n m rows)
    (hn : 1 ≤ n) : (matrix rows).extent = ⟨[n, m], true⟩ := by
  have hne : rows.map (·.map Entry.natural) ≠ [] := by
    rw [Ne, List.map_eq_nil_iff, ← List.length_eq_zero_iff, h.1]
    omega
  have hrows : ∀ row ∈ rows.map (·.map Entry.natural), row.length = m :=
    List.forall_mem_map.mpr fun row hrow => (List.length_map _).trans (h.2 row hrow).1
  rw [matrix_eq_rows, Nested.extent_rows hne hrows, List.length_map, h.1]

theorem entries_matrix (rows : List (List Nat)) :
    (matrix rows).entries = rows.flatten.map Entry.natural := by
  rw [matrix_eq_rows, Nested.entries_rows, List.map_flatten]

theorem isIntegral_of_entries {d : Datum} {xs : List Nat}
    (h : d.entries = xs.map Entry.natural) : d.IsIntegral := by
  rw [IsIntegral, h]
  exact List.forall_mem_map.mpr fun x _ => ⟨x, rfl⟩

theorem isIntegral_row (xs : List Nat) : (row xs).IsIntegral :=
  isIntegral_of_entries (entries_row xs)

theorem isIntegral_matrix (rows : List (List Nat)) : (matrix rows).IsIntegral :=
  isIntegral_of_entries (entries_matrix rows)

/-- A size is announced by a number that stands at it. -/
def Announces (d : Datum) (k : Nat) : Prop :=
  ∃ n, d = .number n ∧ n.StandsAt k

end Datum

namespace Problem

variable {name : ProblemArray} {array value cost budget versions functionalities : Datum}
  {sides : Shape} {xs : List Nat} {p : Problem}

/-! ## Reading arrays -/

/-- An array is read if it is one of words, none of them negative. -/
theorem readArray_eq_ok :
    readArray name array = .ok (sides, xs) ↔
      ∃ is, array.words? = .ok (sides, is) ∧ (∀ i ∈ is, 0 ≤ i) ∧ is.map Int.toNat = xs := by
  rw [readArray]
  rcases array.words? with fault | ⟨sides', is⟩
  · simp
  · simp only [refuse_eq_ok, Except.ok.injEq, Prod.mk.injEq, List.any_eq_true, decide_eq_true_eq,
      not_exists, not_and, not_lt]
    constructor
    · rintro ⟨hnonneg, rfl, rfl⟩
      exact ⟨is, ⟨rfl, rfl⟩, hnonneg, rfl⟩
    · rintro ⟨_, ⟨rfl, rfl⟩, hnonneg, rfl⟩
      exact ⟨hnonneg, rfl, rfl⟩

/-- What is read has an admissible entry for each position. -/
theorem bounds_of_readArray (h : readArray name array = .ok (sides, xs)) :
    xs.length = sides.prod ∧ ∀ x ∈ xs, x ≤ maxEntry := by
  obtain ⟨is, hread, hnonneg, rfl⟩ := readArray_eq_ok.mp h
  refine ⟨(List.length_map _).trans (Nested.length_of_read? hread), ?_⟩
  obtain ⟨-, -, hwords⟩ := Nested.read?_eq_ok.mp hread
  refine List.forall_mem_map.mpr fun i hi => ?_
  obtain ⟨e, -, he⟩ := exists_of_mem_mapM hwords hi
  have hword : i < 0x8000000000000000 := (Entry.toWord?_eq_ok.mp he).2.2
  rw [maxEntry]
  omega

/-- Of whole numbers, all are kept. -/
theorem entries_of_readArray (integral : array.IsIntegral)
    (h : readArray name array = .ok (sides, xs)) :
    array.extent = ⟨sides, true⟩ ∧ array.entries = xs.map Entry.natural := by
  obtain ⟨is, hread, hnonneg, rfl⟩ := readArray_eq_ok.mp h
  obtain ⟨hextent, -, hwords⟩ := Nested.read?_eq_ok.mp hread
  have hwholes : array.entries = is.map fun i => Entry.number (.whole i) := by
    rw [← List.forall₂_eq_eq_eq, List.forall₂_map_right_iff]
    refine ((List.forall₂_and_left _ _).mpr ⟨integral, mapM_eq_ok.mp hwords⟩).imp ?_
    rintro _ i ⟨⟨k, rfl⟩, hread⟩
    obtain rfl : k = i := Except.ok.inj (Entry.toWord?_eq_ok.mp hread).1
    rfl
  rw [hwholes, List.map_map]
  refine ⟨hextent, List.map_congr_left fun i hi => ?_⟩
  rw [Function.comp_apply, Entry.natural, Int.toNat_of_nonneg (hnonneg i hi)]

/-- A full array of admissible entries is read. -/
theorem readArray_of_entries (hextent : array.extent = ⟨sides, true⟩)
    (hlimit : sides.length ≤ sideLimit) (hentries : array.entries = xs.map Entry.natural)
    (hle : ∀ x ∈ xs, x ≤ maxEntry) : readArray name array = .ok (sides, xs) := by
  have hwords : array.entries.mapM Entry.toWord? = .ok (xs.map Int.ofNat) := by
    rw [hentries, mapM_eq_ok, List.forall₂_map_left_iff, List.forall₂_map_right_iff,
      List.forall₂_same]
    intro x hx
    have hx : x ≤ 0x7FFFFFFFFFFFFFFF := hle x hx
    exact Entry.toWord?_eq_ok.mpr ⟨rfl, by rw [Int.ofNat_eq_natCast, Entry.IsWord]; omega⟩
  refine readArray_eq_ok.mpr ⟨_, Nested.read?_eq_ok.mpr ⟨hextent, hlimit, hwords⟩, ?_, ?_⟩
  · exact List.forall_mem_map.mpr fun x _ => Int.natCast_nonneg x
  · rw [List.map_map]
    exact List.map_id xs

/-! ## Rows -/

theorem flatten_toRows {rows columns : Nat} {xs : List Nat} (h : xs.length = rows * columns) :
    (toRows columns rows xs).flatten = xs := by
  induction rows generalizing xs with
  | zero => simpa [toRows, eq_comm] using h
  | succ rows ih =>
    have hrest : (xs.drop columns).length = rows * columns := by
      rw [List.length_drop, h, Nat.succ_mul, Nat.add_sub_cancel]
    rw [toRows, List.flatten_cons, ih hrest, List.take_append_drop]

theorem toRows_flatten {columns : Nat} {m : List (List Nat)}
    (h : ∀ row ∈ m, row.length = columns) : toRows columns m.length m.flatten = m := by
  induction m with
  | nil => rfl
  | cons row m ih =>
    obtain ⟨hrow, hm⟩ := List.forall_mem_cons.mp h
    rw [List.flatten_cons, List.length_cons, toRows, List.take_left' hrow, List.drop_left' hrow,
      ih hm]

/-- Entries that are cut into rows make a matrix. -/
theorem isMatrix_toRows {rows columns : Nat} {xs : List Nat} (h : xs.length = rows * columns)
    (hle : ∀ x ∈ xs, x ≤ maxEntry) : IsMatrix rows columns (toRows columns rows xs) := by
  induction rows generalizing xs with
  | zero => exact ⟨rfl, by simp [toRows]⟩
  | succ rows ih =>
    rw [Nat.succ_mul] at h
    have hrest : (xs.drop columns).length = rows * columns := by
      rw [List.length_drop, h, Nat.add_sub_cancel]
    obtain ⟨hlength, hrows⟩ := ih hrest fun x hx => hle x (List.mem_of_mem_drop hx)
    refine ⟨congrArg Nat.succ hlength, List.forall_mem_cons.mpr ⟨⟨?_, ?_⟩, hrows⟩⟩
    · rw [List.length_take]
      omega
    · exact fun x hx => hle x (List.mem_of_mem_take hx)

/-! ## Sizes -/

theorem readSize_eq_ok {fault : Number → Fault} {size : Datum} {n : Number} :
    readSize fault size = .ok n ↔ size = .number n ∧ n.lt (.whole 1) = false := by
  simp only [readSize, bind_eq_ok, Datum.number?_eq_ok, refuse_eq_ok, Except.ok.injEq,
    Bool.not_eq_true]
  constructor
  · rintro ⟨_, rfl, hlt, rfl⟩
    exact ⟨rfl, hlt⟩
  · rintro ⟨rfl, hlt⟩
    exact ⟨n, rfl, hlt, rfl⟩

/-- Sides are as announced if each number stands at its side. -/
theorem hasSides_iff {announced : List Number} :
    hasSides sides announced ↔ List.Forall₂ (fun k n => n.StandsAt k) sides announced := by
  induction sides generalizing announced with
  | nil => cases announced <;> simp [hasSides]
  | cons k sides ih =>
    cases announced with
    | nil => simp [hasSides]
    | cons n announced =>
      rw [List.forall₂_cons, ← ih, Number.StandsAt, Number.extended?_eq_point_iff]
      simp only [hasSides, List.length_cons, Nat.add_right_cancel_iff, List.zipWith_cons_cons,
        List.all_cons, id_eq, Bool.and_eq_true, decide_eq_true_eq]
      exact and_left_comm

/-- The sides of a matrix are as announced. -/
theorem hasSides_pair {n m : Number} :
    hasSides sides [n, m] ↔ ∃ k l, sides = [k, l] ∧ n.StandsAt k ∧ m.StandsAt l := by
  simp only [hasSides_iff, List.forall₂_cons_right_iff, List.forall₂_nil_right_iff]
  constructor
  · rintro ⟨k, _, hk, ⟨l, _, hl, rfl, rfl⟩, rfl⟩
    exact ⟨k, l, rfl, hk, hl⟩
  · rintro ⟨k, l, rfl, hk, hl⟩
    exact ⟨k, [l], hk, ⟨l, [], hl, rfl, rfl⟩, rfl⟩

/-- The side of a list is as announced. -/
theorem hasSides_single {n : Number} :
    hasSides sides [n] ↔ ∃ k, sides = [k] ∧ n.StandsAt k := by
  simp only [hasSides_iff, List.forall₂_cons_right_iff, List.forall₂_nil_right_iff]
  constructor
  · rintro ⟨k, _, hk, rfl, rfl⟩
    exact ⟨k, rfl, hk⟩
  · rintro ⟨k, rfl, hk⟩
    exact ⟨k, [], hk, rfl, rfl⟩

/-! ## Problems -/

/-- **A problem is made from arrays of its announced sizes**, cut into rows. -/
theorem create_eq_ok :
    create versions functionalities value cost budget = .ok p ↔
      versions.Announces p.versions ∧ functionalities.Announces p.functionalities
        ∧ 1 ≤ p.versions ∧ 1 ≤ p.functionalities
        ∧ ∃ values costs, readArray .value value = .ok ([p.versions, p.functionalities], values)
          ∧ readArray .cost cost = .ok ([p.versions, p.functionalities], costs)
          ∧ readArray .budget budget = .ok ([p.versions], p.budget)
          ∧ toRows p.functionalities p.versions values = p.value
          ∧ toRows p.functionalities p.versions costs = p.cost := by
  simp only [create, bind_eq_ok, error_bind, readSize_eq_ok, refuse_eq_ok, Bool.not_eq_true',
    Bool.not_eq_false, hasSides_pair, hasSides_single, Prod.exists, Except.ok.injEq]
  constructor
  · rintro ⟨n, ⟨rfl, hn⟩, m, ⟨rfl, hm⟩, _, values, hvalue, _, costs, hcost, _, budgets, hbudget,
      ⟨k, l, rfl, hk, hl⟩, ⟨k', l', rfl, hk', hl'⟩, ⟨k'', rfl, hk''⟩, rfl⟩
    obtain rfl := hk.unique hk'
    obtain rfl := hk.unique hk''
    obtain rfl := hl.unique hl'
    exact ⟨⟨n, rfl, hk⟩, ⟨m, rfl, hl⟩, hk.lt_one_eq_false_iff.mp hn, hl.lt_one_eq_false_iff.mp hm,
      values, costs, hvalue, hcost, hbudget, rfl, rfl⟩
  · rintro ⟨⟨n, rfl, hk⟩, ⟨m, rfl, hl⟩, hn, hm, values, costs, hvalue, hcost, hbudget, hvalues,
      hcosts⟩
    have hp : Problem.mk p.versions p.functionalities (toRows p.functionalities p.versions values)
        (toRows p.functionalities p.versions costs) p.budget = p := by rw [hvalues, hcosts]
    exact ⟨n, ⟨rfl, hk.lt_one_eq_false_iff.mpr hn⟩, m, ⟨rfl, hl.lt_one_eq_false_iff.mpr hm⟩,
      _, values, hvalue, _, costs, hcost, _, _, hbudget, ⟨_, _, rfl, hk, hl⟩,
      ⟨_, _, rfl, hk, hl⟩, ⟨_, rfl, hk⟩, hp⟩

/-- **What is made is well-formed**, whatever it is made from. -/
theorem wellFormed_of_create (h : create versions functionalities value cost budget = .ok p) :
    p.WellFormed := by
  obtain ⟨-, -, hn, hm, values, costs, hvalue, hcost, hbudget, hvalues, hcosts⟩ :=
    create_eq_ok.mp h
  have hmatrix {name : ProblemArray} {array : Datum} {xs : List Nat}
      (hread : readArray name array = .ok ([p.versions, p.functionalities], xs)) :
      IsMatrix p.versions p.functionalities (toRows p.functionalities p.versions xs) := by
    obtain ⟨hlength, hle⟩ := bounds_of_readArray hread
    exact isMatrix_toRows (by simpa using hlength) hle
  obtain ⟨hlength, hle⟩ := bounds_of_readArray hbudget
  exact
    { one_le_versions := hn
      one_le_functionalities := hm
      value := hvalues ▸ hmatrix hvalue
      cost := hcosts ▸ hmatrix hcost
      budget := ⟨hlength.trans List.prod_singleton, hle⟩ }

/-- **The arrays of a well-formed problem**: its rows and budgets, as they are. -/
structure IsGivenBy (p : Problem) (value cost budget : Datum) : Prop where
  wellFormed : p.WellFormed
  value : value = .matrix p.value
  cost : cost = .matrix p.cost
  budget : budget = .row p.budget

/-- The rows of a matrix are read back from it. -/
theorem readArray_matrix {n m : Nat} {rows : List (List Nat)} (h : IsMatrix n m rows)
    (hn : 1 ≤ n) : readArray name (.matrix rows) = .ok ([n, m], rows.flatten) := by
  refine readArray_of_entries (Datum.extent_matrix h hn) (by simp [sideLimit])
    (Datum.entries_matrix rows) fun x hx => ?_
  obtain ⟨row, hrow, hx⟩ := List.mem_flatten.mp hx
  exact (h.2 row hrow).2 x hx

/-- An array of whole numbers from which rows are cut is a list of these rows. -/
theorem eq_matrix_of_readArray {n m : Nat} (integral : array.IsIntegral) (hn : 1 ≤ n)
    (h : readArray name array = .ok ([n, m], xs)) : array = .matrix (toRows m n xs) := by
  obtain ⟨hextent, hentries⟩ := entries_of_readArray integral h
  obtain ⟨hlength, hle⟩ := bounds_of_readArray h
  have hlength : xs.length = n * m := by simpa using hlength
  refine Nested.eq_of_entries_eq _ _ (by rw [hextent]) ?_ ?_
  · rw [hextent, Datum.extent_matrix (isMatrix_toRows hlength hle) hn]
  · rw [hentries, Datum.entries_matrix, flatten_toRows hlength]

/-- **Whole numbers make a problem exactly if they are its rows and its budgets**, and its sizes are
announced. -/
theorem create_eq_ok_iff_isGivenBy (hvalue : value.IsIntegral) (hcost : cost.IsIntegral)
    (hbudget : budget.IsIntegral) :
    create versions functionalities value cost budget = .ok p ↔
      versions.Announces p.versions ∧ functionalities.Announces p.functionalities
        ∧ p.IsGivenBy value cost budget := by
  constructor
  · intro h
    obtain ⟨hversions, hfunctionalities, hn, -, values, costs, hvalues, hcosts, hbudgets, hrows,
      hrows'⟩ := create_eq_ok.mp h
    refine ⟨hversions, hfunctionalities, wellFormed_of_create h, ?_, ?_, ?_⟩
    · rw [eq_matrix_of_readArray hvalue hn hvalues, hrows]
    · rw [eq_matrix_of_readArray hcost hn hcosts, hrows']
    · obtain ⟨hextent, hentries⟩ := entries_of_readArray hbudget hbudgets
      obtain ⟨hlength, -⟩ := bounds_of_readArray hbudgets
      refine Nested.eq_of_entries_eq _ _ (by rw [hextent]) ?_ ?_
      · rw [hextent, Datum.extent_row, hlength, List.prod_singleton]
      · rw [hentries, Datum.entries_row]
  · rintro ⟨hversions, hfunctionalities, valid, rfl, rfl, rfl⟩
    have hrows {m : List (List Nat)} (h : IsMatrix p.versions p.functionalities m) :
        toRows p.functionalities p.versions m.flatten = m := by
      rw [← h.1, toRows_flatten fun row hrow => (h.2 row hrow).1]
    have hbudgets : readArray .budget (.row p.budget) = .ok ([p.versions], p.budget) :=
      readArray_of_entries (by rw [Datum.extent_row, valid.budget.1]) (by simp [sideLimit])
        (Datum.entries_row p.budget) valid.budget.2
    exact create_eq_ok.mpr ⟨hversions, hfunctionalities, valid.one_le_versions,
      valid.one_le_functionalities, _, _, readArray_matrix valid.value valid.one_le_versions,
      readArray_matrix valid.cost valid.one_le_versions, hbudgets, hrows valid.value,
      hrows valid.cost⟩

/-! ## Lists -/

/-- What is made from lists is made with the size that they have. -/
theorem exists_create_of_ofLists (h : ofLists value cost budget = .ok p) :
    ∃ n m : Int, create (.whole n) (.whole m) value cost budget = .ok p := by
  simp only [ofLists, bind_eq_ok] at h
  obtain ⟨rows, -, h⟩ := h
  cases rows with
  | nil => exact ⟨0, 0, h⟩
  | cons row rows =>
    obtain ⟨m, -, h⟩ := bind_eq_ok.mp h
    exact ⟨_, _, h⟩

/-- Equal rows announce the size of a matrix. -/
theorem ofLists_matrix {n m : Nat} {rows : List (List Nat)} (h : IsMatrix n m rows) (hn : 1 ≤ n) :
    ofLists (.matrix rows) cost budget
      = create (.whole n) (.whole m) (.matrix rows) cost budget := by
  obtain ⟨row, rows, rfl⟩ := List.exists_cons_of_length_pos (h.1 ▸ hn)
  have hrow : (row.map Int.ofNat).length = m :=
    (List.length_map _).trans (h.2 row (List.mem_cons_self ..)).1
  have hcreate : ofLists (.matrix (row :: rows)) cost budget
      = create (.whole ((row :: rows).map Datum.row).length)
        (.whole ((row.map Int.ofNat).map Datum.whole).length) (.matrix (row :: rows)) cost budget :=
    rfl
  rw [hcreate, List.length_map, List.length_map, h.1, hrow]

/-- **Lists of whole numbers make a problem exactly if they are its rows and its budgets.** -/
theorem ofLists_eq_ok_iff_isGivenBy (hvalue : value.IsIntegral) (hcost : cost.IsIntegral)
    (hbudget : budget.IsIntegral) :
    ofLists value cost budget = .ok p ↔ p.IsGivenBy value cost budget := by
  constructor
  · intro h
    obtain ⟨n, m, h⟩ := exists_create_of_ofLists h
    exact ((create_eq_ok_iff_isGivenBy hvalue hcost hbudget).mp h).2.2
  · intro given
    rw [given.value, ofLists_matrix given.wellFormed.value given.wellFormed.one_le_versions,
      ← given.value, create_eq_ok_iff_isGivenBy hvalue hcost hbudget]
    exact ⟨⟨_, rfl, rfl⟩, ⟨_, rfl, rfl⟩, given⟩

/-! ## Equality -/

/-- Matrices of one size are equal if their entries are. -/
theorem IsMatrix.ext {n m : Nat} {rows rows' : List (List Nat)} (h : IsMatrix n m rows)
    (h' : IsMatrix n m rows')
    (hentries : ∀ i < n, ∀ j < m, (rows.getD i []).getD j 0 = (rows'.getD i []).getD j 0) :
    rows = rows' := by
  refine List.ext_getElem (h.1.trans h'.1.symm) fun i hi hi' => ?_
  have hrow := (h.2 _ (List.getElem_mem hi)).1
  have hrow' := (h'.2 _ (List.getElem_mem hi')).1
  refine List.ext_getElem (hrow.trans hrow'.symm) fun j hj hj' => ?_
  have hentry := hentries i (h.1 ▸ hi) j (hrow ▸ hj)
  simpa [hi, hi', hj, hj'] using hentry

/-- **Problems have the same sizes and the same entries.** -/
structure SameEntries (p q : Problem) : Prop where
  versions : p.versions = q.versions
  functionalities : p.functionalities = q.functionalities
  value {i j : Nat} : i < p.versions → j < p.functionalities →
    (p.value.getD i []).getD j 0 = (q.value.getD i []).getD j 0
  cost {i j : Nat} : i < p.versions → j < p.functionalities →
    (p.cost.getD i []).getD j 0 = (q.cost.getD i []).getD j 0
  budget {i : Nat} : i < p.versions → p.budget.getD i 0 = q.budget.getD i 0

/-- The five comparisons find a difference wherever there is one. -/
instance : LawfulBEq Problem where
  rfl {p} := by
    simp only [beq_eq_equals, equals, beq_self_eq_true, Bool.and_self]
  eq_of_beq {p q} h := by
    cases p
    cases q
    simpa only [beq_eq_equals, equals, Bool.and_eq_true, beq_iff_eq, mk.injEq, and_assoc] using h

/-- **Problems are equal if their sizes and entries are.** -/
theorem beq_iff_sameEntries {p q : Problem} (hp : p.WellFormed) (hq : q.WellFormed) :
    p == q ↔ p.SameEntries q := by
  rw [beq_iff_eq]
  constructor
  · rintro rfl
    exact ⟨rfl, rfl, fun _ _ => rfl, fun _ _ => rfl, fun _ => rfl⟩
  · intro same
    have hbudget : p.budget = q.budget := by
      refine List.ext_getElem (by rw [hp.budget.1, hq.budget.1, same.versions]) fun i hi hi' => ?_
      have hentry := same.budget (hp.budget.1 ▸ hi)
      simpa [hi, hi'] using hentry
    have hvalue : p.value = q.value := hp.value.ext
      (same.versions ▸ same.functionalities ▸ hq.value) fun i hi j hj => same.value hi hj
    have hcost : p.cost = q.cost := hp.cost.ext
      (same.versions ▸ same.functionalities ▸ hq.cost) fun i hi j hj => same.cost hi hj
    cases p
    cases q
    exact Problem.mk.injEq .. ▸ ⟨same.versions, same.functionalities, hvalue, hcost, hbudget⟩

/-! ## All problems -/

/-- The ways in which problems are made: from lists, from arrays and announced sizes, and by
reading what is written, whatever the memory. -/
inductive IsMade : Problem → Prop
  | ofLists {value cost budget : Datum} {p : Problem} (h : ofLists value cost budget = .ok p) :
      IsMade p
  | create {versions functionalities value cost budget : Datum} {p : Problem}
      (h : create versions functionalities value cost budget = .ok p) : IsMade p
  | announced {versions functionalities value cost budget : Datum} {a : AnnouncedProblem}
      (h : AnnouncedProblem.create versions functionalities value cost budget = .ok a) :
      IsMade a.problem
  | ofSource [Memory] {source : Datum} {p : Problem} (h : ofSource source = .ok p) : IsMade p
  | ofText [Memory] {s : String} {p : Problem} (h : ofText s = .ok p) : IsMade p
  | ofFileText [Memory] {s : String} {p : Problem} (h : ofFileText s = .ok p) : IsMade p

/-- What is read from a source is read from lines. -/
theorem exists_ofLines_of_ofSource [Memory] {source : Datum} (h : ofSource source = .ok p) :
    ∃ lines, ofLines lines = .ok p := by
  rcases source with (_ | _ | s) | parts
  · cases h
  · cases h
  · exact ⟨_, h⟩
  · rw [ofSource] at h
    split at h
    · cases h
    · exact ⟨_, h⟩

/-- **All problems are well-formed.** -/
theorem IsMade.wellFormed (h : p.IsMade) : p.WellFormed := by
  cases h with
  | ofLists h =>
    obtain ⟨n, m, h⟩ := exists_create_of_ofLists h
    exact wellFormed_of_create h
  | create h => exact wellFormed_of_create h
  | announced h =>
    simp only [AnnouncedProblem.create, bind_eq_ok, Except.ok.injEq] at h
    obtain ⟨p, hp, _, -, _, -, rfl⟩ := h
    exact wellFormed_of_create hp
  | ofSource h =>
    obtain ⟨lines, h⟩ := exists_ofLines_of_ofSource h
    exact wellFormed_of_ofLines h
  | ofText h => exact wellFormed_of_ofLines h
  | ofFileText h => exact wellFormed_of_ofLines h

/-- And all well-formed problems are made, from their own rows and budgets. -/
theorem isMade_of_wellFormed (valid : p.WellFormed) : p.IsMade :=
  .ofLists ((ofLists_eq_ok_iff_isGivenBy (Datum.isIntegral_matrix _) (Datum.isIntegral_matrix _)
    (Datum.isIntegral_row _)).mpr ⟨valid, rfl, rfl, rfl⟩)

/-- **Lists are taken exactly as they are.**  Nested lists of whole numbers, of any depth and even
or not, are accepted exactly if they are the rows and the budgets of a well-formed problem, which
then is the problem that is made; otherwise they are refused.  Well-formed problems are equal
exactly if their sizes and all their entries are.  And these are the problems there are: whatever is
made or read, from whatever input, is well-formed. -/
theorem ofLists_exact :
    (∀ value cost budget : Datum, value.IsIntegral → cost.IsIntegral → budget.IsIntegral →
      (∀ p, ofLists value cost budget = .ok p ↔ p.IsGivenBy value cost budget)
        ∧ ((∃ fault, ofLists value cost budget = .error fault)
          ↔ ∀ p : Problem, ¬p.IsGivenBy value cost budget))
    ∧ (∀ p q : Problem, p.WellFormed → q.WellFormed → (p == q ↔ p.SameEntries q))
    ∧ ∀ p : Problem, p.IsMade ↔ p.WellFormed := by
  refine ⟨fun value cost budget hvalue hcost hbudget => ?_,
    fun p q hp hq => beq_iff_sameEntries hp hq, fun p => ⟨IsMade.wellFormed, isMade_of_wellFormed⟩⟩
  have haccepted (p : Problem) :
      ofLists value cost budget = .ok p ↔ p.IsGivenBy value cost budget :=
    ofLists_eq_ok_iff_isGivenBy hvalue hcost hbudget
  refine ⟨haccepted, ?_⟩
  simp only [← haccepted]
  cases ofLists value cost budget <;> simp

/-- The sample problem is made of its rows, and no problem of rows of two lengths. -/
theorem ofLists_exact_sampleProblem :
    ofLists (.matrix sampleProblem.value) (.matrix sampleProblem.cost) (.row sampleProblem.budget)
        = .ok sampleProblem
      ∧ (∀ p : Problem, ¬p.IsGivenBy (.matrix [[1, 2], [3]]) (.matrix [[1, 2], [3, 4]])
        (.row [5, 6]))
      ∧ sampleProblem.SameEntries sampleProblem := by
  refine ⟨?_, ?_, ?_⟩
  · exact ((ofLists_exact.1 _ _ _ (Datum.isIntegral_matrix _) (Datum.isIntegral_matrix _)
      (Datum.isIntegral_row _)).1 sampleProblem).mpr ⟨wellFormed_sampleProblem, rfl, rfl, rfl⟩
  · exact (ofLists_exact.1 _ _ _ (Datum.isIntegral_matrix _) (Datum.isIntegral_matrix _)
      (Datum.isIntegral_row _)).2.mp ⟨.notFull .value, rfl⟩
  · exact (ofLists_exact.2.1 sampleProblem sampleProblem wellFormed_sampleProblem
      wellFormed_sampleProblem).mp (beq_self_eq_true _)

end Problem

end MigrationPlan
