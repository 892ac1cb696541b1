import MigrationPlan.Proofs.Problem.Reading

/-!
# Proofs/Problem/Grammar — which lines are a problem

The reader is a pair of nested loops that hand each other what is left of the lines.  `Describes`
knows no loops: it says for each number of a problem in which of the meaningful lines it stands.  A
version takes three lines and three more for each functionality, and the specification comes first.

* `readFunctionalities_eq_ok`, `readVersions_eq_ok` — what the loops read, by position;
* **`ofSource_eq_ok_iff`** — the lines that are read as a problem are those that describe it.
-/

namespace MigrationPlan.Problem

/-! ## Lines by position -/

/-- Line `k` is the line of an entry. -/
def EntryAt (texts : List (List Char)) (k : Nat) (keyword : String) (n : Nat) : Prop :=
  ∃ text, texts[k]? = some text ∧ IsEntry keyword n text

/-- The lines of a version with so many functionalities. -/
def blockLength (functionalities : Nat) : Nat := 3 + 3 * functionalities

/-- The line of the budget in a version that starts at a line. -/
def budgetLine (start : Nat) : Nat := start + 2

/-- The line of the cost of functionality `j` in a version that starts at a line. -/
def costLine (start j : Nat) : Nat := start + 3 + (3 * j + 1)

/-- The line of the value of functionality `j` in a version that starts at a line. -/
def valueLine (start j : Nat) : Nat := start + 3 + (3 * j + 2)

/-- The line at which version `i` starts; the specification is before all of them. -/
def versionStart (functionalities i : Nat) : Nat := 1 + i * blockLength functionalities

/-- **The lines that describe a problem.**  What comes behind the last version is of no account. -/
structure Describes (texts : List (List Char)) (p : Problem) : Prop where
  specification : ∃ text, texts[0]? = some text ∧ Announces p.versions p.functionalities text
  complete : versionStart p.functionalities p.versions ≤ texts.length
  budget_length : p.budget.length = p.versions
  cost_shape : p.cost.length = p.versions ∧ ∀ row ∈ p.cost, row.length = p.functionalities
  value_shape : p.value.length = p.versions ∧ ∀ row ∈ p.value, row.length = p.functionalities
  budget : ∀ i n, p.budget[i]? = some n →
    EntryAt texts (budgetLine (versionStart p.functionalities i)) "budget:" n
  cost : ∀ i row, p.cost[i]? = some row → ∀ j n, row[j]? = some n →
    EntryAt texts (costLine (versionStart p.functionalities i) j) "cost:" n
  value : ∀ i row, p.value[i]? = some row → ∀ j n, row[j]? = some n →
    EntryAt texts (valueLine (versionStart p.functionalities i) j) "bvalue:" n

/-! ## Steps -/

/-- What holds of all items of a list by position holds of the first one and of the others, which
are one position further down. -/
theorem forall_getElem?_cons {α : Type} {P : Nat → α → Prop} {x : α} {xs : List α} :
    (∀ i y, (x :: xs)[i]? = some y → P i y) ↔ P 0 x ∧ ∀ i y, xs[i]? = some y → P (i + 1) y := by
  constructor
  · intro h
    exact ⟨h 0 x rfl, fun i y hy => h (i + 1) y hy⟩
  · rintro ⟨hx, hxs⟩ (_ | i) y hy
    · obtain rfl : x = y := by simpa using hy
      exact hx
    · exact hxs i y hy

theorem entryAt_drop {texts : List (List Char)} {a k n : Nat} {keyword : String} :
    EntryAt (texts.drop a) k keyword n ↔ EntryAt texts (a + k) keyword n := by
  simp [EntryAt]

theorem entryAt_iff_of_getElem? {texts : List (List Char)} {text : List Char} {k n : Nat}
    {keyword : String} (h : texts[k]? = some text) :
    EntryAt texts k keyword n ↔ IsEntry keyword n text := by
  simp [EntryAt, h]

/-- No line has more digits in a row than a number may have. -/
def AreShort (ls : List Line) : Prop :=
  ∀ line ∈ ls, Text.WithinDigitLimit line.text

theorem AreShort.of_cons {line : Line} {ls : List Line} (short : AreShort (line :: ls)) :
    AreShort ls :=
  fun l hl => short l (List.mem_cons_of_mem _ hl)

theorem AreShort.drop {ls : List Line} (short : AreShort ls) (k : Nat) : AreShort (ls.drop k) :=
  fun l hl => short l (List.mem_of_mem_drop hl)

variable {ls rest : List Line} {c : LineClass} {keyword : String}

theorem nextEntry_eq_ok_iff_isEntry {n : Nat} (short : AreShort ls) :
    nextEntry c keyword ls = .ok (n, rest) ↔
      ∃ line, ls = line :: rest ∧ IsEntry keyword n line.text := by
  rw [nextEntry_eq_ok]
  constructor
  · rintro ⟨line, rfl, ds, hmatch, -, hvalue, hmax⟩
    exact ⟨line, rfl, ds, hmatch, hvalue, hmax⟩
  · rintro ⟨line, rfl, ds, hmatch, hvalue, hmax⟩
    have hds : ds ∈ [ds] := List.mem_singleton_self ds
    have hlimit : ds.length ≤ Text.digitLimit :=
      short line (List.mem_cons_self ..) ds (hmatch.infix_of_mem hds) (hmatch.isDigit_of_mem hds)
    exact ⟨line, rfl, ds, hmatch, hlimit, hvalue, hmax⟩

theorem readSpecification_eq_ok_iff_announces {n m : Nat} (short : AreShort ls) :
    readSpecification ls = .ok (n, m, rest) ↔
      ∃ line, ls = line :: rest ∧ Announces n m line.text := by
  rw [readSpecification_eq_ok]
  constructor
  · rintro ⟨line, rfl, ds, es, hmatch, ⟨-, hn⟩, ⟨-, hm⟩, hn1, hm1⟩
    exact ⟨line, rfl, ds, es, hmatch, hn, hm, hn1, hm1⟩
  · rintro ⟨line, rfl, ds, es, hmatch, hn, hm, hn1, hm1⟩
    have hlimit (gs : List Char) (hgs : gs ∈ [ds, es]) : gs.length ≤ Text.digitLimit :=
      short line (List.mem_cons_self ..) gs (hmatch.infix_of_mem hgs) (hmatch.isDigit_of_mem hgs)
    exact ⟨line, rfl, ds, es, hmatch, ⟨hlimit ds (by simp), hn⟩, ⟨hlimit es (by simp), hm⟩, hn1,
      hm1⟩

/-! ## The two loops -/

/-- The lines of a functionality that starts at a line: any line, its cost and its value. -/
def FunctionalityAt (texts : List (List Char)) (start : Nat) (e : Nat × Nat) : Prop :=
  EntryAt texts (start + 1) "cost:" e.1 ∧ EntryAt texts (start + 2) "bvalue:" e.2

theorem functionalityAt_drop {texts : List (List Char)} {a start : Nat} {e : Nat × Nat} :
    FunctionalityAt (texts.drop a) start e ↔ FunctionalityAt texts (a + start) e := by
  rw [FunctionalityAt, entryAt_drop, entryAt_drop]
  rfl

/-- One functionality is read, and then the others. -/
theorem readFunctionalities_succ_eq_ok {count : Nat} {es : List (Nat × Nat)}
    (short : AreShort ls) :
    readFunctionalities (count + 1) ls = .ok (es, rest) ↔
      ∃ e others, es = e :: others ∧ 3 ≤ ls.length ∧ FunctionalityAt (ls.map (·.text)) 0 e
        ∧ readFunctionalities count (ls.drop 3) = .ok (others, rest) := by
  simp only [readFunctionalities, bind_eq_ok, Prod.exists, nextLine_eq_ok, Except.ok.injEq,
    Prod.mk.injEq]
  constructor
  · rintro ⟨label, _, rfl, cost, _, hreadCost, value, _, hreadValue, others, _, hothers, rfl, rfl⟩
    have short₁ := short.of_cons
    obtain ⟨line₁, rfl, hcost⟩ := (nextEntry_eq_ok_iff_isEntry short₁).mp hreadCost
    obtain ⟨line₂, rfl, hvalue⟩ := (nextEntry_eq_ok_iff_isEntry short₁.of_cons).mp hreadValue
    exact ⟨cost, value, others, rfl, by simp, ⟨⟨_, rfl, hcost⟩, ⟨_, rfl, hvalue⟩⟩, hothers⟩
  · rintro ⟨cost, value, others, rfl, hle, ⟨hcost, hvalue⟩, hothers⟩
    rcases ls with _ | ⟨label, _ | ⟨line₁, _ | ⟨line₂, ls⟩⟩⟩
    all_goals simp only [List.length_nil, List.length_cons] at hle
    · omega
    · omega
    · omega
    · have short₁ := short.of_cons
      have hreadCost : nextEntry .cost "cost:" (line₁ :: line₂ :: ls) = .ok (cost, line₂ :: ls) :=
        (nextEntry_eq_ok_iff_isEntry short₁).mpr
          ⟨line₁, rfl, (entryAt_iff_of_getElem? rfl).mp hcost⟩
      have hreadValue : nextEntry .businessValue "bvalue:" (line₂ :: ls) = .ok (value, ls) :=
        (nextEntry_eq_ok_iff_isEntry short₁.of_cons).mpr
          ⟨line₂, rfl, (entryAt_iff_of_getElem? rfl).mp hvalue⟩
      exact ⟨label, _, rfl, cost, _, hreadCost, value, _, hreadValue, others, _, hothers, rfl, rfl⟩

/-- **The functionalities of a version are three lines each**, and the reader stops behind them. -/
theorem readFunctionalities_eq_ok {count : Nat} {es : List (Nat × Nat)} (short : AreShort ls) :
    readFunctionalities count ls = .ok (es, rest) ↔
      es.length = count ∧ 3 * count ≤ ls.length ∧ rest = ls.drop (3 * count)
        ∧ ∀ j e, es[j]? = some e → FunctionalityAt (ls.map (·.text)) (3 * j) e := by
  have hsucc (j : Nat) : 3 * (j + 1) = 3 + 3 * j := by
    rw [Nat.mul_succ, Nat.add_comm]
  have hshift (ls : List Line) (j : Nat) (e : Nat × Nat) :
      FunctionalityAt ((ls.drop 3).map (·.text)) (3 * j) e
        ↔ FunctionalityAt (ls.map (·.text)) (3 * (j + 1)) e := by
    rw [hsucc, List.map_drop, functionalityAt_drop]
  induction count generalizing ls es with
  | zero =>
    simp only [readFunctionalities, Except.ok.injEq, Prod.mk.injEq, List.length_eq_zero_iff]
    constructor
    · rintro ⟨rfl, rfl⟩
      simp
    · rintro ⟨rfl, -, rfl, -⟩
      simp
  | succ count ih =>
    rw [readFunctionalities_succ_eq_ok short]
    constructor
    · rintro ⟨e, others, rfl, hle, hfirst, hothers⟩
      obtain ⟨hlength, hle', rfl, hentries⟩ := (ih (short.drop 3)).mp hothers
      rw [List.length_drop] at hle'
      refine ⟨by simp [hlength], by omega, by rw [hsucc, List.drop_drop], ?_⟩
      exact forall_getElem?_cons.mpr ⟨hfirst, fun j e he => (hshift ls j e).mp (hentries j e he)⟩
    · rintro ⟨hlength, hle, rfl, hentries⟩
      obtain ⟨e, others, rfl⟩ := List.exists_cons_of_length_eq_add_one hlength
      obtain ⟨hfirst, hentries⟩ := forall_getElem?_cons.mp hentries
      refine ⟨e, others, rfl, by omega, hfirst, (ih (short.drop 3)).mpr ⟨Nat.succ.inj hlength, ?_,
        by rw [hsucc, List.drop_drop], fun j e he => (hshift ls j e).mpr (hentries j e he)⟩⟩
      rw [List.length_drop]
      omega

/-- The lines of a version that starts at a line. -/
structure VersionAt (texts : List (List Char)) (functionalities start : Nat) (d : VersionData) :
    Prop where
  cost_length : d.cost.length = functionalities
  value_length : d.value.length = functionalities
  budget : EntryAt texts (budgetLine start) "budget:" d.budget
  cost : ∀ j n, d.cost[j]? = some n → EntryAt texts (costLine start j) "cost:" n
  value : ∀ j n, d.value[j]? = some n → EntryAt texts (valueLine start j) "bvalue:" n

theorem versionAt_drop {texts : List (List Char)} {a m start : Nat} {d : VersionData} :
    VersionAt (texts.drop a) m start d ↔ VersionAt texts m (a + start) d := by
  have hbudget : budgetLine (a + start) = a + budgetLine start := by
    simp only [budgetLine]
    omega
  have hcost (j : Nat) : costLine (a + start) j = a + costLine start j := by
    simp only [costLine]
    omega
  have hvalue (j : Nat) : valueLine (a + start) j = a + valueLine start j := by
    simp only [valueLine]
    omega
  constructor
  · rintro ⟨hcosts, hvalues, h, h', h''⟩
    exact ⟨hcosts, hvalues, hbudget ▸ entryAt_drop.mp h,
      fun j n hn => hcost j ▸ entryAt_drop.mp (h' j n hn),
      fun j n hn => hvalue j ▸ entryAt_drop.mp (h'' j n hn)⟩
  · rintro ⟨hcosts, hvalues, h, h', h''⟩
    exact ⟨hcosts, hvalues, entryAt_drop.mpr (hbudget ▸ h),
      fun j n hn => entryAt_drop.mpr (hcost j ▸ h' j n hn),
      fun j n hn => entryAt_drop.mpr (hvalue j ▸ h'' j n hn)⟩

/-- A version is three lines and then what `readFunctionalities` reads. -/
theorem versionAt_zero_iff {line₁ line₂ line₃ : Line} {m b : Nat} {es : List (Nat × Nat)} :
    VersionAt ((line₁ :: line₂ :: line₃ :: ls).map (·.text)) m 0
        ⟨b, es.map (·.1), es.map (·.2)⟩ ↔
      es.length = m ∧ IsEntry "budget:" b line₃.text
        ∧ ∀ j e, es[j]? = some e → FunctionalityAt (ls.map (·.text)) (3 * j) e := by
  have hrest : ls.map (·.text) = ((line₁ :: line₂ :: line₃ :: ls).map (·.text)).drop 3 := rfl
  rw [hrest]
  constructor
  · rintro ⟨hlength, -, hbudget, hcost, hvalue⟩
    have hbudget : IsEntry "budget:" b line₃.text := (entryAt_iff_of_getElem? rfl).mp hbudget
    refine ⟨by simpa using hlength, hbudget, fun j e he => ⟨?_, ?_⟩⟩
    · exact entryAt_drop.mpr (hcost j e.1 (by simp [he]))
    · exact entryAt_drop.mpr (hvalue j e.2 (by simp [he]))
  · rintro ⟨hlength, hbudget, hentries⟩
    refine ⟨by simpa using hlength, by simpa using hlength,
      (entryAt_iff_of_getElem? rfl).mpr hbudget, fun j n hn => ?_, fun j n hn => ?_⟩
    · obtain ⟨e, he, rfl⟩ := Option.map_eq_some_iff.mp (List.getElem?_map ▸ hn)
      exact entryAt_drop.mp (hentries j e he).1
    · obtain ⟨e, he, rfl⟩ := Option.map_eq_some_iff.mp (List.getElem?_map ▸ hn)
      exact entryAt_drop.mp (hentries j e he).2

/-- What a version holds is a list of pairs and a budget. -/
theorem exists_pairs {d : VersionData} (h : d.value.length = d.cost.length) :
    ∃ es : List (Nat × Nat), d = ⟨d.budget, es.map (·.1), es.map (·.2)⟩ := by
  refine ⟨d.cost.zip d.value, ?_⟩
  rw [List.map_fst_zip h.ge, List.map_snd_zip h.le]

/-- One version is read, and then the others. -/
theorem readVersions_succ_eq_ok {m count : Nat} {data : List VersionData} (short : AreShort ls) :
    readVersions m (count + 1) ls = .ok (data, rest) ↔
      ∃ d others, data = d :: others ∧ blockLength m ≤ ls.length
        ∧ VersionAt (ls.map (·.text)) m 0 d
        ∧ readVersions m count (ls.drop (blockLength m)) = .ok (others, rest) := by
  have hblock (line₁ line₂ line₃ : Line) (ls : List Line) :
      (line₁ :: line₂ :: line₃ :: ls).drop (blockLength m) = ls.drop (3 * m) := by
    rw [blockLength, ← List.drop_drop]
    rfl
  simp only [readVersions, bind_eq_ok, Prod.exists, nextLine_eq_ok, Except.ok.injEq,
    Prod.mk.injEq]
  constructor
  · rintro ⟨line₁, _, rfl, line₂, ls₂, rfl, b, ls₃, hread, es, ls₄, hreadAll, others, _, hothers,
      rfl, rfl⟩
    have short₂ := short.of_cons.of_cons
    obtain ⟨line₃, rfl, hbudget⟩ := (nextEntry_eq_ok_iff_isEntry short₂).mp hread
    obtain ⟨hlength, hle, rfl, hentries⟩ :=
      (readFunctionalities_eq_ok short₂.of_cons).mp hreadAll
    refine ⟨_, others, rfl, ?_, versionAt_zero_iff.mpr ⟨hlength, hbudget, hentries⟩, ?_⟩
    · simp only [blockLength, List.length_cons]
      omega
    · rw [hblock]
      exact hothers
  · rintro ⟨d, others, rfl, hle, hversion, hothers⟩
    rcases ls with _ | ⟨line₁, _ | ⟨line₂, _ | ⟨line₃, ls⟩⟩⟩
    all_goals simp only [blockLength, List.length_nil, List.length_cons] at hle
    · omega
    · omega
    · omega
    · have short₂ := short.of_cons.of_cons
      obtain ⟨es, hes⟩ := exists_pairs (hversion.value_length.trans hversion.cost_length.symm)
      rw [hes] at hversion
      obtain ⟨hlength, hbudget, hentries⟩ := versionAt_zero_iff.mp hversion
      rw [hblock] at hothers
      have hread : nextEntry .budget "budget:" (line₃ :: ls) = .ok (d.budget, ls) :=
        (nextEntry_eq_ok_iff_isEntry short₂).mpr ⟨line₃, rfl, hbudget⟩
      have hreadAll : readFunctionalities m ls = .ok (es, ls.drop (3 * m)) :=
        (readFunctionalities_eq_ok short₂.of_cons).mpr ⟨hlength, by omega, rfl, hentries⟩
      exact ⟨line₁, _, rfl, line₂, _, rfl, d.budget, ls, hread, es, _, hreadAll, others, _, hothers,
        by rw [← hes], rfl⟩

/-- **The versions follow each other**, each a block of the same length. -/
theorem readVersions_eq_ok {m count : Nat} {data : List VersionData} (short : AreShort ls) :
    readVersions m count ls = .ok (data, rest) ↔
      data.length = count ∧ count * blockLength m ≤ ls.length
        ∧ rest = ls.drop (count * blockLength m)
        ∧ ∀ i d, data[i]? = some d → VersionAt (ls.map (·.text)) m (i * blockLength m) d := by
  have hsucc (i : Nat) : (i + 1) * blockLength m = blockLength m + i * blockLength m := by
    rw [Nat.succ_mul, Nat.add_comm]
  have hshift (ls : List Line) (i : Nat) (d : VersionData) :
      VersionAt ((ls.drop (blockLength m)).map (·.text)) m (i * blockLength m) d
        ↔ VersionAt (ls.map (·.text)) m ((i + 1) * blockLength m) d := by
    rw [hsucc, List.map_drop, versionAt_drop]
  induction count generalizing ls data with
  | zero =>
    simp only [readVersions, Except.ok.injEq, Prod.mk.injEq, List.length_eq_zero_iff]
    constructor
    · rintro ⟨rfl, rfl⟩
      simp
    · rintro ⟨rfl, -, rfl, -⟩
      simp
  | succ count ih =>
    rw [readVersions_succ_eq_ok short]
    constructor
    · rintro ⟨d, others, rfl, hle, hversion, hothers⟩
      obtain ⟨hlength, hle', rfl, hversions⟩ := (ih (short.drop _)).mp hothers
      rw [List.length_drop] at hle'
      refine ⟨by simp [hlength], by rw [hsucc]; omega, by rw [hsucc, List.drop_drop], ?_⟩
      refine forall_getElem?_cons.mpr ⟨?_, fun i d hd => (hshift ls i d).mp (hversions i d hd)⟩
      rw [Nat.zero_mul]
      exact hversion
    · rintro ⟨hlength, hle, rfl, hversions⟩
      obtain ⟨d, others, rfl⟩ := List.exists_cons_of_length_eq_add_one hlength
      obtain ⟨hversion, hversions⟩ := forall_getElem?_cons.mp hversions
      rw [Nat.zero_mul] at hversion
      rw [hsucc] at hle
      refine ⟨d, others, rfl, by omega, hversion, (ih (short.drop _)).mpr ⟨Nat.succ.inj hlength, ?_,
        by rw [hsucc, List.drop_drop], fun i d hd => (hshift ls i d).mpr (hversions i d hd)⟩⟩
      rw [List.length_drop]
      omega

/-! ## Whole problems -/

/-- The rows of a problem, version by version. -/
theorem exists_versionData {n : Nat} {budgets : List Nat} {costs values : List (List Nat)}
    (hbudgets : budgets.length = n) (hcosts : costs.length = n) (hvalues : values.length = n) :
    ∃ data : List VersionData, data.map (·.value) = values ∧ data.map (·.cost) = costs
      ∧ data.map (·.budget) = budgets := by
  induction n generalizing budgets costs values with
  | zero =>
    obtain rfl := List.length_eq_zero_iff.mp hbudgets
    obtain rfl := List.length_eq_zero_iff.mp hcosts
    obtain rfl := List.length_eq_zero_iff.mp hvalues
    exact ⟨[], rfl, rfl, rfl⟩
  | succ n ih =>
    obtain ⟨budget, budgets, rfl⟩ := List.exists_cons_of_length_eq_add_one hbudgets
    obtain ⟨cost, costs, rfl⟩ := List.exists_cons_of_length_eq_add_one hcosts
    obtain ⟨value, values, rfl⟩ := List.exists_cons_of_length_eq_add_one hvalues
    obtain ⟨data, rfl, rfl, rfl⟩ :=
      ih (Nat.succ.inj hbudgets) (Nat.succ.inj hcosts) (Nat.succ.inj hvalues)
    exact ⟨⟨budget, cost, value⟩ :: data, rfl, rfl, rfl⟩

/-- A problem is described line by line if it is described version by version. -/
theorem describes_iff_versionAt {texts : List (List Char)} {n m : Nat} {data : List VersionData} :
    Describes texts ⟨n, m, data.map (·.value), data.map (·.cost), data.map (·.budget)⟩ ↔
      (∃ text, texts[0]? = some text ∧ Announces n m text) ∧ versionStart m n ≤ texts.length
        ∧ data.length = n
        ∧ ∀ i d, data[i]? = some d → VersionAt texts m (versionStart m i) d := by
  constructor
  · rintro ⟨hfirst, hcomplete, hlength, hcosts, hvalues, hbudget, hcost, hvalue⟩
    refine ⟨hfirst, hcomplete, by simpa using hlength, fun i d hd => ?_⟩
    have hmem : d ∈ data := List.mem_of_getElem? hd
    exact ⟨hcosts.2 _ (List.mem_map_of_mem hmem), hvalues.2 _ (List.mem_map_of_mem hmem),
      hbudget i _ (by simp [hd]), hcost i _ (by simp [hd]), hvalue i _ (by simp [hd])⟩
  · rintro ⟨hfirst, hcomplete, rfl, hversions⟩
    have hat (i : Nat) {α : Type} {f : VersionData → α} {x : α} (h : (data.map f)[i]? = some x) :
        ∃ d, VersionAt texts m (versionStart m i) d ∧ f d = x := by
      obtain ⟨d, hd, rfl⟩ := Option.map_eq_some_iff.mp (List.getElem?_map ▸ h)
      exact ⟨d, hversions i d hd, rfl⟩
    have hrow {f : VersionData → List Nat} {row : List Nat} (h : row ∈ data.map f) :
        ∃ i d, VersionAt texts m (versionStart m i) d ∧ f d = row := by
      obtain ⟨i, hi⟩ := List.mem_iff_getElem?.mp h
      exact ⟨i, hat i hi⟩
    refine ⟨hfirst, hcomplete, by simp, ⟨by simp, fun row h => ?_⟩, ⟨by simp, fun row h => ?_⟩,
      fun i k h => ?_, fun i row h => ?_, fun i row h => ?_⟩
    · obtain ⟨i, d, hd, rfl⟩ := hrow h
      exact hd.cost_length
    · obtain ⟨i, d, hd, rfl⟩ := hrow h
      exact hd.value_length
    · obtain ⟨d, hd, rfl⟩ := hat i h
      exact hd.budget
    · obtain ⟨d, hd, rfl⟩ := hat i h
      exact hd.cost
    · obtain ⟨d, hd, rfl⟩ := hat i h
      exact hd.value

variable {p : Problem}

theorem areShort_meaningful {lines : List (List Char)}
    (short : ∀ l ∈ lines, Text.WithinDigitLimit l) : AreShort (meaningful lines) := by
  intro line hline
  have htext : line.text ∈ texts lines := by
    rw [← map_text_meaningful]
    exact List.mem_map_of_mem hline
  obtain ⟨l, hl, htrim⟩ := List.mem_map.mp htext
  rw [← htrim]
  exact (short l (List.mem_of_mem_filter hl)).mono (Text.isInfix_trim l)

/-- **Lines are read as a problem that they describe and for which there is room.** -/
theorem ofLines_eq_ok [Memory] {lines : List (List Char)}
    (short : ∀ l ∈ lines, Text.WithinDigitLimit l) :
    ofLines lines = .ok p ↔ Describes (texts lines) p ∧ p.HasRoom := by
  have short := areShort_meaningful short
  rw [← map_text_meaningful]
  simp only [ofLines, bind_eq_ok, Prod.exists, Except.ok.injEq,
    readSpecification_eq_ok_iff_announces short]
  constructor
  · rintro ⟨n, m, rest, ⟨line, hlines, hannounces⟩, ⟨⟩, hroom, data, _, hdata, rfl⟩
    rw [hlines] at short ⊢
    obtain ⟨hlength, hle, -, hversions⟩ := (readVersions_eq_ok short.of_cons).mp hdata
    refine ⟨describes_iff_versionAt.mpr ⟨⟨_, rfl, hannounces⟩, ?_, hlength, fun i d hd => ?_⟩,
      hroom⟩
    · simp only [versionStart, List.length_map, List.length_cons]
      omega
    · exact versionAt_drop.mp (hversions i d hd)
  · rintro ⟨hdescribes, hroom⟩
    obtain ⟨n, m, value, cost, budget⟩ := p
    obtain ⟨data, rfl, rfl, rfl⟩ := exists_versionData hdescribes.budget_length
      hdescribes.cost_shape.1 hdescribes.value_shape.1
    obtain ⟨⟨text, htext, hannounces⟩, hcomplete, hlength, hversions⟩ :=
      describes_iff_versionAt.mp hdescribes
    rcases hlines : meaningful lines with _ | ⟨line, rest⟩
    · simp [hlines] at htext
    · rw [hlines] at short htext hcomplete hversions
      obtain rfl : line.text = text := by simpa using htext
      simp only [versionStart, List.length_map, List.length_cons] at hcomplete
      have hdata : readVersions m n rest = .ok (data, rest.drop (n * blockLength m)) :=
        (readVersions_eq_ok short.of_cons).mpr ⟨hlength, by omega, rfl,
          fun i d hd => versionAt_drop.mpr (hversions i d hd)⟩
      exact ⟨n, m, rest, ⟨line, rfl, hannounces⟩, (), hroom, data, _, hdata, rfl⟩

/-- In a list of texts there is no line that is no text. -/
theorem ofSource_texts [Memory] (lines : List String) :
    ofSource (.node (lines.map Datum.text)) = ofLines (lines.map String.toList) := by
  have hgood {f : Datum → Option (List Char)} (hf : ∀ s, f (Datum.text s) = some s.toList) :
      (((lines.map Datum.text).map f).takeWhile Option.isSome).filterMap id
        = lines.map String.toList := by
    have hsome : (lines.map Datum.text).map f = (lines.map String.toList).map some := by
      simp [hf]
    rw [hsome, List.takeWhile_eq_self_iff.mpr (by simp), List.filterMap_map]
    exact List.filterMap_some
  rw [ofSource]
  rw [hgood]
  · simp only [List.length_map, lt_irrefl, if_false]
    split
    · next hfault => rw [hfault]
    · rfl
  · exact fun _ => rfl

/-- There is room for a problem of the size that the first line announces. -/
def AnnouncesRoom [Memory] (texts : List (List Char)) : Prop :=
  ∀ text n m, texts[0]? = some text → Announces n m text → checkSize n m = .ok ()

/-- **Exactly the lines that describe a problem are read as one**, and as the one they describe, as
long as their runs of digits are not too long and there is room for what they announce. -/
theorem ofSource_eq_ok_iff [Memory] {lines : List String}
    (short : ∀ s ∈ lines, Text.WithinDigitLimit s.toList)
    (room : AnnouncesRoom (texts (lines.map String.toList))) :
    ofSource (.node (lines.map Datum.text)) = .ok p ↔
      Describes (texts (lines.map String.toList)) p := by
  have short : ∀ l ∈ lines.map String.toList, Text.WithinDigitLimit l := by
    rintro _ hl
    obtain ⟨s, hs, rfl⟩ := List.mem_map.mp hl
    exact short s hs
  rw [ofSource_texts, ofLines_eq_ok short, and_iff_left_iff_imp]
  intro hdescribes
  obtain ⟨text, htext, hannounces⟩ := hdescribes.specification
  exact room text p.versions p.functionalities htext hannounces

theorem withinDigitLimit_of_length_le {cs : List Char} (h : cs.length ≤ Text.digitLimit) :
    Text.WithinDigitLimit cs :=
  fun _ hds _ => hds.length_le.trans h

/-- A file with a comment, an empty line, blanks, digits of another script and a line too many. -/
def smallFile : List String :=
  ["# the smallest plan", "",
   "Software migration problem specification ( 1 versions,1  functionalities)", "=", "one",
   "budget: +9", "any", "\tcost:+٠٥ ", "bvalue:  +007", "#", "budget: -1"]

theorem describes_smallFile :
    ofSource (.node (smallFile.map Datum.text)) = .ok ⟨1, 1, [[7]], [[5]], [9]⟩
      ∧ Describes (texts (smallFile.map String.toList)) ⟨1, 1, [[7]], [[5]], [9]⟩ := by
  have short : ∀ s ∈ smallFile, Text.WithinDigitLimit s.toList := by
    have hlength : ∀ s ∈ smallFile, s.toList.length ≤ Text.digitLimit := by decide
    exact fun s hs => withinDigitLimit_of_length_le (hlength s hs)
  have room : AnnouncesRoom (texts (smallFile.map String.toList)) := by
    rintro text n m htext ⟨ds, es, hmatch, rfl, rfl, -, -⟩
    have hone : ((texts (smallFile.map String.toList))[0]?).bind specificationPattern.match?
        = some [['1'], ['1']] := rfl
    rw [htext, Option.bind_some, hmatch.match?_eq_some separated_specificationPattern] at hone
    obtain ⟨rfl, rfl⟩ : ds = ['1'] ∧ es = ['1'] := by simpa using hone
    rfl
  exact ⟨rfl, (ofSource_eq_ok_iff short room).mp rfl⟩

end MigrationPlan.Problem
