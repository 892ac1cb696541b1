import MigrationPlan.Proofs.Evaluation.Domination
import MigrationPlan.Proofs.Evaluation.Population
import MigrationPlan.Proofs.Text.Characters

/-!
# Proofs/Evaluation/Rows — a row of marks for every selection

A search hands over rows with a mark for each functionality.  Such a row is the row of one selection
(`marks_selectionOf`).  Under either encoding it becomes a decision variable, which spells the
selection by a string that stands for it (`text_decisionOf`, `Encoding.denoted_spelling`).  It is
evaluated as its selection (`Population.answer_evaluateRows_marks`), and printed as it when it is
found (**`Population.foundSelection_marks`**).  The ascending lists below a number are the
selections as well, each once: **`mem_subsets`**, `nodup_subsets`.
-/

namespace MigrationPlan

variable {n : Nat} {S : Finset Nat} {row : Bits}

/-! ## Rows -/

/-- The row of a selection. -/
def marks (n : Nat) (S : Finset Nat) : Bits :=
  (List.range n).map fun i => decide (i ∈ S)

/-- The selection of a row. -/
def selectionOf (row : Bits) : Finset Nat :=
  (positions row).toFinset

@[simp] theorem length_marks (n : Nat) (S : Finset Nat) : (marks n S).length = n := by
  simp [marks]

theorem getElem?_marks {i : Nat} (hS : S ⊆ Finset.range n) :
    (marks n S)[i]? = some true ↔ i ∈ S := by
  have hrange (h : i ∈ S) : i < n := Finset.mem_range.mp (hS h)
  simpa [marks, List.getElem?_eq_some_iff] using hrange

/-- **The positions of the marks are the selection, ascending.** -/
theorem positions_marks (hS : S ⊆ Finset.range n) : positions (marks n S) = S.sort :=
  Encoding.eq_sort (pairwise_positions _) fun i => by rw [mem_positions, getElem?_marks hS]

theorem selectionOf_marks (hS : S ⊆ Finset.range n) : selectionOf (marks n S) = S := by
  rw [selectionOf, positions_marks hS, Finset.sort_toFinset]

theorem selectionOf_subset (hrow : row.length = n) : selectionOf row ⊆ Finset.range n := by
  intro i hi
  have hbit := mem_positions.mp (List.mem_toFinset.mp hi)
  rw [Finset.mem_range, ← hrow]
  exact (List.getElem?_eq_some_iff.mp hbit).1

/-- **A row is the row of its selection.** -/
theorem marks_selectionOf (hrow : row.length = n) : marks n (selectionOf row) = row := by
  refine List.ext_getElem (by simp [hrow]) fun i _ hi => ?_
  rw [Bool.eq_iff_iff]
  simp [marks, selectionOf, mem_positions, hi]

/-! ## Spellings -/

/-- The string that stands for a selection: a digit for each functionality, or the selected ones,
ascending, between braces. -/
def Encoding.spelling (n : Nat) (S : Finset Nat) : Encoding → String
  | .binary => String.ofList ((List.range n).map fun i => if i ∈ S then '1' else '0')
  | .subset => "\x7b" ++ ",".intercalate (S.sort.map toString) ++ "\x7d"

/-- The decision variable that a selection becomes. -/
def Encoding.decisionOf (n : Nat) (S : Finset Nat) : Encoding → Variable
  | .binary => .binary ⟨marks n S⟩
  | .subset => .subset ⟨.whole n, .whole 0, .whole n, S.sort.map Int.ofNat⟩

/-- **What a string stands for**: the positions of its ones, or the numbers between its braces. -/
def Encoding.denoted : Encoding → String → List Nat
  | .binary, text => positions (text.toList.map fun c => decide (c = '1'))
  | .subset, text =>
    ((text.toList.tail.dropLast.splitOn ',').filter fun cs => !cs.isEmpty).map Text.digitsValue

theorem toList_intercalate_digits (is : List Nat) :
    (",".intercalate (is.map toString)).toList = [','].intercalate (is.map (Nat.toDigits 10)) := by
  rw [String.toList_intercalate, List.map_map]
  refine congrArg _ (List.map_congr_left fun i _ => ?_)
  simp [toString]

/-- Numbers between commas are read as they are. -/
theorem map_digitsValue_splitOn (is : List Nat) :
    ((([','].intercalate (is.map (Nat.toDigits 10))).splitOn ',').filter
      fun cs => !cs.isEmpty).map Text.digitsValue = is := by
  rcases is with _ | ⟨i, is⟩
  · rfl
  have hcommas (cs : List Char) (hcs : cs ∈ (i :: is).map (Nat.toDigits 10)) : ',' ∉ cs := by
    obtain ⟨k, -, rfl⟩ := List.mem_map.mp hcs
    exact fun hmem => absurd (Text.isDigit_of_mem_toDigits hmem) (by decide)
  rw [List.splitOn_intercalate _ hcommas (List.cons_ne_nil _ _), List.filter_map, List.map_map]
  simp [Function.comp_def, Text.digitsValue_toDigits, Nat.toDigits_ne_nil]

/-- **A selection is spelled as what stands for it.** -/
theorem Encoding.denoted_spelling (encoding : Encoding) (hS : S ⊆ Finset.range n) :
    encoding.denoted (encoding.spelling n S) = S.sort := by
  cases encoding with
  | binary =>
    rw [← positions_marks hS]
    simp only [denoted, spelling, String.toList_ofList, List.map_map, marks]
    refine congrArg positions (List.map_congr_left fun i _ => ?_)
    by_cases hi : i ∈ S <;> simp [hi]
  | subset =>
    have hinside : (spelling n S .subset).toList.tail.dropLast
        = [','].intercalate (S.sort.map (Nat.toDigits 10)) := by
      simp only [spelling, String.toList_append, toList_intercalate_digits]
      simp
    rw [denoted, hinside, map_digitsValue_splitOn]

/-- **The variable spells its selection.** -/
theorem text_decisionOf (encoding : Encoding) :
    (encoding.decisionOf n S).text = encoding.spelling n S := by
  cases encoding with
  | binary =>
    simp [Encoding.decisionOf, Encoding.spelling, Variable.text, BinaryVariable.text, marks,
      Function.comp_def]
  | subset =>
    have hdigits : (S.sort.map Int.ofNat).map toString = S.sort.map toString := by
      rw [List.map_map]
      rfl
    rw [Encoding.decisionOf, Variable.text, SubsetVariable.text, hdigits, Encoding.spelling]

theorem memberList_sort (S : Finset Nat) :
    memberList (S.sort.map Int.ofNat) = S.sort.map Int.ofNat :=
  memberList_of_pairwise <| List.pairwise_map.mpr <|
    (Finset.sortedLT_sort S).pairwise.imp Int.ofNat_lt.mpr

/-! ## The row of a selection -/

section Selected

variable [Memory] {p : Problem} {encoding : Encoding}

/-- **What is read as the row of a selection becomes its variable.** -/
theorem Population.toVariable_of_bits (encoding : Encoding) (valid : p.WellFormed)
    (room : Fits 1 p.functionalities) (hS : S ⊆ Finset.range p.functionalities) {d : Datum}
    (hbits : d.bits? = .ok ([p.functionalities], marks p.functionalities S)) :
    (new (Evaluator.new p (some encoding))).toVariable d
      = .ok (encoding.decisionOf p.functionalities S) := by
  cases encoding with
  | binary =>
    exact (toVariable_binary_eq_ok valid.one_le_functionalities room).mpr ⟨_, hbits, rfl⟩
  | subset =>
    refine toVariable_subset_eq_ok.mpr ⟨_, _, hbits, fun i hi => ?_, ?_⟩
    · rw [positions_marks hS, Finset.mem_sort] at hi
      exact Finset.mem_range.mp (hS hi)
    · rw [positions_marks hS, memberList_sort]
      rfl

theorem Population.toVariable_marks (valid : p.WellFormed) (room : Fits 1 p.functionalities)
    (hS : S ⊆ Finset.range p.functionalities) :
    (new (Evaluator.new p (some encoding))).toVariable (.flags (marks p.functionalities S))
      = .ok (encoding.decisionOf p.functionalities S) := by
  have hbits := Datum.bits?_flags (marks p.functionalities S)
  rw [length_marks] at hbits
  exact toVariable_of_bits encoding valid room hS hbits

omit [Memory] in
/-- The variable of a selection holds it. -/
theorem holds_decisionOf (hS : S ⊆ Finset.range p.functionalities) :
    encoding.Holds p.functionalities S (encoding.decisionOf p.functionalities S) := by
  cases encoding with
  | binary => exact ⟨length_marks _ S, fun i => getElem?_marks hS⟩
  | subset =>
    have inRange (i : Nat) (hi : i ∈ positions (marks p.functionalities S)) :
        i < p.functionalities := by
      rw [positions_marks hS, Finset.mem_sort] at hi
      exact Finset.mem_range.mp (hS hi)
    have holds := Population.holds_subset inRange
    rwa [positions_marks hS, Finset.sort_toFinset, memberList_sort] at holds

/-- **What a row becomes that is found**: its selection, the variable of this, and the values that
came with the row, negated. -/
theorem Population.foundSelection_marks (encoding : Encoding) (valid : p.WellFormed)
    (room : Fits 1 p.functionalities) (hS : S ⊆ Finset.range p.functionalities)
    (minimized : List Binary64) :
    (new (Evaluator.new p (some encoding))).foundSelection (marks p.functionalities S) minimized
      = .ok ⟨S.sort, encoding.decisionOf p.functionalities S, minimized.map Binary64.neg⟩ := by
  have hselection : (Evaluator.new p (some encoding)).selection
      (encoding.decisionOf p.functionalities S) = .ok S.sort :=
    (holds_decisionOf hS).selection (room.isWord (by decide))
  rw [foundSelection, toVariable_marks valid room hS, ok_bind]
  exact congrArg (· >>= _) hselection

/-- **In a batch, each row is evaluated as its selection.** -/
theorem Population.answer_evaluateRows_marks (encoding : Encoding) (valid : p.WellFormed)
    (room : Fits 1 p.functionalities) {Ss : List (Finset Nat)}
    (hSs : ∀ S ∈ Ss, S ⊆ Finset.range p.functionalities) :
    ((new (Evaluator.new p (some encoding))).evaluateRows
        (Ss.map fun S => .flags (marks p.functionalities S))).answer
      = .ok (Ss.map p.reported) := by
  have hvariables : (Ss.map fun S => .flags (marks p.functionalities S)).mapM
      (new (Evaluator.new p (some encoding))).toVariable
        = .ok (Ss.map fun S => encoding.decisionOf p.functionalities S) := by
    rw [List.mapM_map]
    exact mapM_of_ok fun S hS => toVariable_marks valid room (hSs S hS)
  have hresults : (new (Evaluator.new p (some encoding))).evaluator.evaluateBatch
      (Ss.map fun S => encoding.decisionOf p.functionalities S) = .ok (Ss.map p.reported) := by
    rw [Evaluator.evaluateBatch, List.mapM_map]
    exact mapM_of_ok fun S hS =>
      (holds_decisionOf (hSs S hS)).evaluate (room.isWord (by decide))
  rw [evaluateRows, hvariables, ok_bind, hresults]
  rfl

end Selected

/-! ## All selections -/

/-- The empty list and the listed ones are the ascending lists of `count` positions from `first`
on. -/
theorem mem_nonemptySelections {first count : Nat} {s : List Nat} :
    s ∈ [] :: nonemptySelections first count ↔
      s.Pairwise (· < ·) ∧ ∀ i ∈ s, first ≤ i ∧ i < first + count := by
  induction count generalizing first s with
  | zero =>
    rcases s with _ | ⟨i, s⟩
    · simp
    · simp [nonemptySelections]
  | succ count ih =>
    rcases s with _ | ⟨i, s⟩
    · simp
    -- either the first position is taken, or all that are taken lie behind it
    have hstep : i :: s ∈ [] :: nonemptySelections first (count + 1) ↔
        i = first ∧ s ∈ [] :: nonemptySelections (first + 1) count
          ∨ i :: s ∈ [] :: nonemptySelections (first + 1) count := by
      simp only [nonemptySelections, List.mem_cons, List.mem_append, List.mem_map, reduceCtorEq,
        false_or]
      grind
    rw [hstep, ih, ih]
    simp only [List.pairwise_cons, List.forall_mem_cons]
    grind

theorem mem_selections {s : List Nat} :
    s ∈ selections n ↔ s.Pairwise (· < ·) ∧ ∀ i ∈ s, i < n := by
  rw [selections, mem_nonemptySelections]
  simp

theorem nodup_nonemptySelections (first count : Nat) :
    ([] :: nonemptySelections first count).Nodup := by
  induction count generalizing first with
  | zero => simp [nonemptySelections]
  | succ count ih =>
    have hlater := ih (first + 1)
    have hbehind (s : List Nat) : first :: s ∉ nonemptySelections (first + 1) count := by
      intro hs
      have := (mem_nonemptySelections.mp (List.mem_cons_of_mem _ hs)).2 first (by simp)
      omega
    have htaken := hlater.map (f := (first :: ·)) fun _ _ h => (List.cons.inj h).2
    obtain ⟨hnil, hnodup⟩ := List.nodup_cons.mp hlater
    refine List.nodup_cons.mpr ⟨?_, List.nodup_append'.mpr ⟨htaken, hnodup, ?_⟩⟩
    · simpa [nonemptySelections] using hnil
    · rintro _ hmem hs
      obtain ⟨s, -, rfl⟩ := List.mem_map.mp hmem
      exact hbehind s hs

/-- The selections, in the order of their lists. -/
def subsets (n : Nat) : List (Finset Nat) :=
  (selections n).map List.toFinset

/-- Their rows are those that an exhaustive search looks at. -/
theorem map_marksOf_selections (n : Nat) :
    (selections n).map (marksOf n) = (subsets n).map (marks n) := by
  rw [subsets, List.map_map]
  refine List.map_congr_left fun s _ => ?_
  simp [marksOf, marks]

/-- A list of positions is its set, sorted. -/
theorem sort_toFinset_of_mem {s : List Nat} (hs : s ∈ selections n) : s.toFinset.sort = s :=
  (Encoding.eq_sort (mem_selections.mp hs).1 fun _ => List.mem_toFinset.symm).symm

/-- **Every selection is listed.** -/
theorem mem_subsets : S ∈ subsets n ↔ S ⊆ Finset.range n := by
  rw [subsets, List.mem_map]
  constructor
  · rintro ⟨s, hs, rfl⟩ i hi
    exact Finset.mem_range.mpr ((mem_selections.mp hs).2 i (List.mem_toFinset.mp hi))
  · intro hS
    refine ⟨S.sort, mem_selections.mpr ⟨(Finset.sortedLT_sort S).pairwise, fun i hi => ?_⟩,
      Finset.sort_toFinset ..⟩
    exact Finset.mem_range.mp (hS ((Finset.mem_sort _).mp hi))

/-- **Each selection is listed once.** -/
theorem nodup_subsets (n : Nat) : (subsets n).Nodup := by
  refine List.Nodup.map_on (fun s hs t ht heq => ?_) (nodup_nonemptySelections 0 n)
  rw [← sort_toFinset_of_mem hs, heq, sort_toFinset_of_mem ht]

end MigrationPlan
