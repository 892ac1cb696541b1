import MigrationPlan.Evaluation.Population
import MigrationPlan.Proofs.Evaluation.Selection

/-!
# Proofs/Evaluation/Population — which rows of marks become candidates

Under the binary encoding a row has to have the shape of the bit vector it is written into.  Under
the subset encoding it is flattened, and only the positions of its marks have to be in range.  So
every row that the first takes is taken by the second as the same selection, with the same
evaluation, but the second also takes rows that the first refuses (**`toVariable_encodings`**).
-/

namespace MigrationPlan.Population

variable {p : Problem} {b s : Population} {row : Datum} {v w : Variable}

/-- A population can be searched if there is room for a number for each functionality. -/
theorem new?_eq_ok [Memory] {encoding : Option Encoding} :
    new? (Evaluator.new p encoding) = .ok b ↔
      Fits 8 p.functionalities ∧ new (Evaluator.new p encoding) = b := by
  simp only [new?, bind_eq_ok, Except.ok.injEq]
  constructor
  · rintro ⟨count, hcount, rfl⟩
    exact ⟨((newSide?_natCast_eq_ok (by decide)).mp hcount).1, rfl⟩
  · rintro ⟨hroom, rfl⟩
    exact ⟨_, (newSide?_natCast_eq_ok (by decide)).mpr ⟨hroom, rfl⟩, rfl⟩

/-- **A row becomes a bit vector if it has the shape of one.** -/
theorem toVariable_binary_eq_ok [Memory] (hone : 1 ≤ p.functionalities)
    (hroom : Fits 1 p.functionalities) :
    (new (Evaluator.new p (some .binary))).toVariable row = .ok v ↔
      ∃ marks, row.bits? = .ok ([p.functionalities], marks) ∧ .binary ⟨marks⟩ = v := by
  have hfresh := newVariable_binary_eq_ok.mpr ⟨hone, hroom, rfl⟩
  have hwrite : (new (Evaluator.new p (some .binary))).toVariable row
      = (Variable.binary ⟨List.replicate p.functionalities false⟩).setBinary row := by
    rw [toVariable]
    exact congrArg (· >>= _) hfresh
  rw [hwrite, Variable.setBinary_eq_ok]
  constructor
  · rintro ⟨_, ⟨⟩, _, marks, hbits, rfl, rfl⟩
    rw [BinaryVariable.length, List.length_replicate] at hbits
    exact ⟨marks, hbits, rfl⟩
  · rintro ⟨marks, hbits, rfl⟩
    refine ⟨_, rfl, _, marks, hbits, ?_, rfl⟩
    rw [BinaryVariable.length, List.length_replicate]

/-- Set positions can be the members of the fresh subset if they are in range. -/
theorem setSubset_positions_eq_ok {marks : Bits} :
    (Variable.subset ⟨.whole p.functionalities, .whole 0, .whole p.functionalities, []⟩).setSubset
        (.wholes ((positions marks).map Int.ofNat)) = .ok w ↔
      (∀ i ∈ positions marks, i < p.functionalities)
        ∧ .subset ⟨.whole p.functionalities, .whole 0, .whole p.functionalities,
          memberList ((positions marks).map Int.ofNat)⟩ = w := by
  have hdistinct : (positions marks).Nodup := (pairwise_positions marks).imp fun hlt => hlt.ne
  constructor
  · intro h
    obtain ⟨-, canonical, rfl⟩ := (Variable.setSubset_eq_ok_iff (Datum.lists_wholes _)).mp h
    refine ⟨fun i hi => ?_, rfl⟩
    have := canonical.isSelectable i (mem_memberList.mpr (List.mem_map_of_mem hi))
    simpa [SubsetVariable.isSelectable] using this
  · rintro ⟨inRange, rfl⟩
    exact setSubset_empty hdistinct inRange

/-- **A row becomes a subset if the positions of its marks, read from left to right, are in
range.** -/
theorem toVariable_subset_eq_ok [Memory] :
    (new (Evaluator.new p (some .subset))).toVariable row = .ok w ↔
      ∃ sides marks, row.bits? = .ok (sides, marks) ∧ (∀ i ∈ positions marks, i < p.functionalities)
        ∧ .subset ⟨.whole p.functionalities, .whole 0, .whole p.functionalities,
          memberList ((positions marks).map Int.ofNat)⟩ = w := by
  have hwrite : (new (Evaluator.new p (some .subset))).toVariable row = row.bits? >>= fun bits =>
      (Variable.subset ⟨.whole p.functionalities, .whole 0, .whole p.functionalities, []⟩).setSubset
        (.wholes ((positions bits.2).map Int.ofNat)) := by
    rw [toVariable]
    exact congrArg (· >>= _) (newVariable_subset p)
  simp only [hwrite, bind_eq_ok, Prod.exists, setSubset_positions_eq_ok]

/-! ## What the variables hold -/

theorem holds_binary {marks : Bits} (h : marks.length = p.functionalities) :
    Encoding.binary.Holds p.functionalities (positions marks).toFinset (.binary ⟨marks⟩) :=
  Encoding.holds_toFinset_positions h

theorem holds_subset {marks : Bits} (inRange : ∀ i ∈ positions marks, i < p.functionalities) :
    Encoding.subset.Holds p.functionalities (positions marks).toFinset
      (.subset ⟨.whole p.functionalities, .whole 0, .whole p.functionalities,
        memberList ((positions marks).map Int.ofNat)⟩) := by
  refine ⟨?_, ?_, ?_, pairwise_memberList _, fun m => ?_, fun i hi => ?_⟩
  · simp [Number.extended?]
  · simp [Number.extended?]
  · simp
  · rw [mem_memberList, List.mem_map]
    simp
  · exact inRange i (List.mem_toFinset.mp hi)

/-- **The two encodings of a row.**  The binary one takes the rows with one mark per functionality.
The subset one takes the arrays of any shape whose marks, read from left to right, lie at positions
of functionalities.  A row that the binary one takes is taken by both as one selection, and both
evaluate it alike. -/
theorem toVariable_encodings [Memory] (wellFormed : p.WellFormed)
    (hb : new? (Evaluator.new p (some .binary)) = .ok b)
    (hs : new? (Evaluator.new p (some .subset)) = .ok s) (row : Datum) :
    ((∃ v, b.toVariable row = .ok v) ↔ ∃ marks, row.bits? = .ok ([p.functionalities], marks))
      ∧ ((∃ w, s.toVariable row = .ok w) ↔ ∃ sides marks, row.bits? = .ok (sides, marks)
        ∧ ∀ i, marks[i]? = some true → i < p.functionalities)
      ∧ ∀ v, b.toVariable row = .ok v → ∃ w S r, s.toVariable row = .ok w
        ∧ Encoding.binary.Holds p.functionalities S v ∧ Encoding.subset.Holds p.functionalities S w
        ∧ b.evaluator.evaluate v = .ok r ∧ s.evaluator.evaluate w = .ok r := by
  obtain ⟨hroom, rfl⟩ := new?_eq_ok.mp hb
  obtain ⟨-, rfl⟩ := new?_eq_ok.mp hs
  have hbits : Fits 1 p.functionalities := hroom.mono (by omega)
  have hone := wellFormed.one_le_functionalities
  simp only [toVariable_binary_eq_ok hone hbits, toVariable_subset_eq_ok]
  refine ⟨?_, ?_, ?_⟩
  · constructor
    · rintro ⟨_, marks, hbits, rfl⟩
      exact ⟨marks, hbits⟩
    · rintro ⟨marks, hbits⟩
      exact ⟨_, marks, hbits, rfl⟩
  · constructor
    · rintro ⟨_, sides, marks, hbits, inRange, rfl⟩
      exact ⟨sides, marks, hbits, fun i hi => inRange i (mem_positions.mpr hi)⟩
    · rintro ⟨sides, marks, hbits, inRange⟩
      exact ⟨_, sides, marks, hbits, fun i hi => inRange i (mem_positions.mp hi), rfl⟩
  · rintro _ ⟨marks, hbits, rfl⟩
    have hlength : marks.length = p.functionalities :=
      (Nested.length_of_read? hbits).trans List.prod_singleton
    have inRange (i : Nat) (hi : i ∈ positions marks) : i < p.functionalities :=
      hlength ▸ (List.getElem?_eq_some_iff.mp (mem_positions.mp hi)).1
    have sized : Entry.IsWord p.functionalities := hroom.isWord (by decide)
    exact ⟨_, _, _, ⟨_, marks, hbits, inRange, rfl⟩, holds_binary hlength, holds_subset inRange,
      (holds_binary hlength).evaluate sized, (holds_subset inRange).evaluate sized⟩

/-- One version with two functionalities. -/
def pairProblem : Problem :=
  ⟨1, 2, [[3, 1]], [[1, 1]], [1]⟩

/-- A row of two marks is taken under either encoding. -/
theorem toVariable_encodings_pairProblem :
    pairProblem.WellFormed
      ∧ new? (Evaluator.new pairProblem (some .binary))
        = .ok (new (Evaluator.new pairProblem (some .binary)))
      ∧ new? (Evaluator.new pairProblem (some .subset))
        = .ok (new (Evaluator.new pairProblem (some .subset)))
      ∧ (∃ v, (new (Evaluator.new pairProblem (some .binary))).toVariable (.flags [true, false])
        = .ok v)
      ∧ ∃ w, (new (Evaluator.new pairProblem (some .subset))).toVariable (.flags [true, false])
        = .ok w := by
  have wellFormed : pairProblem.WellFormed :=
    ⟨by decide, by decide, by simp [Problem.IsMatrix, pairProblem, Problem.maxEntry],
      by simp [Problem.IsMatrix, pairProblem, Problem.maxEntry], by decide⟩
  have h := toVariable_encodings wellFormed rfl rfl (.flags [true, false])
  exact ⟨wellFormed, rfl, rfl, h.1.mpr ⟨[true, false], rfl⟩,
    h.2.1.mpr ⟨[2], [true, false], rfl, fun i hi => (List.getElem?_eq_some_iff.mp hi).1⟩⟩

/-- **A row that is too short is taken under the subset encoding only.** -/
theorem toVariable_encodings_differ :
    ¬((∃ w, (new (Evaluator.new pairProblem (some .subset))).toVariable (.flags [true]) = .ok w)
      ↔ ∃ v, (new (Evaluator.new pairProblem (some .binary))).toVariable (.flags [true])
        = .ok v) := by
  have hbinary : (new (Evaluator.new pairProblem (some .binary))).toVariable (.flags [true])
      = .error (.bitsExpected 2 1) := rfl
  have hsubset : (new (Evaluator.new pairProblem (some .subset))).toVariable (.flags [true])
      = .ok (.subset ⟨.whole 2, .whole 0, .whole 2, [0]⟩) := by decide +kernel
  intro h
  obtain ⟨v, hv⟩ := h.mp ⟨_, hsubset⟩
  exact nomatch hbinary.symm.trans hv

end MigrationPlan.Population
