import MigrationPlan.Proofs.Command.Arguments
import MigrationPlan.Proofs.Command.Files
import MigrationPlan.Proofs.Evaluation.Rows
import MigrationPlan.Proofs.Evaluation.Solution

/-!
# Proofs/Command/Evaluate — one command line under either encoding

A command line names a list of indices of a problem (`Command.Evaluate.named`).  Both encodings
write the list into a fresh solution, and what is written is its set (`indexSet`), so that both
evaluate the same selection: **`evaluation_eq_ok`**.  They differ in the lists they take
(`Encoding.Takes`).  A bit may be set twice, but a member is no member twice; so the subset encoding
refuses some of what the binary one takes, and what both take is printed with one evaluation:
**`runUnder_encodings`**, `runUnder_encodings_differ`.
-/

namespace MigrationPlan

variable {p : Problem} {encoding : Encoding} {is : List Int} {v : Variable} {s : Solution}
  {r : Evaluation}

/-! ## Indices and their set -/

/-- The set of the positions that are listed. -/
def indexSet (is : List Int) : Finset Nat :=
  (is.map Int.toNat).toFinset

theorem mem_indexSet (nonneg : ∀ i ∈ is, 0 ≤ i) {k : Nat} : k ∈ indexSet is ↔ (k : Int) ∈ is := by
  rw [indexSet, List.mem_toFinset, List.mem_map]
  constructor
  · rintro ⟨i, hi, rfl⟩
    rwa [Int.toNat_of_nonneg (nonneg i hi)]
  · intro hk
    exact ⟨k, hk, Int.toNat_natCast k⟩

/-- The bits at listed positions are the row of their set. -/
theorem bitsAt_eq_marks (nonneg : ∀ i ∈ is, 0 ≤ i) (n : Nat) :
    Variable.bitsAt n is = marks n (indexSet is) := by
  refine List.map_congr_left fun k _ => ?_
  rw [Bool.eq_iff_iff]
  simp [mem_indexSet nonneg]

/-- The members of listed positions are their set, ascending. -/
theorem memberList_eq_sort (nonneg : ∀ i ∈ is, 0 ≤ i) :
    memberList is = (indexSet is).sort.map Int.ofNat := by
  rw [← memberList_sort]
  refine List.Pairwise.eq_of_mem_iff (r := (· < ·)) (pairwise_memberList _) (pairwise_memberList _)
    fun i => ?_
  simp only [mem_memberList, List.mem_map, Finset.mem_sort, mem_indexSet nonneg]
  constructor
  · intro hi
    exact ⟨i.toNat, by rwa [Int.toNat_of_nonneg (nonneg i hi)], Int.toNat_of_nonneg (nonneg i hi)⟩
  · rintro ⟨k, hk, rfl⟩
    exact hk

theorem indexSet_subset {n : Nat} (inRange : ∀ i ∈ is, 0 ≤ i ∧ i < n) :
    indexSet is ⊆ Finset.range n := by
  intro k hk
  have := inRange k ((mem_indexSet fun i hi => (inRange i hi).1).mp hk)
  rw [Finset.mem_range]
  omega

/-! ## The write -/

/-- **The indices that an encoding takes**: each is that of a functionality, and a subset takes none
of them twice. -/
structure Encoding.Takes (encoding : Encoding) (n : Nat) (is : List Int) : Prop where
  inRange : ∀ i ∈ is, 0 ≤ i ∧ i < n
  distinct : encoding = .subset → is.Nodup

/-- A fresh variable selects nothing. -/
theorem newVariable_eq [Memory] (held : p.IsHeld) :
    (Evaluator.new p (some encoding)).newVariable
      = .ok (encoding.decisionOf p.functionalities ∅) := by
  cases encoding with
  | binary =>
    have hclear : Encoding.binary.decisionOf p.functionalities ∅
        = .binary ⟨List.replicate p.functionalities false⟩ := by
      simp [Encoding.decisionOf, marks]
    rw [newVariable_binary_eq_ok, hclear]
    exact ⟨held.one_le_functionalities, held.functionalities (by decide), rfl⟩
  | subset =>
    rw [newVariable_subset, Encoding.decisionOf, Finset.sort_empty]
    rfl

/-- Bits are set at positions in range. -/
theorem setBitset_decisionOf {n : Nat} :
    (Encoding.binary.decisionOf n ∅).setBitset (.wholes is) = .ok v ↔
      (∀ i ∈ is, 0 ≤ i ∧ i < n) ∧ Encoding.binary.decisionOf n (indexSet is) = v := by
  have hlength : BinaryVariable.length ⟨marks n ∅⟩ = n := length_marks n ∅
  rw [Encoding.decisionOf, Variable.setBitset_eq_ok_iff (Datum.lists_wholes is), hlength]
  refine and_congr_right fun inRange => ?_
  rw [bitsAt_eq_marks fun i hi => (inRange i hi).1, Encoding.decisionOf]

/-- Members are distinct positions in range. -/
theorem setSubset_decisionOf :
    (Encoding.subset.decisionOf p.functionalities ∅).setSubset (.wholes is) = .ok v ↔
      (∀ i ∈ is, 0 ≤ i ∧ i < p.functionalities) ∧ is.Nodup
        ∧ Encoding.subset.decisionOf p.functionalities (indexSet is) = v := by
  rw [Encoding.decisionOf, Finset.sort_empty, List.map_nil]
  constructor
  · intro h
    obtain ⟨distinct, canonical, rfl⟩ :=
      (Variable.setSubset_eq_ok_iff (Datum.lists_wholes is)).mp h
    have inRange (i : Int) (hi : i ∈ is) : 0 ≤ i ∧ i < p.functionalities := by
      simpa [SubsetVariable.isSelectable]
        using canonical.isSelectable i (mem_memberList.mpr hi)
    rw [memberList_eq_sort fun i hi => (inRange i hi).1]
    exact ⟨inRange, distinct, rfl⟩
  · rintro ⟨inRange, distinct, rfl⟩
    have hcast : (is.map Int.toNat).map Int.ofNat = is := by
      rw [List.map_map]
      exact (List.map_congr_left fun i hi => Int.toNat_of_nonneg (inRange i hi).1).trans
        (List.map_id is)
    have hdistinct : (is.map Int.toNat).Nodup := by
      refine List.Nodup.of_map Int.ofNat ?_
      rwa [hcast]
    have hbelow (k : Nat) (hk : k ∈ is.map Int.toNat) : k < p.functionalities :=
      Finset.mem_range.mp (indexSet_subset inRange (List.mem_toFinset.mpr hk))
    have hwrite := setSubset_empty hdistinct hbelow
    rwa [hcast, memberList_eq_sort fun i hi => (inRange i hi).1] at hwrite

/-- **A fresh solution takes the indices that its encoding takes**, and then holds their set. -/
theorem select_decisionOf {f g : List Binary64} :
    (⟨[encoding.decisionOf p.functionalities ∅], f, g⟩ : Solution).select (.wholes is) = .ok s ↔
      (∀ i ∈ is, 0 ≤ i ∧ i < p.functionalities) ∧ (encoding = .subset → is.Nodup)
        ∧ ⟨[encoding.decisionOf p.functionalities (indexSet is)], f, g⟩ = s := by
  obtain ⟨write, hselect, hwrite⟩ : ∃ write : Except Fault Variable,
      (⟨[encoding.decisionOf p.functionalities ∅], f, g⟩ : Solution).select (.wholes is)
          = write.map (fun w => ⟨[w], f, g⟩)
        ∧ ∀ w, write = .ok w ↔ (∀ i ∈ is, 0 ≤ i ∧ i < p.functionalities)
          ∧ (encoding = .subset → is.Nodup)
          ∧ encoding.decisionOf p.functionalities (indexSet is) = w := by
    cases encoding with
    | binary =>
      refine ⟨(Encoding.binary.decisionOf _ ∅).setBitset (.wholes is), rfl, fun w => ?_⟩
      simp [setBitset_decisionOf]
    | subset =>
      refine ⟨(Encoding.subset.decisionOf _ ∅).setSubset (.wholes is), rfl, fun w => ?_⟩
      simp [setSubset_decisionOf]
  simp only [hselect, map_eq_ok, hwrite]
  constructor
  · rintro ⟨_, ⟨inRange, distinct, rfl⟩, rfl⟩
    exact ⟨inRange, distinct, rfl⟩
  · rintro ⟨inRange, distinct, rfl⟩
    exact ⟨_, ⟨inRange, distinct, rfl⟩, rfl⟩

/-! ## The evaluation -/

/-- A fresh solution has as many objectives and constraints as there are versions. -/
theorem newSolution_eq [Memory] (held : p.IsHeld) :
    (Evaluator.new p (some encoding)).newSolution
      = .ok ⟨[encoding.decisionOf p.functionalities ∅], List.replicate p.versions 0,
        List.replicate p.versions 0⟩ := by
  have hzeros : Solution.zeros (.whole p.versions) = .ok (List.replicate p.versions 0) :=
    Solution.zeros_eq_ok.mpr ⟨held.budgets, rfl⟩
  have hnew : (Evaluator.new p (some encoding)).newSolution = (do
      let v ← (Evaluator.new p (some encoding)).newVariable
      Solution.new [v] (.whole p.versions) (.whole p.versions)) := rfl
  rw [hnew, newVariable_eq held, ok_bind, Solution.new, hzeros, ok_bind, ok_bind]

/-- What is reported replaces the zeros of a fresh solution. -/
theorem answer_evaluateSolution [Memory] (valid : p.WellFormed)
    (sized : Entry.IsWord p.functionalities) {S : Finset Nat}
    (hS : S ⊆ Finset.range p.functionalities) :
    ((Evaluator.new p (some encoding)).evaluateSolution
        ⟨[encoding.decisionOf p.functionalities S], List.replicate p.versions 0,
          List.replicate p.versions 0⟩).answer = .ok (p.reported S) := by
  have hminimized : (p.reported S).minimized.length = p.versions := by
    simp [Problem.reported, Problem.evaluateColumns, Problem.totals, valid.value.1]
  have hoverruns : (p.reported S).overruns.length = p.versions := by
    simp [Problem.reported, Problem.evaluateColumns, Problem.totals, Problem.budgets, valid.cost.1,
      valid.budget.1]
  have hevaluate : (Evaluator.new p (some encoding)).evaluate
      (encoding.decisionOf p.functionalities S) = .ok (p.reported S) :=
    (holds_decisionOf hS).evaluate sized
  rw [Evaluator.evaluateSolution_of_ok rfl hevaluate, if_pos (by simpa using hminimized),
    if_pos (by simpa using hoverruns)]

namespace Command.Evaluate

/-- **Indices are evaluated as their set**, if the encoding takes them. -/
theorem evaluation_eq_ok [Memory] (held : p.IsHeld) :
    evaluation (Evaluator.new p (some encoding)) is = .ok (v, r) ↔
      encoding.Takes p.functionalities is
        ∧ encoding.decisionOf p.functionalities (indexSet is) = v
        ∧ p.reported (indexSet is) = r := by
  have sized : Entry.IsWord p.functionalities :=
    (held.functionalities (Nat.le_refl 8)).isWord (by decide)
  simp only [evaluation, newSolution_eq held, ok_bind, bind_eq_ok, Except.ok.injEq, Prod.mk.injEq]
  constructor
  · rintro ⟨_, hselect, _, hfirst, _, hanswer, rfl, rfl⟩
    obtain ⟨inRange, distinct, rfl⟩ := select_decisionOf.mp hselect
    rw [answer_evaluateSolution held.toWellFormed sized (indexSet_subset inRange)] at hanswer
    exact ⟨⟨inRange, distinct⟩, Except.ok.inj hfirst, Except.ok.inj hanswer⟩
  · rintro ⟨⟨inRange, distinct⟩, rfl, rfl⟩
    exact ⟨_, select_decisionOf.mpr ⟨inRange, distinct, rfl⟩, _, rfl, _,
      answer_evaluateSolution held.toWellFormed sized (indexSet_subset inRange), rfl, rfl⟩

/-! ## The run -/

theorem ofName_name (p : Problem) (encoding : Encoding) :
    Evaluator.ofName p.announced (.text encoding.name)
      = .ok (Evaluator.new p (some encoding)) := by
  cases encoding <;> rfl

section Runs

variable [Memory] {read : FileReader Id} {arguments : List String}

/-- What a command line comes to under an encoding, whichever it names itself. -/
def runUnder (read : FileReader Id) (arguments : List String) (encoding : Encoding) :
    Except Fault Report :=
  (run read (arguments ++ ["--encoding", encoding.name])).run

/-- **A command line names indices of a problem**: it can be read, and so can the problem and the
list of indices. -/
def named (read : FileReader Id) (arguments : List String) : Except Fault (Problem × List Int) := do
  let request ← Request.ofArguments arguments
  let p ← (loadProblem read request.problemFile).run
  let is ← request.indices p.functionalities
  .ok (p, is)

theorem runUnder_eq (read : FileReader Id) (arguments : List String) (encoding : Encoding) :
    runUnder read arguments encoding = named read arguments >>= fun (p, is) =>
      (evaluation (Evaluator.new p (some encoding)) is).map fun (v, r) =>
        report (Evaluator.new p (some encoding)) v r := by
  have hrun : runUnder read arguments encoding
      = Request.ofArguments (arguments ++ ["--encoding", encoding.name]) >>= fun request =>
        (loadProblem read request.problemFile).run >>= fun p => request.reportOn p := by
    simp only [runUnder, run, run_bind_id, run_liftM_id]
  rw [hrun, ofArguments_append, bind_of_map, named]
  simp only [bind_assoc, ok_bind]
  refine bind_congr fun request => bind_congr fun p => ?_
  rw [Request.reportOn, ofName_name]
  rfl

/-- The problem that a command line names is one in memory. -/
theorem isHeld_of_named (h : named read arguments = .ok (p, is)) : p.IsHeld := by
  obtain ⟨request, -, q, hload, js, -, ⟨⟩⟩ : ∃ request, Request.ofArguments arguments = .ok request
      ∧ ∃ q, (loadProblem read request.problemFile).run = .ok q
        ∧ ∃ js, request.indices q.functionalities = .ok js
          ∧ Except.ok (q, js) = (.ok (p, is) : Except Fault _) := by
    simpa only [named, bind_eq_ok] using h
  exact isHeld_of_loadProblem hload

/-- **What is printed of the indices a command line names**, if its encoding takes them. -/
theorem runUnder_eq_ok {out : Report} (h : named read arguments = .ok (p, is)) :
    runUnder read arguments encoding = .ok out ↔
      encoding.Takes p.functionalities is
        ∧ report (Evaluator.new p (some encoding))
            (encoding.decisionOf p.functionalities (indexSet is)) (p.reported (indexSet is))
          = out := by
  rw [runUnder_eq, h, ok_bind, map_eq_ok]
  simp only [Prod.exists, evaluation_eq_ok (isHeld_of_named h)]
  constructor
  · rintro ⟨_, _, ⟨htakes, rfl, rfl⟩, rfl⟩
    exact ⟨htakes, rfl⟩
  · rintro ⟨htakes, rfl⟩
    exact ⟨_, _, ⟨htakes, rfl, rfl⟩, rfl⟩

/-- **One command line under either encoding.**  If it names no indices of a problem, it is refused
under both, for the same reason.  If it names some, the binary encoding takes them if each is that
of a functionality.  The subset encoding takes what the binary one takes, as long as no index is
named twice.  What both take they print with one evaluation. -/
theorem runUnder_encodings (read : FileReader Id) (arguments : List String) :
    (∀ fault, named read arguments = .error fault →
      ∀ encoding, runUnder read arguments encoding = .error fault)
    ∧ ∀ p is, named read arguments = .ok (p, is) →
      ((∃ out, runUnder read arguments .binary = .ok out) ↔
        ∀ i ∈ is, 0 ≤ i ∧ i < p.functionalities)
      ∧ ((∃ out, runUnder read arguments .subset = .ok out) ↔
        (∃ out, runUnder read arguments .binary = .ok out) ∧ is.Nodup)
      ∧ ∀ b s, runUnder read arguments .binary = .ok b → runUnder read arguments .subset = .ok s →
        ∃ v w r, b = report (Evaluator.new p (some .binary)) v r
          ∧ s = report (Evaluator.new p (some .subset)) w r := by
  refine ⟨fun fault hfault encoding => ?_, fun p is hnamed => ⟨?_, ?_, ?_⟩⟩
  · rw [runUnder_eq, hfault, error_bind]
  all_goals simp only [runUnder_eq_ok hnamed]
  · constructor
    · rintro ⟨_, htakes, -⟩
      exact htakes.inRange
    · intro inRange
      exact ⟨_, ⟨inRange, nofun⟩, rfl⟩
  · constructor
    · rintro ⟨_, htakes, -⟩
      exact ⟨⟨_, ⟨htakes.inRange, nofun⟩, rfl⟩, htakes.distinct rfl⟩
    · rintro ⟨⟨_, htakes, -⟩, distinct⟩
      exact ⟨_, ⟨htakes.inRange, fun _ => distinct⟩, rfl⟩
  · rintro b s ⟨-, rfl⟩ ⟨-, rfl⟩
    exact ⟨_, _, _, rfl, rfl⟩

end Runs

/-- **An index that is named twice is taken under the binary encoding only.** -/
theorem runUnder_encodings_differ :
    runUnder (fun _ => .missing) ["--select", "1,1"] .subset = .error (.duplicateMembers [1, 1])
      ∧ ¬((∃ out, runUnder (fun _ => .missing) ["--select", "1,1"] .binary = .ok out) ↔
        ∃ out, runUnder (fun _ => .missing) ["--select", "1,1"] .subset = .ok out) := by
  have hnamed : named (fun _ => .missing) ["--select", "1,1"] = .ok (sampleProblem, [1, 1]) := rfl
  have hsubset : runUnder (fun _ => .missing) ["--select", "1,1"] .subset
      = .error (.duplicateMembers [1, 1]) := rfl
  refine ⟨hsubset, fun h => ?_⟩
  obtain ⟨out, hout⟩ := h.mp
    ⟨_, (runUnder_eq_ok hnamed).mpr ⟨⟨by decide, nofun⟩, rfl⟩⟩
  exact nomatch hsubset.symm.trans hout

end Command.Evaluate

end MigrationPlan
