import MigrationPlan.Command.Front
import MigrationPlan.Proofs.Command.Files
import MigrationPlan.Proofs.Evaluation.Rows

/-!
# Proofs/Command/Front — the solutions that are printed are the best selections

Of a search it is assumed that it evaluates every row of marks and returns, each once and with its
values to minimise, the rows without positive overruns that no such row dominates, in some order
(`Population.Returns`).  These are the rows of the best selections (`Population.returns_iff`), and
what the command makes of them are these selections (`Population.Returns.solutions_eq`).  So the
command prints each best selection once, with its values, and selections of one value are all
printed: **`run_printsBest`**.  Looking at every row is such a search (`exhaustive_finds`).
-/

namespace MigrationPlan

/-! ## The best rows -/

section Undominated

variable {α β : Type} {admitted : α → Bool} {values : α → List Binary64} {xs : List α}

theorem mem_undominated {x : α} :
    x ∈ undominated admitted values xs ↔
      x ∈ xs ∧ admitted x ∧ ∀ y ∈ xs, admitted y → ¬dominates (values y) (values x) := by
  simp [undominated, and_comm]

theorem undominated_map {admitted : β → Bool} {values : β → List Binary64} (f : α → β) :
    undominated admitted values (xs.map f)
      = (undominated (admitted ∘ f) (values ∘ f) xs).map f := by
  simp [undominated, List.filter_map, List.any_map, Function.comp_def]

end Undominated

namespace Problem

variable {p : Problem}

/-- The best selections, in the order of all selections. -/
def bestSelections (p : Problem) : List (Finset Nat) :=
  undominated (fun S => (p.reported S).isFeasible) (fun S => (p.reported S).minimized)
    (subsets p.functionalities)

/-- Their rows. -/
def bestRows (p : Problem) : List Bits :=
  p.bestSelections.map (marks p.functionalities)

theorem mem_bestSelections (valid : p.WellFormed) {S : Finset Nat} :
    S ∈ p.bestSelections ↔ p.IsBest S := by
  simp only [bestSelections, mem_undominated, mem_subsets, isBest_iff valid]

theorem mem_bestRows (valid : p.WellFormed) {row : Bits} :
    row ∈ p.bestRows ↔ row.length = p.functionalities ∧ p.IsBest (selectionOf row) := by
  simp only [bestRows, List.mem_map, mem_bestSelections valid]
  constructor
  · rintro ⟨S, hS, rfl⟩
    rw [selectionOf_marks hS.1]
    exact ⟨length_marks _ S, hS⟩
  · rintro ⟨hrow, hbest⟩
    exact ⟨_, hbest, marks_selectionOf hrow⟩

theorem map_selectionOf_bestRows (valid : p.WellFormed) :
    p.bestRows.map selectionOf = p.bestSelections := by
  calc p.bestRows.map selectionOf
      = p.bestSelections.map (selectionOf ∘ marks p.functionalities) := List.map_map
    _ = p.bestSelections.map id := List.map_congr_left fun S hS =>
        selectionOf_marks ((mem_bestSelections valid).mp hS).1
    _ = p.bestSelections := List.map_id _

theorem nodup_bestRows (valid : p.WellFormed) : p.bestRows.Nodup := by
  have hsublist : p.bestSelections.Sublist (subsets p.functionalities) :=
    List.filter_sublist.trans List.filter_sublist
  refine List.Nodup.of_map selectionOf ?_
  rw [map_selectionOf_bestRows valid]
  exact (nodup_subsets _).sublist hsublist

/-- The best of the rows are those of the best selections. -/
theorem undominated_zip_reported (p : Problem) :
    undominated (fun c => c.2.isFeasible) (fun c => c.2.minimized)
        (((selections p.functionalities).map (marksOf p.functionalities)).zip
          ((subsets p.functionalities).map p.reported))
      = p.bestSelections.map fun S => (marks p.functionalities S, p.reported S) := by
  rw [map_marksOf_selections, List.zip_map', undominated_map]
  rfl

/-- What a search finds a selection to be. -/
def found (p : Problem) (encoding : Encoding) (S : Finset Nat) : FoundSelection :=
  ⟨S.sort, encoding.decisionOf p.functionalities S, (p.reported S).objectives⟩

end Problem

namespace Population

variable [Memory]

/-! ## A search -/

/-- **A row is rated**: it has a mark for each functionality, and is evaluated. -/
def Rates (a : Population) (row : Bits) (r : Evaluation) : Prop :=
  row.length = a.evaluator.problem.functionalities
    ∧ (a.evaluateRows [.flags row]).answer = .ok [r]

/-- **What a search returns that evaluates every row**: each once, the rows without positive
overruns that no other row without positive overruns dominates in the values to minimise, and with
them these values. -/
structure Returns (a : Population) (rows : List Bits) (values : List (List Binary64)) :
    Prop where
  nodup : rows.Nodup
  mem_iff : ∀ row, row ∈ rows ↔ ∃ r, a.Rates row r ∧ r.isFeasible
    ∧ ∀ rival s, a.Rates rival s → s.isFeasible → ¬dominates s.minimized r.minimized
  values : List.Forall₂ (fun row minimized => ∃ r, a.Rates row r ∧ r.minimized = minimized)
    rows values

/-- The same of what is found; there are no rows where nothing is. -/
def Finds (a : Population) (found : Option Findings) : Prop :=
  a.Returns (found.elim [] fun f => f.marks.rows) (found.elim [] fun f => f.minimized.rows)

theorem solutions_eq (a : Population) (found : Option Findings) :
    a.solutions found = ((found.elim [] fun f => f.marks.rows).zip
      (found.elim [] fun f => f.minimized.rows)).mapM fun row => a.foundSelection row.1 row.2 := by
  cases found <;> rfl

variable {p : Problem} {encoding : Encoding} {row : Bits} {rows : List Bits}
  {values : List (List Binary64)} {r : Evaluation}

/-- **A row is rated with what is reported of its selection.** -/
theorem rates_iff (held : p.IsHeld) :
    (new (Evaluator.new p (some encoding))).Rates row r ↔
      row.length = p.functionalities ∧ p.reported (selectionOf row) = r := by
  refine and_congr_right fun hrow => ?_
  replace hrow : row.length = p.functionalities := hrow
  have hanswer : ((new (Evaluator.new p (some encoding))).evaluateRows [.flags row]).answer
      = .ok [p.reported (selectionOf row)] := by
    have hbatch := answer_evaluateRows_marks encoding held.toWellFormed
      (held.functionalities (by decide)) (List.forall_mem_singleton.mpr (selectionOf_subset hrow))
    rwa [List.map_singleton, marks_selectionOf hrow] at hbatch
  simp [hanswer]

/-- What holds of all ratings holds of all that is reported of selections. -/
theorem forall_rates_iff (held : p.IsHeld) {P : Evaluation → Prop} :
    (∀ row r, (new (Evaluator.new p (some encoding))).Rates row r → P r) ↔
      ∀ S ⊆ Finset.range p.functionalities, P (p.reported S) := by
  constructor
  · intro h S hS
    rw [← selectionOf_marks hS]
    exact h _ _ ((rates_iff held).mpr ⟨length_marks _ S, rfl⟩)
  · intro h row r hr
    obtain ⟨hrow, rfl⟩ := (rates_iff held).mp hr
    exact h _ (selectionOf_subset hrow)

/-- **A search returns the rows of the best selections**, with the values reported of these. -/
theorem returns_iff (held : p.IsHeld) :
    (new (Evaluator.new p (some encoding))).Returns rows values ↔ rows.Nodup
      ∧ (∀ row, row ∈ rows ↔ row.length = p.functionalities ∧ p.IsBest (selectionOf row))
      ∧ values = rows.map fun row => (p.reported (selectionOf row)).minimized := by
  have hfound (row : Bits) : (∃ r, (new (Evaluator.new p (some encoding))).Rates row r
      ∧ r.isFeasible ∧ ∀ rival s, (new (Evaluator.new p (some encoding))).Rates rival s →
        s.isFeasible → ¬dominates s.minimized r.minimized)
      ↔ row.length = p.functionalities ∧ p.IsBest (selectionOf row) := by
    simp only [forall_rates_iff held, Problem.isBest_iff held.toWellFormed]
    constructor
    · rintro ⟨_, hr, hfeasible, hrivals⟩
      obtain ⟨hrow, rfl⟩ := (rates_iff held).mp hr
      exact ⟨hrow, selectionOf_subset hrow, hfeasible, hrivals⟩
    · rintro ⟨hrow, -, hfeasible, hrivals⟩
      exact ⟨_, (rates_iff held).mpr ⟨hrow, rfl⟩, hfeasible, hrivals⟩
  constructor
  · rintro ⟨hnodup, hmem, hvalues⟩
    refine ⟨hnodup, fun row => (hmem row).trans (hfound row), ?_⟩
    rw [eq_comm, ← List.forall₂_eq_eq_eq, List.forall₂_map_left_iff]
    refine hvalues.imp fun row minimized hrow => ?_
    obtain ⟨r, hr, rfl⟩ := hrow
    rw [((rates_iff held).mp hr).2]
  · rintro ⟨hnodup, hmem, rfl⟩
    refine ⟨hnodup, fun row => (hmem row).trans (hfound row).symm, ?_⟩
    rw [List.forall₂_map_right_iff, List.forall₂_same]
    exact fun row hrow => ⟨_, (rates_iff held).mpr ⟨((hmem row).mp hrow).1, rfl⟩, rfl⟩

section Returned

variable (held : p.IsHeld) (returned : (new (Evaluator.new p (some encoding))).Returns rows values)

include held returned

/-- The selections of the rows that are returned are the best ones. -/
theorem Returns.mem_map {S : Finset Nat} : S ∈ rows.map selectionOf ↔ p.IsBest S := by
  obtain ⟨-, hmem, -⟩ := (returns_iff held).mp returned
  rw [List.mem_map]
  constructor
  · rintro ⟨row, hrow, rfl⟩
    exact ((hmem row).mp hrow).2
  · intro hbest
    have hselection := selectionOf_marks hbest.1
    exact ⟨_, (hmem _).mpr ⟨length_marks _ S, hselection.symm ▸ hbest⟩, hselection⟩

theorem Returns.nodup_map : (rows.map selectionOf).Nodup := by
  obtain ⟨hnodup, hmem, -⟩ := (returns_iff held).mp returned
  refine hnodup.map_on fun row hrow row' hrow' heq => ?_
  rw [← marks_selectionOf ((hmem row).mp hrow).1, heq, marks_selectionOf ((hmem row').mp hrow').1]

/-- **What is made of the rows are their selections**, with the values reported of these. -/
theorem Returns.solutions_eq :
    (rows.zip values).mapM (fun row =>
        (new (Evaluator.new p (some encoding))).foundSelection row.1 row.2)
      = .ok ((rows.map selectionOf).map (p.found encoding)) := by
  obtain ⟨-, hmem, rfl⟩ := (returns_iff held).mp returned
  have hzip (g : Bits → List Binary64) :
      rows.zip (rows.map g) = rows.map fun row => (row, g row) := by
    simpa using List.zip_map' (f := id) (g := g) (l := rows)
  rw [hzip, List.mapM_map, List.map_map]
  refine mapM_of_ok fun row hrow => ?_
  have hlength := ((hmem row).mp hrow).1
  have hfound := foundSelection_marks encoding held.toWellFormed (held.functionalities (by decide))
    (selectionOf_subset hlength) (p.reported (selectionOf row)).minimized
  rwa [marks_selectionOf hlength] at hfound

end Returned

end Population

/-! ## The exhaustive search -/

section Exhaustive

variable [Memory] {p : Problem} {encoding : Encoding} {settings : SearchSettings}

/-- Every row is evaluated as its selection. -/
theorem answer_evaluateRows_selections (held : p.IsHeld) :
    ((Population.new (Evaluator.new p (some encoding))).evaluateRows
      (((selections p.functionalities).map (marksOf p.functionalities)).map Datum.flags)).answer
        = .ok ((subsets p.functionalities).map p.reported) := by
  rw [map_marksOf_selections, List.map_map]
  exact Population.answer_evaluateRows_marks encoding held.toWellFormed
    (held.functionalities (by decide)) fun S hS => mem_subsets.mp hS

/-- Looking at every row comes down to the best selections. -/
theorem exhaustive_eq (held : p.IsHeld) :
    exhaustive (Population.new (Evaluator.new p (some encoding))) settings
      = .ok (some ⟨.table p.bestRows,
        .table (p.bestSelections.map fun S => (p.reported S).minimized)⟩) := by
  have hsome : (p.bestSelections.map fun S =>
      (marks p.functionalities S, p.reported S)).isEmpty = false := by
    obtain ⟨S, hS⟩ := p.exists_isBest held.toWellFormed
    simpa using List.ne_nil_of_mem ((Problem.mem_bestSelections held.toWellFormed).mpr hS)
  have hrun : exhaustive (Population.new (Evaluator.new p (some encoding))) settings
      = ((Population.new (Evaluator.new p (some encoding))).evaluateRows
        (((selections p.functionalities).map (marksOf p.functionalities)).map
          Datum.flags)).answer >>= fun results =>
        let found := undominated (fun c => c.2.isFeasible) (fun c => c.2.minimized)
          (((selections p.functionalities).map (marksOf p.functionalities)).zip results)
        .ok <| if found.isEmpty then none
          else some ⟨.table (found.map (·.1)), .table (found.map fun c => c.2.minimized)⟩ := rfl
  rw [hrun, answer_evaluateRows_selections held, ok_bind, p.undominated_zip_reported]
  simp only [hsome, if_neg Bool.false_ne_true, List.map_map, Problem.bestRows]
  rfl

/-- **Looking at every row is a search.** -/
theorem exhaustive_finds (settings : SearchSettings) (held : p.IsHeld) :
    ∃ found, exhaustive (Population.new (Evaluator.new p (some encoding))) settings = .ok found
      ∧ (Population.new (Evaluator.new p (some encoding))).Finds found := by
  refine ⟨_, exhaustive_eq held, (Population.returns_iff held).mpr
    ⟨p.nodup_bestRows held.toWellFormed, fun _ => p.mem_bestRows held.toWellFormed, ?_⟩⟩
  rw [← p.map_selectionOf_bestRows held.toWellFormed, List.map_map]
  rfl

end Exhaustive

/-! ## What is printed -/

namespace Command.Front

/-- What is printed of a selection. -/
def solutionOf (p : Problem) (encoding : Encoding) (S : Finset Nat) : Report :=
  .record
    [("selected", .positions S.sort), ("variable", .text (encoding.spelling p.functionalities S)),
     ("business_value", .reals (p.reported S).objectives)]

/-- What is printed where these selections are the solutions. -/
def summaryOf (p : Problem) (settings : Settings) (printed : List (Finset Nat)) : Report :=
  let e := Evaluator.new p (some settings.encoding)
  .record
    [("evaluator", .text e.name), ("n_versions", .whole p.versions),
     ("n_functionalities", .whole p.functionalities), ("n_pareto", .whole printed.length),
     ("pop_size", .whole settings.search.populationSize),
     ("n_gen", .whole settings.search.generations), ("seed", .whole settings.search.seed),
     ("constraint_names", .texts e.constraintNames),
     ("solutions", .list (printed.map (solutionOf p settings.encoding)))]

/-- **The selections that are printed are the best ones**, each once.  The evaluator reports of the
variable of each what is printed of it, and the string that is printed stands for the same
functionalities. -/
structure PrintsBest (p : Problem) (encoding : Encoding) (printed : List (Finset Nat)) : Prop where
  nonempty : printed ≠ []
  nodup : printed.Nodup
  mem_iff : ∀ S, S ∈ printed ↔ p.IsBest S
  evaluated : ∀ S ∈ printed, (Evaluator.new p (some encoding)).evaluate
    (encoding.decisionOf p.functionalities S) = .ok (p.reported S)
  denoted : ∀ S ∈ printed,
    encoding.denoted (encoding.spelling p.functionalities S) = S.sort

theorem solutionReport_found (p : Problem) (encoding : Encoding) (S : Finset Nat) :
    solutionReport (p.found encoding S) = solutionOf p encoding S := by
  rw [solutionReport, Problem.found, text_decisionOf, solutionOf]

section Runs

variable [Memory] {tools : Tools} {read : FileReader Id} {arguments : List String}
  {settings : Settings} {p : Problem}

/-- **A command line names a problem, all of whose rows are evaluated by the search.** -/
structure Searches (tools : Tools) (read : FileReader Id) (arguments : List String)
    (settings : Settings) (p : Problem) : Prop where
  named : (named tools read arguments).run = .ok (settings, p)
  finds : ∃ found,
    tools.search (Population.new (Evaluator.new p (some settings.encoding))) settings.search
        = .ok found
      ∧ (Population.new (Evaluator.new p (some settings.encoding))).Finds found

/-- The problem that a command line names is one in memory. -/
theorem isHeld_of_named (h : (named tools read arguments).run = .ok (settings, p)) :
    p.IsHeld := by
  simp only [named, run_bind_id, run_liftM_id] at h
  obtain ⟨request, -, h⟩ := bind_eq_ok.mp h
  obtain ⟨base, -, h⟩ := bind_eq_ok.mp h
  obtain ⟨merged, -, h⟩ := bind_eq_ok.mp h
  obtain ⟨q, hload, h⟩ := bind_eq_ok.mp h
  obtain ⟨-, rfl⟩ := Prod.mk.inj (Except.ok.inj h)
  exact isHeld_of_loadProblem hload

/-- Looking at every row is a search for any problem. -/
theorem searches_of_exhaustive (hsearch : tools.search = exhaustive)
    (h : (named tools read arguments).run = .ok (settings, p)) :
    Searches tools read arguments settings p :=
  ⟨h, hsearch ▸ exhaustive_finds settings.search (isHeld_of_named h)⟩

/-- What is found in the population of a problem is summarized as its best selections. -/
theorem summarize_eq (held : p.IsHeld) {found : Option Findings}
    (hsearch : tools.search (Population.new (Evaluator.new p (some settings.encoding)))
      settings.search = .ok found)
    (finds : (Population.new (Evaluator.new p (some settings.encoding))).Finds found) :
    ∃ printed, PrintsBest p settings.encoding printed
      ∧ summarize tools settings p = .ok ⟨Evaluator.new p (some settings.encoding),
        settings.search, printed.map (p.found settings.encoding)⟩ := by
  have hnew : Population.new? (Evaluator.new p (some settings.encoding))
      = .ok (Population.new (Evaluator.new p (some settings.encoding))) :=
    Population.new?_eq_ok.mpr ⟨held.functionalities (Nat.le_refl 8), rfl⟩
  have hcreate : Evaluator.create p.announced (some settings.encoding)
      = .ok (Evaluator.new p (some settings.encoding)) := rfl
  refine ⟨_, ⟨?_, finds.nodup_map held, fun S => finds.mem_map held, fun S hS => ?_,
    fun S hS => ?_⟩, ?_⟩
  · obtain ⟨S, hbest⟩ := p.exists_isBest held.toWellFormed
    exact List.ne_nil_of_mem ((finds.mem_map held).mpr hbest)
  · have hbest := (finds.mem_map held).mp hS
    exact (holds_decisionOf hbest.1).evaluate
      ((held.functionalities (Nat.le_refl 8)).isWord (by decide))
  · exact settings.encoding.denoted_spelling ((finds.mem_map held).mp hS).1
  · rw [summarize, hcreate, ok_bind, hnew, ok_bind, hsearch, ok_bind, Population.solutions_eq,
      finds.solutions_eq held, ok_bind]

/-- **A run prints the best selections.** -/
theorem exists_run_eq (h : Searches tools read arguments settings p) :
    ∃ printed, PrintsBest p settings.encoding printed
      ∧ (run read arguments tools).run = .ok ⟨Evaluator.new p (some settings.encoding),
        settings.search, printed.map (p.found settings.encoding)⟩ := by
  obtain ⟨found, hsearch, finds⟩ := h.finds
  obtain ⟨printed, best, hsummary⟩ := summarize_eq (isHeld_of_named h.named) hsearch finds
  refine ⟨printed, best, ?_⟩
  rw [run, run_bind_id, h.named, ok_bind]
  exact hsummary

/-- **The solutions that are printed are the best selections.**  Let a command line name a problem,
and let the search evaluate every row of marks.  The command prints, without fault, the best
selections of the problem: there is one, and each of them is printed once, also if others have the
same values; with its functionalities, ascending, a string that stands for the same ones, and the
values that the evaluator reports of it.  Command lines that name one problem, under whatever
encoding, print the same functionalities with the same values. -/
theorem run_printsBest (p : Problem) :
    (∀ tools read arguments settings, Searches tools read arguments settings p →
      ∃ summary printed, (run read arguments tools).run = .ok summary
        ∧ summary.report = summaryOf p settings printed
        ∧ PrintsBest p settings.encoding printed)
    ∧ ∀ tools read arguments settings tools' read' arguments' settings',
      Searches tools read arguments settings p → Searches tools' read' arguments' settings' p →
      ∀ summary summary', (run read arguments tools).run = .ok summary →
        (run read' arguments' tools').run = .ok summary' → ∀ selected values,
          (∃ c ∈ summary.solutions, c.selected = selected ∧ c.businessValue = values)
            ↔ ∃ c ∈ summary'.solutions, c.selected = selected ∧ c.businessValue = values := by
  constructor
  · intro tools read arguments settings h
    obtain ⟨printed, best, hrun⟩ := exists_run_eq h
    refine ⟨_, printed, hrun, ?_, best⟩
    simp only [Summary.report, List.length_map, List.map_map, Function.comp_def,
      solutionReport_found]
    rfl
  · intro tools read arguments settings tools' read' arguments' settings' h h' summary summary'
      hrun hrun' selected values
    obtain ⟨printed, best, heq⟩ := exists_run_eq h
    obtain ⟨printed', best', heq'⟩ := exists_run_eq h'
    obtain rfl := Except.ok.inj (hrun.symm.trans heq)
    obtain rfl := Except.ok.inj (hrun'.symm.trans heq')
    simp only [List.mem_map, exists_exists_and_eq_and, best.mem_iff, best'.mem_iff]
    rfl

end Runs

/-- One version with two functionalities of one value, of which one can be paid. -/
def tiedProblem : Problem :=
  ⟨1, 2, [[2, 2]], [[1, 1]], [1]⟩

/-- Its file, at every path. -/
def tiedFile : FileReader Id := fun _ =>
  .text ("Software migration problem specification (1 versions, 2 functionalities)\n=\nVersion 1:\n"
    ++ " budget: +1\n f:\n cost: +1\n bvalue: +2\n f:\n cost: +1\n bvalue: +2\n")

/-- Both are printed, and under the subset encoding as well. -/
theorem run_printsBest_tiedProblem :
    Searches {} tiedFile ["--instance", "p"] { problemFile := some "p" } tiedProblem
      ∧ Searches {} tiedFile ["--instance", "p", "--encoding", "subset"]
        { problemFile := some "p", encoding := .subset } tiedProblem
      ∧ ∃ summary printed, (run tiedFile ["--instance", "p"]).run = .ok summary
        ∧ summary.report = summaryOf tiedProblem { problemFile := some "p" } printed
        ∧ PrintsBest tiedProblem .binary printed
        ∧ summary.solutions.map (fun c => c.decision.text) = ["10", "01"]
        ∧ ∃ other, (run tiedFile ["--instance", "p", "--encoding", "subset"]).run = .ok other
          ∧ ∀ selected values,
            (∃ c ∈ summary.solutions, c.selected = selected ∧ c.businessValue = values)
              ↔ ∃ c ∈ other.solutions, c.selected = selected ∧ c.businessValue = values := by
  have hbinary : (named (m := Id) {} tiedFile ["--instance", "p"]).run
      = .ok ({ problemFile := some "p" }, tiedProblem) := by
    change @Eq (Except Fault (Settings × Problem)) _ _
    decide +kernel
  have hsubset : (named (m := Id) {} tiedFile ["--instance", "p", "--encoding", "subset"]).run
      = .ok ({ problemFile := some "p", encoding := .subset }, tiedProblem) := by
    change @Eq (Except Fault (Settings × Problem)) _ _
    decide +kernel
  have hfirst : Searches {} tiedFile ["--instance", "p"] { problemFile := some "p" } tiedProblem :=
    searches_of_exhaustive rfl hbinary
  have hsecond : Searches {} tiedFile ["--instance", "p", "--encoding", "subset"]
      { problemFile := some "p", encoding := .subset } tiedProblem :=
    searches_of_exhaustive rfl hsubset
  obtain ⟨hprints, hagree⟩ := run_printsBest tiedProblem
  obtain ⟨summary, printed, hrun, hreport, best⟩ := hprints _ _ _ _ hfirst
  obtain ⟨other, -, hrun', -, -⟩ := hprints _ _ _ _ hsecond
  have htexts : (summarize {} { problemFile := some "p" } tiedProblem).map
      (fun s => s.solutions.map fun c => c.decision.text) = .ok ["10", "01"] := by decide +kernel
  have hsummarize : summarize {} { problemFile := some "p" } tiedProblem = .ok summary := by
    rwa [run, run_bind_id, hbinary, ok_bind] at hrun
  rw [hsummarize] at htexts
  exact ⟨hfirst, hsecond, summary, printed, hrun, hreport, best, Except.ok.inj htexts, other,
    hrun', hagree _ _ _ _ _ _ _ _ hfirst hsecond _ _ hrun hrun'⟩

end Command.Front

end MigrationPlan
