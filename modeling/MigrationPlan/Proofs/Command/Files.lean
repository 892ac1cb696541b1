import MigrationPlan.Proofs.Problem.Answers
import MigrationPlan.Proofs.Problem.RoundTrip

/-!
# Proofs/Command/Files — a file that is written is read back

A path is followed for reading by the names on it, and for writing as well, where directories that
are missing are made on the way.  So the way that was gone for writing leads to the same place
afterwards: directories are only added, and none of them hides the file (`follow_of_enter`).  What
is read at a path is therefore what was put there last (`read_put_of_openFile`), and a problem that
is written to a file comes back from it: **`written_readBack`**.

What is loaded is always a problem in memory (`isHeld_of_loadProblem`).
-/

namespace MigrationPlan.Command

/-! ## Loading -/

/-- What a file holds is what is loaded from it. -/
theorem loadProblem_of_text [Memory] {read : FileReader Id} {path text : String}
    {answer : Except Fault Problem} (hread : read path = .text text)
    (htext : Problem.ofFileText text = answer) :
    (loadProblem read (some (.text path))).run = answer := by
  have hfile : (readFile read (.text path)).run = .ok text := by
    simp only [readFile, ExceptT.run_bind, ExceptT.run_lift, hread]
    rfl
  rw [loadProblem, ExceptT.run_bind, hfile]
  exact htext

/-- **What is loaded is a problem in memory.** -/
theorem isHeld_of_loadProblem [Memory] {read : FileReader Id} {path : Option Datum} {p : Problem}
    (h : (loadProblem read path).run = .ok p) : p.IsHeld := by
  rw [Problem.isHeld_iff]
  cases path with
  | none =>
    rw [loadProblem, run_bind_id] at h
    obtain ⟨_, hroom, h⟩ := bind_eq_ok.mp h
    obtain rfl : sampleProblem = p := Except.ok.inj h
    exact ⟨wellFormed_sampleProblem, hroom⟩
  | some path =>
    rw [loadProblem, run_bind_id] at h
    obtain ⟨text, -, h⟩ := bind_eq_ok.mp h
    exact ⟨Problem.wellFormed_of_ofLines h, Problem.hasRoom_of_ofLines h⟩

namespace FileTree

variable {tree later : FileTree} {path : String} {here there next place : Place} {names : Place}
  {name : List Char}

/-! ## Directories -/

theorem look_eq_directory :
    tree.look place = .directory ↔ place = [] ∨ place ∈ tree.directories := by
  rw [look]
  split_ifs with h
  · simpa using h
  · refine iff_of_false (fun hlook => ?_) (by simpa using h)
    cases hfile : tree.files.lookup place <;> simp [hfile] at hlook

/-- A directory stays one where directories are only added. -/
theorem look_of_subset (hdirectories : tree.directories ⊆ later.directories)
    (h : tree.look place = .directory) : later.look place = .directory := by
  rw [look_eq_directory] at h ⊢
  exact h.imp_right fun hmem => hdirectories hmem

/-- On the way to a file, directories are only added, and home stays where it is. -/
theorem state_enter (path : String) (tree : FileTree) (here names : Place) :
    tree.directories ⊆ (tree.enter path here names).state.directories
      ∧ (tree.enter path here names).state.home = tree.home := by
  have hsame (tree : FileTree) : tree.directories ⊆ tree.directories ∧ tree.home = tree.home :=
    ⟨List.Subset.refl _, rfl⟩
  induction names generalizing tree here with
  | nil =>
    unfold enter
    split <;> exact hsame tree
  | cons name names ih =>
    unfold enter
    split
    · split_ifs
      · exact ih _ _
      · exact hsame tree
      · dsimp only
        split
        · obtain ⟨hdirectories, hhome⟩ := ih (tree.addDirectory (here ++ [name])) (here ++ [name])
          exact ⟨fun _ h => hdirectories (List.mem_cons_of_mem _ h), hhome⟩
        · exact ih _ _
    · exact hsame tree

/-! ## Ways -/

/-- A name leads on from a directory: into what bears it, or back out. -/
def Leads (name : List Char) (here next : Place) : Prop :=
  name = ['.', '.'] ∧ next = here.dropLast
    ∨ name ≠ ['.', '.'] ∧ byteCount name ≤ nameLimit ∧ next = here ++ [name]

theorem follow_of_leads (hlook : tree.look here = .directory) (hleads : Leads name here next) :
    tree.follow here (name :: names) = tree.follow next names := by
  rw [follow, hlook]
  obtain ⟨hback, rfl⟩ | ⟨hon, hlength, rfl⟩ := hleads
  · simp only [if_pos hback]
  · simp only [if_neg hon, if_neg (Nat.not_lt.mpr hlength)]

/-- One step of a way that was gone for writing. -/
theorem enter_cons (h : (tree.enter path here (name :: names)).answer = .ok there) :
    tree.look here = .directory ∧ ∃ (made : FileTree) (next : Place), Leads name here next
      ∧ tree.enter path here (name :: names) = made.enter path next names := by
  rcases hlook : tree.look here <;> simp only [enter, hlook, reduceCtorEq] at h
  refine ⟨rfl, ?_⟩
  simp only [enter, hlook]
  split_ifs at h ⊢ with hback hlength
  · exact ⟨tree, _, .inl ⟨hback, rfl⟩, rfl⟩
  · have hleads : Leads name here (here ++ [name]) :=
      .inr ⟨hback, Nat.le_of_not_lt hlength, rfl⟩
    split
    · exact ⟨_, _, hleads, rfl⟩
    · exact ⟨tree, _, hleads, rfl⟩

/-- **The way that was gone leads to the same place afterwards**, also in a tree with more
directories. -/
theorem follow_of_enter (h : (tree.enter path here names).answer = .ok there)
    (hlater : (tree.enter path here names).state.directories ⊆ later.directories) :
    later.look there = .directory
      ∧ ∀ rest, later.follow here (names ++ rest) = later.follow there rest := by
  induction names generalizing tree here with
  | nil =>
    rcases hlook : tree.look here <;> simp only [enter, hlook, reduceCtorEq] at h hlater
    obtain rfl : here = there := Except.ok.inj h
    exact ⟨look_of_subset hlater hlook, fun _ => rfl⟩
  | cons name names ih =>
    have hdirectories := (state_enter path tree here (name :: names)).1
    obtain ⟨hlook, made, next, hleads, hstep⟩ := enter_cons h
    have hhere : later.look here = .directory :=
      look_of_subset (List.Subset.trans hdirectories hlater) hlook
    rw [hstep] at h hlater
    obtain ⟨hthere, hfollow⟩ := ih h hlater
    refine ⟨hthere, fun rest => ?_⟩
    rw [List.cons_append, follow_of_leads hhere hleads, hfollow]

/-! ## Files -/

/-- A file holds what was put there, if its place is no directory. -/
theorem look_put (h : tree.look place ≠ .directory) (text : String) :
    (tree.put place text).look place = .text text := by
  have hplace : ¬(place.isEmpty || tree.directories.contains place) := by
    rw [ne_eq, look_eq_directory] at h
    simpa using h
  rw [look, put, if_neg hplace, List.lookup_cons_self]
  rfl

/-- What a file is opened as. -/
theorem openIn_eq_ok {name : Option (List Char)} :
    tree.openIn path here name = .ok place ↔
      path.toList.contains '\x00' = false ∧ (Text.normalPath path).utf8ByteSize ≤ pathLimit
        ∧ ∃ last, name = some last ∧ Leads last here place ∧ last ≠ ['.', '.']
          ∧ tree.look place ≠ .directory := by
  unfold openIn
  rw [refuse_eq_ok, refuse_eq_ok, Nat.not_lt, Bool.not_eq_true]
  refine and_congr_right fun _ => and_congr_right fun _ => ?_
  cases name with
  | none => simp
  | some last =>
    simp only [refuse_eq_ok, Except.ok.injEq, Nat.not_lt, Option.some.injEq]
    constructor
    · rintro ⟨hon, hlength, hlook, rfl⟩
      exact ⟨last, rfl, .inr ⟨hon, hlength, rfl⟩, hon, hlook⟩
    · rintro ⟨_, rfl, ⟨hback, -⟩ | ⟨hon, hlength, rfl⟩, hne, hlook⟩
      · exact absurd hback hne
      · exact ⟨hon, hlength, hlook, rfl⟩

/-- A file is opened in the directory in which its path ends. -/
theorem openFile_eq_ok (h : (tree.openFile path).answer = .ok place) :
    ∃ above here, (tree.enter above (tree.start path) (placeOf path).dropLast).answer = .ok here
      ∧ (tree.openFile path).state
        = (tree.enter above (tree.start path) (placeOf path).dropLast).state
      ∧ (tree.openFile path).state.openIn path here (placeOf path).getLast? = .ok place := by
  refine ⟨Text.parentPath path, ?_⟩
  unfold openFile at h ⊢
  dsimp only at h ⊢
  split_ifs at h ⊢
  rcases hentered : (tree.enter (Text.parentPath path) (tree.start path)
    (placeOf path).dropLast).answer with fault | here
  · rw [hentered] at h
    exact nomatch h
  · rw [hentered] at h
    exact ⟨here, rfl, rfl, h⟩

/-- **What is put into a file that was opened is read at its path.** -/
theorem read_put_of_openFile (h : (tree.openFile path).answer = .ok place) (text : String) :
    ((tree.openFile path).state.put place text).read path = .text text := by
  obtain ⟨above, here, hentered, hstate, hopened⟩ := openFile_eq_ok h
  obtain ⟨hnull, hlimit, last, hlast, hleads, -, hfree⟩ := openIn_eq_ok.mp hopened
  have hkept : (tree.enter above (tree.start path) (placeOf path).dropLast).state.directories
      ⊆ ((tree.openFile path).state.put place text).directories :=
    hstate ▸ List.Subset.refl _
  obtain ⟨hhere, hway⟩ := follow_of_enter hentered hkept
  have hplace : placeOf path = (placeOf path).dropLast ++ [last] :=
    (List.dropLast_append_getLast? last hlast).symm
  have hstart : ((tree.openFile path).state.put place text).start path = tree.start path := by
    rw [start, put, hstate, (state_enter ..).2, start]
  rw [read, hnull, if_neg Bool.false_ne_true, if_neg (Nat.not_lt.mpr hlimit), hstart, hplace, hway,
    follow_of_leads hhere hleads]
  exact look_put hfree text

end FileTree

/-! ## Problems -/

/-- **A problem that is written is read back.**  Let a problem in memory be written with labels that
are single lines, one for each version, or without labels.  Its text is read as the problem.  To a
file of any tree it is written exactly if the file can be opened, after the directories above it
have been made, and what is loaded from the file afterwards is the problem. -/
theorem written_readBack [Memory] {p : Problem} (held : p.IsHeld) (given : Option (List String))
    (count : ∀ labels ∈ given, labels.length = p.versions)
    (single : ∀ labels ∈ given, ∀ label ∈ labels, Text.isSingleLine label) :
    (∃ text, p.announced.render (given.map Problem.labelDatum) = .ok text
        ∧ Problem.ofText text = .ok p)
      ∧ ∀ (tree : FileTree) (path : String),
        let saved := saveProblem tree path p.announced (given.map Problem.labelDatum)
        (saved.answer = .ok () ↔ ∃ place, (tree.openFile path).answer = .ok place)
          ∧ (saved.answer = .ok () →
            (loadProblem (m := Id) saved.state.read (some (.text path))).run = .ok p) := by
  obtain ⟨text, hrender, htext, hfile⟩ := Problem.exists_render held given count single
  refine ⟨⟨text, hrender, htext⟩, fun tree path => ?_⟩
  simp only [saveProblem, hrender, FileTree.save]
  rcases hopened : (tree.openFile path).answer with fault | place
  · simp
  · have hread := FileTree.read_put_of_openFile hopened text
    simpa using loadProblem_of_text hread hfile

/-- A tree with one directory. -/
def planTree : FileTree :=
  ⟨[], [[['p', 'l', 'a', 'n', 's']]], []⟩

/-- Labels that look like a comment and like a budget are no trouble, nor is a directory that has to
be made first. -/
theorem written_readBack_sampleProblem :
    sampleProblem.IsHeld
      ∧ (∃ text, sampleProblem.announced.render
            (some (Problem.labelDatum ["# demo", " budget: +1"])) = .ok text
          ∧ Problem.ofText text = .ok sampleProblem)
      ∧ (saveProblem planTree "plans/next/p" sampleProblem.announced
          (some (Problem.labelDatum ["# demo", " budget: +1"]))).answer = .ok ()
      ∧ (loadProblem (m := Id) (saveProblem planTree "plans/next/p" sampleProblem.announced
          (some (Problem.labelDatum ["# demo", " budget: +1"]))).state.read
          (some (.text "plans/next/p"))).run = .ok sampleProblem := by
  have held : sampleProblem.IsHeld :=
    ⟨wellFormed_sampleProblem, ⟨by decide, by decide⟩, ⟨by decide, by decide⟩⟩
  obtain ⟨htext, hfile⟩ := written_readBack held (some ["# demo", " budget: +1"])
    (by rintro _ ⟨⟩; decide) (by rintro _ ⟨⟩; decide)
  obtain ⟨hsaved, hload⟩ := hfile planTree "plans/next/p"
  have hanswer := hsaved.mpr ⟨["plans".toList, "next".toList, "p".toList], by decide +kernel⟩
  exact ⟨held, htext, hanswer, hload hanswer⟩

end MigrationPlan.Command
