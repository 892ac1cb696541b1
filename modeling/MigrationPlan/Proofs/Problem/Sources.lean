import MigrationPlan.Proofs.Command.Files

/-!
# Proofs/Problem/Sources — one text, in memory and in a file

In memory a form feed, and every other separator, ends a line; in a file it does not.  So a text is
read from memory as a file would be in which each separator is a line feed, and the two sources
agree on every text without separators.  They also agree, up to the numbers of lines, wherever both
ways of cutting leave the same texts (`ofLines_agrees`): the reader looks at nothing else.  A
separator within a comment, however, makes a line of what follows it, which the file does not have
(**`ofText_agrees_loadProblem`**, `ofText_ne_loadProblem_formFeed`).
-/

namespace MigrationPlan

/-- A fault without the number of its line. -/
def Fault.withoutNumber : Fault → Fault
  | .format ⟨c, number, detail⟩ => .format ⟨c, number.map fun _ => 0, detail⟩
  | fault => fault

/-- **Outcomes that agree up to the numbers of lines**: related results, or one fault. -/
def Agrees {α β : Type} (R : α → β → Prop) : Except Fault α → Except Fault β → Prop
  | .ok a, .ok b => R a b
  | .error fault, .error fault' => fault.withoutNumber = fault'.withoutNumber
  | _, _ => False

theorem Agrees.bind {α β γ δ : Type} {R : α → β → Prop} {S : γ → δ → Prop} {x : Except Fault α}
    {y : Except Fault β} {f : α → Except Fault γ} {g : β → Except Fault δ} (h : Agrees R x y)
    (hfg : ∀ a b, R a b → Agrees S (f a) (g b)) : Agrees S (x >>= f) (y >>= g) := by
  rcases x with fault | a <;> rcases y with fault' | b
  · exact h
  · exact h.elim
  · exact h.elim
  · exact hfg a b h

theorem Agrees.refl {α : Type} (x : Except Fault α) : Agrees (· = ·) x x := by
  cases x <;> exact rfl

namespace Problem

variable {c : LineClass} {ls ls' : List Line} {m : Nat}

/-- Lines that say the same. -/
def SaysSame (ls ls' : List Line) : Prop :=
  ls.map (·.text) = ls'.map (·.text)

/-- A result, and lines behind it that say the same. -/
def ReadSame {α : Type} (a b : α × List Line) : Prop :=
  a.1 = b.1 ∧ SaysSame a.2 b.2

theorem nextLine_agrees (h : SaysSame ls ls') :
    Agrees (fun a b => a.1.text = b.1.text ∧ SaysSame a.2 b.2) (nextLine c ls)
      (nextLine c ls') := by
  rcases ls with _ | ⟨l, ls⟩ <;> rcases ls' with _ | ⟨l', ls'⟩
  · exact rfl
  · exact nomatch h
  · exact nomatch h
  · exact List.cons.inj h

theorem nextMatch_agrees (p : Text.Pattern) (h : SaysSame ls ls') :
    Agrees (fun a b => ReadSame a.2 b.2) (nextMatch c p ls) (nextMatch c p ls') := by
  refine (nextLine_agrees h).bind fun a b hab => ?_
  obtain ⟨l, rest⟩ := a
  obtain ⟨l', rest'⟩ := b
  obtain ⟨htext, hrest⟩ := hab
  simp only at htext hrest
  simp only [htext]
  rcases p.match? l'.text with _ | ns
  · exact rfl
  · exact ⟨rfl, hrest⟩

theorem nextEntry_agrees (keyword : String) (h : SaysSame ls ls') :
    Agrees ReadSame (nextEntry c keyword ls) (nextEntry c keyword ls') := by
  refine (nextMatch_agrees _ h).bind fun a b hab => ?_
  obtain ⟨_, ns, rest⟩ := a
  obtain ⟨_, ns', rest'⟩ := b
  obtain ⟨rfl, hrest⟩ : ns = ns' ∧ SaysSame rest rest' := hab
  refine (Agrees.refl _).bind fun n n' hn => ?_
  obtain rfl : n = n' := hn
  by_cases hlarge : maxEntry < n
  · simp only [if_pos hlarge]
    exact rfl
  · simp only [if_neg hlarge]
    exact ⟨rfl, hrest⟩

theorem readFunctionalities_agrees (count : Nat) (h : SaysSame ls ls') :
    Agrees ReadSame (readFunctionalities count ls) (readFunctionalities count ls') := by
  induction count generalizing ls ls' with
  | zero => exact ⟨rfl, h⟩
  | succ count ih =>
    refine (nextLine_agrees h).bind fun _ _ hlabel => ?_
    refine (nextEntry_agrees "cost:" hlabel.2).bind fun _ _ hcost => ?_
    refine (nextEntry_agrees "bvalue:" hcost.2).bind fun _ _ hvalue => ?_
    refine (ih hvalue.2).bind fun _ _ hothers => ?_
    exact ⟨by rw [hcost.1, hvalue.1, hothers.1], hothers.2⟩

theorem readVersions_agrees (count : Nat) (h : SaysSame ls ls') :
    Agrees ReadSame (readVersions m count ls) (readVersions m count ls') := by
  induction count generalizing ls ls' with
  | zero => exact ⟨rfl, h⟩
  | succ count ih =>
    refine (nextLine_agrees h).bind fun _ _ hseparator => ?_
    refine (nextLine_agrees hseparator.2).bind fun _ _ hlabel => ?_
    refine (nextEntry_agrees "budget:" hlabel.2).bind fun _ _ hbudget => ?_
    refine (readFunctionalities_agrees m hbudget.2).bind fun _ _ hentries => ?_
    refine (ih hentries.2).bind fun _ _ hothers => ?_
    exact ⟨by rw [hbudget.1, hentries.1, hothers.1], hothers.2⟩

theorem readSpecification_agrees (h : SaysSame ls ls') :
    Agrees (fun a b => a.1 = b.1 ∧ ReadSame a.2 b.2) (readSpecification ls)
      (readSpecification ls') := by
  refine (nextMatch_agrees _ h).bind fun a b hab => ?_
  obtain ⟨_, ns, rest⟩ := a
  obtain ⟨_, ns', rest'⟩ := b
  obtain ⟨rfl, hrest⟩ : ns = ns' ∧ SaysSame rest rest' := hab
  refine (Agrees.refl _).bind fun n n' hn => (Agrees.refl _).bind fun k k' hk => ?_
  obtain rfl : n = n' := hn
  obtain rfl : k = k' := hk
  by_cases hsmall : (n < 1 || k < 1) = true
  · simp only [if_pos hsmall]
    exact rfl
  · simp only [if_neg hsmall]
    exact ⟨rfl, rfl, hrest⟩

/-- **What is read depends on the texts of the meaningful lines**, and only the numbers of lines in
messages on more. -/
theorem ofLines_agrees [Memory] {lines lines' : List (List Char)} (h : texts lines = texts lines') :
    Agrees (· = ·) (ofLines lines) (ofLines lines') := by
  have hsame : SaysSame (meaningful lines) (meaningful lines') := by
    rw [SaysSame, map_text_meaningful, map_text_meaningful, h]
  refine (readSpecification_agrees hsame).bind fun a b hab => ?_
  obtain ⟨n, k, rest⟩ := a
  obtain ⟨n', k', rest'⟩ := b
  obtain ⟨rfl, rfl, hrest⟩ : n = n' ∧ k = k' ∧ SaysSame rest rest' := hab
  refine (Agrees.refl _).bind fun _ _ _ => (readVersions_agrees n hrest).bind fun data _ hdata => ?_
  change (⟨n, k, data.1.map (·.value), data.1.map (·.cost), data.1.map (·.budget)⟩ : Problem) = _
  rw [hdata.1]

/-! ## The two sources -/

/-- A text in which a line feed stands for each line end of texts in memory. -/
def normalized (s : String) : String :=
  String.ofList (Text.withLineFeeds Text.memoryRule s.toList)

/-- In memory a text is read as a file would be that holds it with line feeds. -/
theorem ofFileText_normalized [Memory] (s : String) : ofFileText (normalized s) = ofText s := by
  rw [ofFileText, Text.lines, normalized, String.toList_ofList, Text.linesFrom_withLineFeeds]
  rfl

/-- Without separators, both sources have the same lines. -/
theorem ofFileText_of_noSeparators [Memory] {s : String}
    (h : ∀ c ∈ s.toList, Text.memoryRule c = false) : ofFileText s = ofText s := by
  have hends : ∀ c ∈ s.toList, Text.LineRule.ends Text.fileRule c
      = Text.LineRule.ends Text.memoryRule c := fun c hc => by
    rw [Text.LineRule.ends, Text.LineRule.ends, h c hc]
    rfl
  rw [ofFileText, ofText, Text.lines, Text.lines, Text.linesFrom_congr hends]

/-- **One text, in memory and in a file.**  In memory it is read as from a file that holds it with a
line feed for each line end.  So the two sources have the same outcome if there are no separators in
it.  If there are, but both ways of cutting it leave the same texts, the outcomes still agree up to
the numbers of lines. -/
theorem ofText_agrees_loadProblem [Memory] (s : String) (read : Command.FileReader Id)
    (path : String) :
    (read path = .text (normalized s) →
        (Command.loadProblem read (some (.text path))).run = ofText s)
      ∧ (read path = .text s → (∀ c ∈ s.toList, Text.memoryRule c = false) →
        (Command.loadProblem read (some (.text path))).run = ofText s)
      ∧ (read path = .text s →
        texts (Text.lines Text.memoryRule s) = texts (Text.lines Text.fileRule s) →
        Agrees (· = ·) (ofText s) (Command.loadProblem read (some (.text path))).run) := by
  refine ⟨fun hread => ?_, fun hread h => ?_, fun hread h => ?_⟩
  · exact Command.loadProblem_of_text hread (ofFileText_normalized s)
  · exact Command.loadProblem_of_text hread (ofFileText_of_noSeparators h)
  · rw [Command.loadProblem_of_text hread rfl]
    exact ofLines_agrees h

/-- A file by itself. -/
def singleFile (text : String) : Command.FileReader Id :=
  Command.FileTree.read ⟨[([['p']], text)], [], []⟩

theorem singleFile_path (text : String) : singleFile text "p" = .text text := rfl

/-- Carriage returns are no trouble, nor is a separator at the end of a comment. -/
theorem ofText_agrees_loadProblem_singleFile :
    (∀ c ∈ "# a\r\nSoftware".toList, Text.memoryRule c = false)
      ∧ (Command.loadProblem (singleFile "# a\r\nSoftware") (some (.text "p"))).run
        = ofText "# a\r\nSoftware"
      ∧ Agrees (· = ·) (ofText "# a\x0c\r\nSoftware")
        (Command.loadProblem (singleFile "# a\x0c\r\nSoftware") (some (.text "p"))).run := by
  have hplain : ∀ c ∈ "# a\r\nSoftware".toList, Text.memoryRule c = false := by
    simp [Text.memoryRule]
  have hsame : texts (Text.lines Text.memoryRule "# a\x0c\r\nSoftware")
      = texts (Text.lines Text.fileRule "# a\x0c\r\nSoftware") := by decide +kernel
  have hcarriage := ofText_agrees_loadProblem "# a\r\nSoftware" (singleFile "# a\r\nSoftware") "p"
  have hcomment :=
    ofText_agrees_loadProblem "# a\x0c\r\nSoftware" (singleFile "# a\x0c\r\nSoftware") "p"
  exact ⟨hplain, hcarriage.2.1 (singleFile_path _) hplain, hcomment.2.2 (singleFile_path _) hsame⟩

/-- **A separator within a comment makes a line of what follows it**, but only in memory. -/
theorem ofText_ne_loadProblem_formFeed :
    ∃ text : String, ofText text = .error (.format ⟨.specification, some 2, "'b'"⟩)
      ∧ (Command.loadProblem (singleFile text) (some (.text "p"))).run
        = .ok ⟨1, 1, [[1]], [[1]], [1]⟩ := by
  refine ⟨"# a\x0cb\nSoftware migration problem specification (1 versions, 1 functionalities)\n=\n"
    ++ "Version 1:\n budget: +1\n f:\n cost: +1\n bvalue: +1\n", by decide +kernel, ?_⟩
  exact Command.loadProblem_of_text (singleFile_path _) (by decide +kernel)

end Problem

end MigrationPlan
