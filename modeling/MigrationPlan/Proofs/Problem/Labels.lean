import MigrationPlan.Proofs.Problem.RoundTrip

/-!
# Proofs/Problem/Labels — what labels do to the problem behind them

Labels are written as they are, so a label with line ends in it becomes several lines, and the lines
behind it move down.  The reader goes by position: it reads each version right whose label, and the
labels before it, stay one line to it, as those do that are single lines
(`isOneLine_of_isSingleLine`), and behind the first label that does not, anything may be read.
**`ofText_render_labels`** says both: where the labels are harmless, and that one label can turn the
text into that of any other problem of the same size.
-/

namespace MigrationPlan.Problem

variable {p : Problem} {labels : List String} {data : List VersionData}

/-! ## Written lines, one by one -/

theorem texts_append (ls more : List (List Char)) :
    texts (ls ++ more) = texts ls ++ texts more := by
  simp [texts]

theorem texts_flatMap {α : Type} (f : α → List (List Char)) (xs : List α) :
    texts (xs.flatMap f) = xs.flatMap fun x => texts (f x) := by
  simp [texts, List.filter_flatMap, List.map_flatMap]

/-- What the reader makes of a line that is written. -/
def written (s : String) : List (List Char) :=
  texts (Text.lines Text.memoryRule (unlines [s]))

/-- **Written lines are read one by one**, with what follows them behind them. -/
theorem texts_lines_unlines_append (ls : List String) (more : String) :
    texts (Text.lines Text.memoryRule (unlines ls ++ more))
      = ls.flatMap written ++ texts (Text.lines Text.memoryRule more) := by
  have hline (s : String) :
      texts (Text.linesFrom Text.memoryRule [] (s.toList ++ ['\n'])) = written s := by
    rw [written, Text.lines, toList_unlines]
    simp
  rw [Text.lines, String.toList_append, toList_unlines, Text.linesFrom_flatMap_append, texts_append,
    texts_flatMap, List.flatMap_map]
  simp only [hline]
  rfl

theorem written_of_isPlain (s : String) (h : IsPlain s) : written s = [seen s] := by
  have hplain : ∀ t ∈ [s], IsPlain t := by simpa using h
  rw [written, ← map_text_meaningful, texts_unlines (fun _ h => h) hplain]
  rfl

/-! ## Labels -/

/-- **A label that stays one line to the reader**; further lines in it mean nothing. -/
def IsOneLine (label : String) : Prop :=
  (written (labelLine label)).length = 1

instance (label : String) : Decidable (IsOneLine label) :=
  inferInstanceAs (Decidable (_ = _))

theorem isOneLine_of_isSingleLine {label : String} (h : Text.isSingleLine label) :
    IsOneLine label := by
  rw [IsOneLine, written_of_isPlain _ (isPlain_labelLine h), List.length_singleton]

/-! ## Whole problems -/

/-- A problem that is written, with what follows it. -/
theorem texts_renderLines_append (p : Problem) (labels : List String) (more : String) :
    (meaningful (Text.lines Text.memoryRule (unlines (p.renderLines labels) ++ more))).map (·.text)
      = (p.renderLines labels).flatMap written ++ texts (Text.lines Text.memoryRule more) := by
  rw [map_text_meaningful, texts_lines_unlines_append]

/-- A written problem is read version by version. -/
theorem ofText_renderLines [Memory] (hp : p.WellFormed) (room : p.HasRoom) (labels : List String)
    (hbudget : data.map (·.budget) = p.budget) (hcost : data.map (·.cost) = p.cost)
    (hvalue : data.map (·.value) = p.value) :
    ∃ tail, tail.map (·.text)
        = versionsTexts (labels.map fun label => written (labelLine label)) data
      ∧ ofText (unlines (p.renderLines labels))
        = (readVersions p.functionalities p.versions tail).map fun read =>
          ⟨p.versions, p.functionalities, read.1.map (·.value), read.1.map (·.cost),
            read.1.map (·.budget)⟩ := by
  have hlines := texts_renderLines_append p labels ""
  rw [String.append_empty, flatMap_renderLines written_of_isPlain labels hbudget hcost hvalue]
    at hlines
  exact ofLines_of_announced hp room (hlines.trans (List.append_nil _))

/-- Whatever the labels are, what is read has the size of the problem. -/
theorem size_of_ofText [Memory] {q : Problem} (hp : p.WellFormed) (room : p.HasRoom)
    (h : ofText (unlines (p.renderLines labels)) = .ok q) :
    q.versions = p.versions ∧ q.functionalities = p.functionalities := by
  obtain ⟨data, -, -, hbudget, hcost, hvalue⟩ := hp.exists_data
  obtain ⟨ls, -, hread⟩ := ofText_renderLines hp room labels hbudget hcost hvalue
  rw [h] at hread
  obtain ⟨_, -, rfl⟩ := map_eq_ok.mp hread.symm
  exact ⟨rfl, rfl⟩

/-- **Behind labels of one line, the whole problem is read back**, whatever follows it. -/
theorem ofText_of_oneLine [Memory] (hp : p.WellFormed) (room : p.HasRoom)
    (count : labels.length = p.versions) (one : ∀ label ∈ labels, IsOneLine label) (more : String) :
    ofText (unlines (p.renderLines labels) ++ more) = .ok p :=
  ofLines_of_written written_of_isPlain hp room count one (texts_renderLines_append p labels more)

/-- **A version is read right if its label, and those before it, stay one line.** -/
theorem row_of_ofText [Memory] {q : Problem} {i : Nat} (hp : p.WellFormed) (room : p.HasRoom)
    (count : labels.length = p.versions) (h : ofText (unlines (p.renderLines labels)) = .ok q)
    (hi : i < p.versions) (one : ∀ label ∈ labels.take (i + 1), IsOneLine label) :
    q.budget[i]? = p.budget[i]? ∧ q.cost[i]? = p.cost[i]? ∧ q.value[i]? = p.value[i]? := by
  obtain ⟨data, hlength, hdata, hbudget, hcost, hvalue⟩ := hp.exists_data
  obtain ⟨ls, hls, hread⟩ := ofText_renderLines hp room labels hbudget hcost hvalue
  rw [h] at hread
  have htake : (data.take (i + 1)).length = i + 1 := by
    rw [List.length_take]
    omega
  have hcount : ((labels.take (i + 1)).map fun label => written (labelLine label)).length
      = (data.take (i + 1)).length := by
    rw [List.length_map, List.length_take, List.length_take, count, hlength]
  rw [← List.take_append_drop (i + 1) labels, ← List.take_append_drop (i + 1) data, List.map_append,
    versionsTexts_append hcount] at hls
  obtain ⟨tail, -, hversions⟩ := readVersions_of_written (p.versions - (i + 1)) hcount
    (List.forall_mem_map.mpr one) (fun d hd => hdata d (List.mem_of_mem_take hd)) hls
  rw [htake, Nat.sub_add_cancel hi] at hversions
  rw [hversions] at hread
  obtain ⟨_, hall, rfl⟩ := map_eq_ok.mp hread.symm
  obtain ⟨others, -, rfl⟩ := map_eq_ok.mp hall
  have hrow {α : Type} (f : VersionData → α) :
      ((data.take (i + 1) ++ others.1).map f)[i]? = (data.map f)[i]? := by
    rw [List.getElem?_map, List.getElem?_append_left (by omega),
      List.getElem?_take_of_lt (by omega), List.getElem?_map]
  rw [← hbudget, ← hcost, ← hvalue]
  exact ⟨hrow _, hrow _, hrow _⟩

theorem unlines_cons (s : String) (ss : List String) :
    unlines (s :: ss) = s ++ "\n" ++ unlines ss := by
  simp [unlines, String.join_cons]

/-- The first label stands in the third line. -/
theorem WellFormed.exists_renderLines (hp : p.WellFormed) (labels : List String) :
    ∃ behind : List String, ∀ label, p.renderLines (label :: labels)
      = specificationLine (.whole p.versions) (.whole p.functionalities) :: "=" :: labelLine label
        :: behind := by
  obtain ⟨k, hk⟩ := Nat.exists_eq_add_of_le' hp.one_le_versions
  obtain ⟨budget, budgets, hbudget⟩ :=
    List.exists_cons_of_length_eq_add_one (hp.budget.1.trans hk)
  obtain ⟨cost, costs, hcost⟩ := List.exists_cons_of_length_eq_add_one (hp.cost.1.trans hk)
  obtain ⟨value, values, hvalue⟩ := List.exists_cons_of_length_eq_add_one (hp.value.1.trans hk)
  refine ⟨(" budget: +" ++ toString budget) :: (renderFunctionalities 1 cost value
    ++ renderVersions labels budgets costs values), fun label => ?_⟩
  rw [renderLines, hbudget, hcost, hvalue]
  rfl

/-- **A label can turn a problem into any other of its size**: the lines of the other one, put
behind the first label, are read in place of those that follow it. -/
theorem exists_labels [Memory] {q : Problem} (hp : p.WellFormed) (hq : q.WellFormed)
    (room : q.HasRoom) (hversions : q.versions = p.versions)
    (hfunctionalities : q.functionalities = p.functionalities) :
    ∃ labels : List String, labels.length = p.versions
      ∧ ofText (unlines (p.renderLines labels)) = .ok q := by
  let others := List.replicate (p.versions - 1) ""
  have hcount (label : String) : (label :: others).length = p.versions := by
    have := hp.one_le_versions
    simp only [others, List.length_cons, List.length_replicate]
    omega
  have hone : ∀ label ∈ "" :: others, IsOneLine label := by
    have hempty : IsOneLine "" := by decide
    exact List.forall_mem_cons.mpr ⟨hempty, fun label h => (List.eq_of_mem_replicate h) ▸ hempty⟩
  obtain ⟨behind, hp'⟩ := hp.exists_renderLines others
  obtain ⟨inner, hq'⟩ := hq.exists_renderLines others
  refine ⟨(":\n" ++ unlines inner) :: others, hcount _, ?_⟩
  have hread :
      ofText (unlines (q.renderLines ("" :: others)) ++ (":\n" ++ unlines behind)) = .ok q :=
    ofText_of_oneLine hq room ((hcount "").trans hversions.symm) hone _
  have htext : unlines (p.renderLines ((":\n" ++ unlines inner) :: others))
      = unlines (q.renderLines ("" :: others)) ++ (":\n" ++ unlines behind) := by
    have hcolon : ":\n" = ":" ++ "\n" := rfl
    simp only [hp', hq', hversions, hfunctionalities, unlines_cons, labelLine, hcolon,
      String.append_assoc, String.empty_append]
  rw [htext, hread]

/-- Labels for each version are written as they are. -/
theorem render_labels (count : labels.length = p.versions) :
    p.announced.render (some (labelDatum labels)) = .ok (unlines (p.renderLines labels)) := by
  have hrender := render_announced (p := p) (some labels)
  rw [Option.map_some] at hrender
  rw [hrender, render, Option.getD_some, if_pos count]

/-- **What labels do to the problem behind them.**  If all of them stay one line to the reader, the
problem is read back.  Whatever they are, what is read has the size of the problem, and each version
whose label stays one line, as do those before it, is read right.  Nothing more can be said: with
other labels the text is read as any problem of that size. -/
theorem ofText_render_labels [Memory] (hp : p.WellFormed) (room : p.HasRoom) :
    (∀ labels : List String, labels.length = p.versions →
      ∃ text, p.announced.render (some (labelDatum labels)) = .ok text
        ∧ ((∀ label ∈ labels, IsOneLine label) → ofText text = .ok p)
        ∧ ∀ q, ofText text = .ok q →
          q.versions = p.versions ∧ q.functionalities = p.functionalities
          ∧ ∀ i < p.versions, (∀ label ∈ labels.take (i + 1), IsOneLine label) →
            q.budget[i]? = p.budget[i]? ∧ q.cost[i]? = p.cost[i]? ∧ q.value[i]? = p.value[i]?)
      ∧ ∀ q : Problem, q.WellFormed → q.versions = p.versions →
        q.functionalities = p.functionalities →
        ∃ labels text, p.announced.render (some (labelDatum labels)) = .ok text
          ∧ ofText text = .ok q := by
  refine ⟨fun labels count => ⟨_, render_labels count, fun one => ?_, fun q hq => ?_⟩,
    fun q hq hversions hfunctionalities => ?_⟩
  · have hread := ofText_of_oneLine hp room count one ""
    rwa [String.append_empty] at hread
  · obtain ⟨hversions, hfunctionalities⟩ := size_of_ofText hp room hq
    exact ⟨hversions, hfunctionalities, fun i hi one => row_of_ofText hp room count hq hi one⟩
  · have hroom : q.HasRoom := by
      rw [HasRoom, hversions, hfunctionalities]
      exact room
    obtain ⟨labels, count, hread⟩ := exists_labels hp hq hroom hversions hfunctionalities
    exact ⟨labels, _, render_labels count, hread⟩

/-- A comment behind the first label is no trouble. -/
theorem ofText_render_labels_sampleProblem :
    sampleProblem.WellFormed ∧ sampleProblem.HasRoom
      ∧ ∃ text,
        sampleProblem.announced.render (some (labelDatum ["Demo\n# first", "Payed"])) = .ok text
        ∧ ofText text = .ok sampleProblem := by
  have room : sampleProblem.HasRoom := by unfold HasRoom; decide
  obtain ⟨text, hrender, hread, -⟩ :=
    (ofText_render_labels wellFormed_sampleProblem room).1 ["Demo\n# first", "Payed"] (by decide)
  exact ⟨wellFormed_sampleProblem, room, text, hrender, hread (by decide)⟩

/-- The least problem, with a budget, a cost and a value of its own. -/
def leastProblem : Problem :=
  ⟨1, 1, [[2]], [[1]], [5]⟩

/-- **A label that looks like data is read as data.** -/
theorem exists_ofText_ne_leastProblem :
    leastProblem.WellFormed ∧ ∃ text q, leastProblem.announced.render (some (labelDatum
        ["1:\n budget: +9\n functionality 1:\n  cost: +0\n  bvalue: +7\n"])) = .ok text
      ∧ ofText text = .ok q ∧ q ≠ leastProblem := by
  have hp : leastProblem.WellFormed :=
    ⟨by decide, by decide, by simp [IsMatrix, leastProblem, maxEntry],
      by simp [IsMatrix, leastProblem, maxEntry], by decide⟩
  have hq : WellFormed ⟨1, 1, [[7]], [[0]], [9]⟩ :=
    ⟨by decide, by decide, by simp [IsMatrix, maxEntry], by simp [IsMatrix, maxEntry], by decide⟩
  have htext : unlines (leastProblem.renderLines
        ["1:\n budget: +9\n functionality 1:\n  cost: +0\n  bvalue: +7\n"])
      = unlines (renderLines ⟨1, 1, [[7]], [[0]], [9]⟩ ["1"])
        ++ ":\n budget: +5\n functionality 1:\n  cost: +1\n  bvalue: +2\n" := by decide +kernel
  have hread := ofText_of_oneLine hq (by unfold HasRoom; decide)
    (List.length_singleton (a := "1")) (by decide)
    ":\n budget: +5\n functionality 1:\n  cost: +1\n  bvalue: +2\n"
  exact ⟨hp, _, _, render_labels rfl, htext ▸ hread, by decide⟩

end MigrationPlan.Problem
