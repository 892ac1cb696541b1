import MigrationPlan.Command.Files
import MigrationPlan.Proofs.Numeric.Whole
import MigrationPlan.Proofs.Problem.Grammar
import MigrationPlan.Proofs.Text.Lines

/-!
# Proofs/Problem/RoundTrip — a problem that is written is read back

Every line that `render` writes is one line again, whatever rule cuts the text, and none of them is
taken for a comment: its first character that is no blank is that of a fixed word.  The reader goes
through the lines in the order in which they were written, so the induction is on the rows of the
problem, with the written lines in front of whatever follows them.  It never looks into a label: all
that counts is that the label is one line to it.

* `texts_unlines` — written lines are the meaningful ones;
* `readFunctionalities_of_written`, `readVersions_of_written` — the two loops;
* **`exists_render`** — a problem comes back from its text, with any labels that are single lines.
-/

namespace MigrationPlan.Problem

open Text (Pattern)

/-! ## Lines that stay lines -/

/-- A line that holds something and within which no line ends. -/
def IsPlain (s : String) : Prop :=
  holdsText s.toList ∧ Text.isSingleLine s

instance (s : String) : Decidable (IsPlain s) :=
  inferInstanceAs (Decidable (_ ∧ _))

theorem IsPlain.append {s t : String} (hs : IsPlain s) (ht : Text.isSingleLine t) :
    IsPlain (s ++ t) := by
  refine ⟨?_, Text.isSingleLine_append.mpr ⟨hs.2, ht⟩⟩
  obtain ⟨c, hc, hcomment⟩ := (Option.any_eq_true _ _).mp hs.1
  rw [holdsText, String.toList_append, List.find?_append, hc]
  exact hcomment

theorem IsPlain.append_toString {s : String} (hs : IsPlain s) (n : Nat) :
    IsPlain (s ++ toString n) :=
  hs.append (Text.isSingleLine_toString n)

/-- What the reader sees of a line. -/
def seen (s : String) : List Char :=
  Text.trim s.toList

theorem toList_unlines (ls : List String) :
    (unlines ls).toList = (ls.map String.toList).flatMap fun l => l ++ ['\n'] := by
  simp [unlines, String.toList_join, List.flatMap_map]

/-- **Plain lines are the meaningful lines of the text they make up.** -/
theorem texts_unlines {rule : Text.LineRule} {ls : List String}
    (hrule : ∀ c, rule.ends c → Text.LineRule.ends Text.memoryRule c) (h : ∀ s ∈ ls, IsPlain s) :
    (meaningful (Text.lines rule (unlines ls))).map (·.text)
      = ls.map seen := by
  have hends : ∀ l ∈ ls.map String.toList, ∀ c ∈ l, rule.ends c = false := by
    rintro l hl c hc
    obtain ⟨s, hs, rfl⟩ := List.mem_map.mp hl
    refine Bool.eq_false_iff.mpr fun hend => ?_
    simpa [Text.isSingleLine_iff.mp (h s hs).2 c hc] using hrule c hend
  have hholds : ∀ l ∈ ls.map String.toList, holdsText l := by
    rintro l hl
    obtain ⟨s, hs, rfl⟩ := List.mem_map.mp hl
    exact (h s hs).1
  rw [map_text_meaningful, texts, Text.lines, toList_unlines, Text.linesFrom_flatMap hends,
    List.filter_eq_self.mpr hholds, List.map_map]
  rfl

theorem isPlain_renderFunctionalities (number : Nat) (costs values : List Nat) :
    ∀ s ∈ renderFunctionalities number costs values, IsPlain s := by
  fun_induction renderFunctionalities number costs values with
  | case1 number cost costs value values ih =>
    intro s hs
    rcases List.mem_append.mp hs with hs | hs
    · have hplain : IsPlain " functionality " ∧ IsPlain "  cost: +" ∧ IsPlain "  bvalue: +" := by
        decide
      simp only [renderFunctionality, List.mem_cons, List.not_mem_nil, or_false] at hs
      rcases hs with rfl | rfl | rfl
      · exact (hplain.1.append_toString number).append (by decide)
      · exact hplain.2.1.append_toString cost
      · exact hplain.2.2.append_toString value
    · exact ih s hs
  | case2 => simp

/-- The line of a label. -/
def labelLine (label : String) : String :=
  "Version " ++ label ++ ":"

theorem isPlain_labelLine {label : String} (h : Text.isSingleLine label) :
    IsPlain (labelLine label) := by
  have hplain : IsPlain "Version " := by decide
  exact (hplain.append h).append (by decide)

theorem isPlain_renderVersions {labels : List String} (budgets : List Nat)
    (costs values : List (List Nat))
    (single : ∀ label ∈ labels, Text.isSingleLine label) :
    ∀ s ∈ renderVersions labels budgets costs values, IsPlain s := by
  fun_induction renderVersions labels budgets costs values with
  | case1 label labels budget budgets cost costs value values ih =>
    obtain ⟨hlabel, hlabels⟩ := List.forall_mem_cons.mp single
    intro s hs
    rcases List.mem_append.mp hs with hs | hs
    · have hplain : IsPlain "=" ∧ IsPlain " budget: +" := by decide
      rcases List.mem_append.mp hs with hs | hs
      · simp only [List.mem_cons, List.not_mem_nil, or_false] at hs
        rcases hs with rfl | rfl | rfl
        · exact hplain.1
        · exact isPlain_labelLine hlabel
        · exact hplain.2.append_toString budget
      · exact isPlain_renderFunctionalities 1 cost value s hs
    · exact ih hlabels s hs
  | case2 => simp

theorem isPlain_specificationLine (n m : Nat) :
    IsPlain (specificationLine (.whole n) (.whole m)) := by
  have hplain : IsPlain "Software migration problem specification (" := by decide
  exact (((hplain.append_toString n).append (by decide)).append_toString m).append (by decide)

/-! ## Written lines are read -/

theorem length_toDigits_le {n : Nat} (hn : n ≤ maxEntry) :
    (Nat.toDigits 10 n).length ≤ Text.digitLimit := by
  have hsmall : (Nat.toDigits 10 n).length ≤ 19 :=
    (Nat.length_toDigits_le_iff (by decide) (by decide)).mpr (lt_of_le_of_lt hn (by decide))
  exact hsmall.trans (by decide)

/-- A line of an entry up to its digits. -/
def IsEntryStart (keyword start : String) : Prop :=
  keyword.toList.head?.any (fun c => !Text.isBlank c) ∧ ∃ bs : List Char,
    bs.all Text.isBlank ∧ start.toList = bs ++ (keyword.toList ++ ' ' :: "+".toList)

theorem matches_seen_entry {keyword start : String} (h : IsEntryStart keyword start) (n : Nat) :
    (entryPattern keyword).Matches (seen (start ++ toString n)) [Nat.toDigits 10 n] := by
  obtain ⟨hkeyword, bs, hbs, hstart⟩ := h
  have hline : (start ++ toString n).toList
      = bs ++ (keyword.toList ++ ((' ' :: "+".toList) ++ Nat.toDigits 10 n)) := by
    rw [String.toList_append, hstart, List.append_assoc, List.append_assoc]
    exact congrArg _ (congrArg _ (congrArg _ Nat.toList_repr))
  have hnumber : Pattern.Matches [.number] (Nat.toDigits 10 n) [Nat.toDigits 10 n] := by
    simpa using Pattern.Matches.decimal n .nil
  rw [seen, hline, Text.trim_append (List.all_eq_true.mp hbs),
    Text.trim_eq_self hkeyword (Text.getLast?_toDigits n), List.cons_append]
  exact .word (.blank (.word hnumber))

theorem matches_seen_specificationLine (n m : Nat) :
    specificationPattern.Matches (seen (specificationLine (.whole n) (.whole m)))
      [Nat.toDigits 10 n, Nat.toDigits 10 m] := by
  have hparts (a b c : String) :
      (a ++ (Number.whole n).text ++ b ++ (Number.whole m).text ++ c).toList
        = a.toList ++ (Nat.toDigits 10 n ++ (b.toList ++ Nat.toDigits 10 m) ++ c.toList) := by
    have hsize (k : Nat) : (Number.whole k).text.toList = Nat.toDigits 10 k :=
      (Nat.toList_repr : (Nat.repr k).toList = _)
    simp [hsize]
  have hline : (specificationLine (.whole n) (.whole m)).toList
      = ("Software".toList ++ ' ' :: ("migration".toList ++ ' ' :: ("problem".toList ++ ' ' ::
          ("specification".toList ++ ' ' :: "(".toList))))
        ++ (Nat.toDigits 10 n ++ (' ' :: ("versions".toList ++ (",".toList ++ [' ']))
          ++ Nat.toDigits 10 m) ++ (' ' :: ("functionalities".toList ++ (")".toList ++ [])))) :=
    hparts _ _ _
  rw [seen, hline, Text.trim_eq_self (by decide) (by decide)]
  simp only [List.append_assoc, List.cons_append, List.nil_append]
  exact .word (.oneBlank (.word (.oneBlank (.word (.oneBlank (.word (.blank (.word (.noBlank
    (.decimal n (.oneBlank (.word (.noBlank (.word (.blank (.decimal m (.oneBlank (.word (.noBlank
    (.word .nil))))))))))))))))))))

variable {ls : List Line} {c : LineClass} {rest : List (List Char)}

theorem nextLine_of_written {t : List Char} (h : ls.map (·.text) = t :: rest) :
    ∃ line tail, nextLine c ls = .ok (line, tail) ∧ tail.map (·.text) = rest := by
  obtain ⟨line, tail, rfl, -, htail⟩ := List.map_eq_cons_iff.mp h
  exact ⟨line, tail, rfl, htail⟩

theorem nextEntry_of_written {keyword start : String} {n : Nat}
    (hstart : IsEntryStart keyword start) (hn : n ≤ maxEntry)
    (h : ls.map (·.text) = seen (start ++ toString n) :: rest) :
    ∃ tail, nextEntry c keyword ls = .ok (n, tail) ∧ tail.map (·.text) = rest := by
  obtain ⟨line, tail, rfl, htext, htail⟩ := List.map_eq_cons_iff.mp h
  refine ⟨tail, nextEntry_eq_ok.mpr ⟨line, rfl, _, ?_, length_toDigits_le hn,
    Text.digitsValue_toDigits n, hn⟩, htail⟩
  rw [htext]
  exact matches_seen_entry hstart n

theorem isEntryStart_budget : IsEntryStart "budget:" " budget: +" :=
  ⟨by decide, [' '], by decide, by decide⟩

theorem isEntryStart_cost : IsEntryStart "cost:" "  cost: +" :=
  ⟨by decide, [' ', ' '], by decide, by decide⟩

theorem isEntryStart_value : IsEntryStart "bvalue:" "  bvalue: +" :=
  ⟨by decide, [' ', ' '], by decide, by decide⟩

/-! ## The two loops -/

/-- **The functionalities of a version are read back**, and the reader stops behind them. -/
theorem readFunctionalities_of_written {costs values : List Nat} (number : Nat)
    (hlength : values.length = costs.length) (hcosts : ∀ x ∈ costs, x ≤ maxEntry)
    (hvalues : ∀ x ∈ values, x ≤ maxEntry)
    (h : ls.map (·.text) = (renderFunctionalities number costs values).map seen ++ rest) :
    ∃ tail, readFunctionalities costs.length ls = .ok (costs.zip values, tail)
      ∧ tail.map (·.text) = rest := by
  induction costs generalizing number values ls with
  | nil => exact ⟨ls, rfl, by simpa [renderFunctionalities] using h⟩
  | cons cost costs ih =>
    obtain ⟨value, values, rfl⟩ := List.exists_cons_of_length_eq_add_one hlength
    obtain ⟨hcost, hcosts⟩ := List.forall_mem_cons.mp hcosts
    obtain ⟨hvalue, hvalues⟩ := List.forall_mem_cons.mp hvalues
    obtain ⟨_, ls₁, hlabel, h₁⟩ := nextLine_of_written (c := .label) h
    obtain ⟨ls₂, hread, h₂⟩ := nextEntry_of_written (c := .cost) isEntryStart_cost hcost h₁
    obtain ⟨ls₃, hread', h₃⟩ :=
      nextEntry_of_written (c := .businessValue) isEntryStart_value hvalue h₂
    obtain ⟨tail, hothers, htail⟩ :=
      ih (number + 1) (Nat.succ.inj hlength) hcosts hvalues h₃
    refine ⟨tail, ?_, htail⟩
    simp only [List.length_cons, readFunctionalities, hlabel, hread, hread', hothers, ok_bind,
      List.zip_cons_cons]

/-- A version within the limits of a problem. -/
structure VersionData.IsAdmissible (m : Nat) (d : VersionData) : Prop where
  budget : d.budget ≤ maxEntry
  cost : d.cost.length = m ∧ ∀ x ∈ d.cost, x ≤ maxEntry
  value : d.value.length = m ∧ ∀ x ∈ d.value, x ≤ maxEntry

/-- What the reader sees of a version, with what it sees of the label. -/
def versionTexts (label : List (List Char)) (d : VersionData) : List (List Char) :=
  seen "=" :: (label ++ seen (" budget: +" ++ toString d.budget)
    :: (renderFunctionalities 1 d.cost d.value).map seen)

/-- What the reader sees of all versions. -/
def versionsTexts (labels : List (List (List Char))) (data : List VersionData) :
    List (List Char) :=
  (List.zipWith versionTexts labels data).flatten

theorem versionsTexts_append {labels labels' : List (List (List Char))}
    {data data' : List VersionData} (h : labels.length = data.length) :
    versionsTexts (labels ++ labels') (data ++ data')
      = versionsTexts labels data ++ versionsTexts labels' data' := by
  rw [versionsTexts, List.zipWith_append h, List.flatten_append]
  rfl

/-- **A version is read back** if its label is one line, and then the others. -/
theorem readVersions_succ_of_written {m : Nat} {label : List (List Char)} {d : VersionData}
    (count : Nat) (one : label.length = 1) (hd : d.IsAdmissible m)
    (h : ls.map (·.text) = versionTexts label d ++ rest) :
    ∃ tail, tail.map (·.text) = rest
      ∧ readVersions m (count + 1) ls = (readVersions m count tail).map
        fun read => (d :: read.1, read.2) := by
  obtain ⟨_, rfl⟩ := List.length_eq_one_iff.mp one
  obtain ⟨_, ls₁, hseparator, h₁⟩ := nextLine_of_written (c := .separator) h
  obtain ⟨_, ls₂, hlabel, h₂⟩ := nextLine_of_written (c := .label) h₁
  obtain ⟨ls₃, hread, h₃⟩ := nextEntry_of_written (c := .budget) isEntryStart_budget hd.budget h₂
  obtain ⟨tail, hentries, htail⟩ := readFunctionalities_of_written 1
    (hd.value.1.trans hd.cost.1.symm) hd.cost.2 hd.value.2 h₃
  rw [hd.cost.1] at hentries
  have hfst : (d.cost.zip d.value).map (·.1) = d.cost :=
    List.map_fst_zip (hd.cost.1.trans hd.value.1.symm).le
  have hsnd : (d.cost.zip d.value).map (·.2) = d.value :=
    List.map_snd_zip (hd.value.1.trans hd.cost.1.symm).le
  refine ⟨tail, htail, ?_⟩
  simp only [readVersions, hseparator, hlabel, hread, hentries, ok_bind, hfst, hsnd]
  cases readVersions m count tail <;> rfl

/-- **Versions behind labels of one line are read back**, and then the others. -/
theorem readVersions_of_written {m : Nat} {labels : List (List (List Char))}
    {data : List VersionData} (count : Nat) (hlength : labels.length = data.length)
    (one : ∀ label ∈ labels, label.length = 1) (hdata : ∀ d ∈ data, d.IsAdmissible m)
    (h : ls.map (·.text) = versionsTexts labels data ++ rest) :
    ∃ tail, tail.map (·.text) = rest
      ∧ readVersions m (count + data.length) ls = (readVersions m count tail).map
        fun read => (data ++ read.1, read.2) := by
  induction data generalizing labels ls with
  | nil =>
    obtain rfl := List.length_eq_zero_iff.mp hlength
    refine ⟨ls, h, ?_⟩
    rw [List.length_nil, Nat.add_zero]
    cases readVersions m count ls <;> rfl
  | cons d data ih =>
    obtain ⟨label, labels, rfl⟩ := List.exists_cons_of_length_eq_add_one hlength
    obtain ⟨hone, one⟩ := List.forall_mem_cons.mp one
    obtain ⟨hd, hdata⟩ := List.forall_mem_cons.mp hdata
    obtain ⟨ls₁, h₁, hstep⟩ := readVersions_succ_of_written (count + data.length) hone hd
      (h.trans (List.append_assoc ..))
    obtain ⟨tail, htail, hothers⟩ := ih (Nat.succ.inj hlength) one hdata h₁
    refine ⟨tail, htail, ?_⟩
    rw [List.length_cons, ← Nat.add_assoc, hstep, hothers]
    cases readVersions m count tail <;> rfl

/-! ## Whole problems -/

variable {p : Problem} {labels : List String}

/-- The first line is read back. -/
theorem readSpecification_of_written {n m : Nat} (hn : 1 ≤ n) (hm : 1 ≤ m) (hn' : n ≤ maxEntry)
    (hm' : m ≤ maxEntry)
    (h : ls.map (·.text) = seen (specificationLine (.whole n) (.whole m)) :: rest) :
    ∃ tail, readSpecification ls = .ok (n, m, tail) ∧ tail.map (·.text) = rest := by
  obtain ⟨line, tail, rfl, htext, htail⟩ := List.map_eq_cons_iff.mp h
  refine ⟨tail, readSpecification_eq_ok.mpr ⟨line, rfl, _, _, ?_,
    ⟨length_toDigits_le hn', Text.digitsValue_toDigits n⟩,
    ⟨length_toDigits_le hm', Text.digitsValue_toDigits m⟩, hn, hm⟩, htail⟩
  rw [htext]
  exact matches_seen_specificationLine n m

/-- Behind the first line, a problem is read version by version. -/
theorem ofLines_of_announced [Memory] {lines : List (List Char)} (hp : p.WellFormed)
    (room : p.HasRoom) (h : (meaningful lines).map (·.text)
      = seen (specificationLine (.whole p.versions) (.whole p.functionalities)) :: rest) :
    ∃ tail, tail.map (·.text) = rest
      ∧ ofLines lines = (readVersions p.functionalities p.versions tail).map fun read =>
        ⟨p.versions, p.functionalities, read.1.map (·.value), read.1.map (·.cost),
          read.1.map (·.budget)⟩ := by
  obtain ⟨tail, hsize, htail⟩ := readSpecification_of_written hp.one_le_versions
    hp.one_le_functionalities room.sides_le.1 room.sides_le.2 h
  have hroom : checkSize p.versions p.functionalities = .ok () := room
  refine ⟨tail, htail, ?_⟩
  simp only [ofLines, hsize, hroom, ok_bind]
  cases readVersions p.functionalities p.versions tail <;> rfl

/-- The versions of a well-formed problem. -/
theorem WellFormed.exists_data (hp : p.WellFormed) :
    ∃ data : List VersionData, data.length = p.versions
      ∧ (∀ d ∈ data, d.IsAdmissible p.functionalities) ∧ data.map (·.budget) = p.budget
      ∧ data.map (·.cost) = p.cost ∧ data.map (·.value) = p.value := by
  obtain ⟨data, hvalue, hcost, hbudget⟩ := exists_versionData hp.budget.1 hp.cost.1 hp.value.1
  refine ⟨data, ?_, fun d hd => ⟨?_, ?_, ?_⟩, hbudget, hcost, hvalue⟩
  · rw [← hp.budget.1, ← hbudget, List.length_map]
  · exact hp.budget.2 _ (hbudget ▸ List.mem_map_of_mem hd)
  · exact hp.cost.2 _ (hcost ▸ List.mem_map_of_mem hd)
  · exact hp.value.2 _ (hvalue ▸ List.mem_map_of_mem hd)

section

/- A way to read lines one by one, with what is seen of a plain line. -/
variable {f : String → List (List Char)} (hf : ∀ s, IsPlain s → f s = [seen s])
include hf

theorem flatMap_of_isPlain {ss : List String} (h : ∀ s ∈ ss, IsPlain s) :
    ss.flatMap f = ss.map seen := by
  rw [List.flatMap_congr fun s hs => hf s (h s hs), List.map_eq_flatMap]

theorem flatMap_renderVersion (label : String) (d : VersionData) :
    (renderVersion label d.budget d.cost d.value).flatMap f
      = versionTexts (f (labelLine label)) d := by
  have hseparator : IsPlain "=" := by decide
  have hbudget : IsPlain " budget: +" := by decide
  have hentries := flatMap_of_isPlain hf (isPlain_renderFunctionalities 1 d.cost d.value)
  simp only [renderVersion, List.cons_append, List.nil_append, List.flatMap_cons, hentries,
    hf _ hseparator, hf _ (hbudget.append_toString d.budget)]
  rfl

theorem flatMap_renderVersions (labels : List String) (data : List VersionData) :
    (renderVersions labels (data.map (·.budget)) (data.map (·.cost)) (data.map (·.value))).flatMap f
      = versionsTexts (labels.map fun label => f (labelLine label)) data := by
  induction labels generalizing data with
  | nil => rfl
  | cons label labels ih =>
    cases data with
    | nil => rfl
    | cons d data =>
      simp only [List.map_cons, renderVersions, List.flatMap_append, ih,
        flatMap_renderVersion hf, versionsTexts, List.zipWith_cons_cons, List.flatten_cons]

/-- The lines of a problem, version by version. -/
theorem flatMap_renderLines {data : List VersionData} (labels : List String)
    (hbudget : data.map (·.budget) = p.budget) (hcost : data.map (·.cost) = p.cost)
    (hvalue : data.map (·.value) = p.value) :
    (p.renderLines labels).flatMap f
      = seen (specificationLine (.whole p.versions) (.whole p.functionalities))
        :: versionsTexts (labels.map fun label => f (labelLine label)) data := by
  rw [renderLines, List.flatMap_cons, hf _ (isPlain_specificationLine ..), ← hbudget, ← hcost,
    ← hvalue, flatMap_renderVersions hf]
  rfl

/-- **A problem is read back from its lines** if its labels are one line each, whatever follows. -/
theorem ofLines_of_written [Memory] {lines : List (List Char)} (hp : p.WellFormed)
    (room : p.HasRoom) (count : labels.length = p.versions)
    (one : ∀ label ∈ labels, (f (labelLine label)).length = 1)
    (h : (meaningful lines).map (·.text) = (p.renderLines labels).flatMap f ++ rest) :
    ofLines lines = .ok p := by
  obtain ⟨data, hlength, hdata, hbudget, hcost, hvalue⟩ := hp.exists_data
  rw [flatMap_renderLines hf labels hbudget hcost hvalue] at h
  obtain ⟨ls, hls, hread⟩ := ofLines_of_announced hp room h
  have hcount : (labels.map fun label => f (labelLine label)).length = data.length := by
    rw [List.length_map, count, hlength]
  obtain ⟨tail, -, hversions⟩ :=
    readVersions_of_written 0 hcount (List.forall_mem_map.mpr one) hdata hls
  rw [Nat.zero_add, hlength] at hversions
  rw [hread, hversions]
  simp only [readVersions, ok_map, List.append_nil, hbudget, hcost, hvalue]

end

theorem isPlain_renderLines
    (single : ∀ label ∈ labels, Text.isSingleLine label) :
    ∀ s ∈ p.renderLines labels, IsPlain s :=
  List.forall_mem_cons.mpr
    ⟨isPlain_specificationLine .., isPlain_renderVersions p.budget p.cost p.value single⟩

/-! ## Labels -/

theorem isSingleLine_defaultLabels : ∀ label ∈ p.defaultLabels, Text.isSingleLine label := by
  intro label hlabel
  obtain ⟨i, -, rfl⟩ := List.mem_map.mp hlabel
  exact Text.isSingleLine_toString (i + 1)

/-- Labels as they are handed over. -/
def labelDatum (labels : List String) : Datum :=
  .node (labels.map Datum.text)

/-- Sizes announced as whole numbers are shown as what they are. -/
theorem render_announced (given : Option (List String)) :
    p.announced.render (given.map labelDatum) = p.render given := by
  have hcount (n : Nat) : (Datum.number (.whole n)).count? = .ok (n : Int) := rfl
  have hsides (k n : Nat) : hasSides [k] [.whole n] = decide (k = n) := by
    have heq : k ≤ n ∧ n ≤ k ↔ k = n := Nat.le_antisymm_iff.symm
    simp [hasSides, ← Bool.decide_and, heq]
  have hchosen (labels : List String) :
      (if !hasSides [labels.length] [.whole p.versions] then
          (.error (.labelCount (.whole p.versions) labels.length) : Except Fault String)
        else .ok (unlines (p.renderLines labels)))
        = if labels.length = p.versions then .ok (unlines (p.renderLines labels))
          else .error (.labelCount (.whole p.versions) labels.length) := by
    rw [hsides]
    by_cases h : labels.length = p.versions <;> simp [h]
  rcases given with _ | labels
  · simp only [AnnouncedProblem.render, announced, Option.map_none, hcount, ok_bind, error_bind]
    exact hchosen p.defaultLabels
  · have hdisplay : (labels.map Datum.text).map Datum.display = labels := by
      rw [List.map_map]
      exact List.map_id labels
    simp only [AnnouncedProblem.render, announced, Option.map_some, labelDatum, Datum.items?,
      hdisplay, hcount, ok_bind, error_bind]
    exact hchosen labels

/-- **A problem comes back from the text that is written for it**, whether this is read as text in
memory or as the text of a file. -/
theorem exists_render [Memory] (held : p.IsHeld) (given : Option (List String))
    (count : ∀ labels ∈ given, labels.length = p.versions)
    (single : ∀ labels ∈ given, ∀ label ∈ labels, Text.isSingleLine label) :
    ∃ text, p.announced.render (given.map labelDatum) = .ok text ∧ ofText text = .ok p
      ∧ ofFileText text = .ok p := by
  obtain ⟨valid, room⟩ := isHeld_iff.mp held
  have hcount : (given.getD p.defaultLabels).length = p.versions := by
    rcases given with _ | labels
    · simp [defaultLabels]
    · exact count labels rfl
  have hsingle : ∀ label ∈ given.getD p.defaultLabels, Text.isSingleLine label := by
    rcases given with _ | labels
    · exact isSingleLine_defaultLabels
    · exact single labels rfl
  have hread {rule : Text.LineRule}
      (hrule : ∀ c, rule.ends c → Text.LineRule.ends Text.memoryRule c) :
      ofLines (Text.lines rule (unlines (p.renderLines (given.getD p.defaultLabels)))) = .ok p := by
    have hlines := (texts_unlines hrule (isPlain_renderLines (p := p) hsingle)).trans
      List.map_eq_flatMap
    exact ofLines_of_written (fun _ _ => rfl) valid room hcount (fun _ _ => rfl)
      (hlines.trans (List.append_nil _).symm)
  refine ⟨unlines (p.renderLines (given.getD p.defaultLabels)), ?_, hread fun _ h => h,
    hread fun _ => Text.ends_memoryRule_of_fileRule⟩
  rw [render_announced, render, if_pos hcount]

end MigrationPlan.Problem
