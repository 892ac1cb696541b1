import MigrationPlan.Proofs.Problem.Grammar

/-!
# Proofs/Problem/Positions — the reader asks for lines by their position

What class of line the reader asks for depends on the position alone (`classAt`).  So its two nested
loops are one walk along a list of classes, that of the specification in front:

* `takeLine_eq_ok`, `takeLine_eq_format` — what one step does with a line, whatever comes behind it;
* **`walk_eq_error_iff`** — a walk fails at the first position whose line does not pass, with the
  fault of that line;
* `readVersions_eq_walk` — the loops are a walk;
* `getElem?_lineClasses` — and the classes on its way are those of the positions.
-/

namespace MigrationPlan

open Problem (Announces IsEntry specificationPattern entryPattern)

/-! ## What a class asks for -/

namespace LineClass

/-- The keyword of an entry; other lines have none. -/
def keyword? : LineClass → Option String
  | budget => some "budget:"
  | cost => some "cost:"
  | businessValue => some "bvalue:"
  | _ => none

/-- **A text fits a class**: it announces the size of a problem, or it is the entry that its class
asks for.  Separators and labels can be any text. -/
def Fits : LineClass → List Char → Prop
  | specification, text => ∃ n m, Announces n m text
  | c, text => ∀ keyword ∈ c.keyword?, ∃ n, IsEntry keyword n text

/-- **A text has too many digits for its class**: it has the form that its class asks for, and a
number of more digits than are read. -/
def IsOverlong : LineClass → List Char → Prop
  | specification, text => ∃ ds es, specificationPattern.Matches text [ds, es]
    ∧ (Text.digitLimit < ds.length ∨ Text.digitLimit < es.length)
  | c, text => ∃ keyword ∈ c.keyword?, ∃ ds, (entryPattern keyword).Matches text [ds]
    ∧ Text.digitLimit < ds.length

end LineClass

namespace Problem

open Text (Pattern)

variable {c : LineClass} {cs : List LineClass} {line : Line} {ls rest : List Line} {fault : Fault}

/-! ## Single steps -/

/-- Takes the next line by its class, and forgets what it says. -/
def takeLine : LineClass → List Line → Except Fault (List Line)
  | .specification, ls => (readSpecification ls).map (·.2.2)
  | c, ls =>
    match c.keyword? with
    | some keyword => (nextEntry c keyword ls).map (·.2)
    | none => (nextLine c ls).map (·.2)

/-- **What a step does with a line, whatever comes behind it.** -/
inductive Verdict (c : LineClass) (line : Line) : Prop
  | passed (fits : c.Fits line.text) (short : ¬c.IsOverlong line.text)
      (h : ∀ rest, takeLine c (line :: rest) = .ok rest)
  | refused (unfit : ¬c.Fits line.text) (short : ¬c.IsOverlong line.text) (detail : String)
      (h : ∀ rest, takeLine c (line :: rest) = .error (formatFault c line detail))
  | overlong (overlong : c.IsOverlong line.text) (count : Nat) (hcount : Text.digitLimit < count)
      (h : ∀ rest, takeLine c (line :: rest) = .error (.tooManyDigits count))

section Entries

variable {keyword : String} {text : List Char} {ds : List Char}

theorem takeLine_of_keyword (hc : c.keyword? = some keyword) :
    takeLine c ls = (nextEntry c keyword ls).map (·.2) := by
  cases c <;> simp_all [takeLine, LineClass.keyword?]

theorem fits_of_keyword (hc : c.keyword? = some keyword) :
    c.Fits text ↔ ∃ n, IsEntry keyword n text := by
  cases c <;> simp_all [LineClass.Fits, LineClass.keyword?]

theorem isOverlong_of_keyword (hc : c.keyword? = some keyword) :
    c.IsOverlong text ↔
      ∃ ds, (entryPattern keyword).Matches text [ds] ∧ Text.digitLimit < ds.length := by
  cases c <;> simp_all [LineClass.IsOverlong, LineClass.keyword?]

/-- A line without the form of an entry. -/
theorem nextEntry_of_not_matches (h : ∀ ds, ¬(entryPattern keyword).Matches line.text [ds]) :
    nextEntry c keyword (line :: rest)
      = .error (formatFault c line (Text.quoted (String.ofList line.text))) := by
  have hnone : (entryPattern keyword).match? line.text = none := by
    rcases hmatch : (entryPattern keyword).match? line.text with _ | ns
    · rfl
    · have hns := Pattern.matches_of_match?_eq_some hmatch
      obtain ⟨ds, rfl⟩ := List.length_eq_one_iff.mp (hns.length_eq.trans (by simp [entryPattern]))
      exact absurd hns (h ds)
  simp [nextEntry, nextMatch, nextLine, hnone]

/-- A line with that form: its digits are counted before their number is looked at. -/
theorem nextEntry_of_matches (h : (entryPattern keyword).Matches line.text [ds]) :
    nextEntry c keyword (line :: rest) =
      if Text.digitLimit < ds.length then .error (.tooManyDigits ds.length)
      else if maxEntry < Text.digitsValue ds then .error (formatFault c line
        (toString (Text.digitsValue ds) ++ " exceeds " ++ toString maxEntry))
      else .ok (Text.digitsValue ds, rest) := by
  simp only [nextEntry, nextMatch, nextLine, h.match?_eq_some (separated_entryPattern keyword),
    ok_bind, List.flatten_singleton, Text.digitsToNat]
  split_ifs with hlong hmax
  · rfl
  · simp [hmax]
  · simp [hmax]

theorem isOverlong_iff_of_matches (hc : c.keyword? = some keyword)
    (h : (entryPattern keyword).Matches text [ds]) :
    c.IsOverlong text ↔ Text.digitLimit < ds.length := by
  rw [isOverlong_of_keyword hc]
  refine ⟨?_, fun hlong => ⟨ds, h, hlong⟩⟩
  rintro ⟨es, hes, hlong⟩
  obtain ⟨⟩ := h.unique hes (separated_entryPattern keyword)
  exact hlong

theorem fits_iff_of_matches (hc : c.keyword? = some keyword)
    (h : (entryPattern keyword).Matches text [ds]) :
    c.Fits text ↔ Text.digitsValue ds ≤ maxEntry := by
  rw [fits_of_keyword hc]
  refine ⟨?_, fun hmax => ⟨_, ds, h, rfl, hmax⟩⟩
  rintro ⟨_, es, hes, rfl, hmax⟩
  obtain ⟨⟩ := h.unique hes (separated_entryPattern keyword)
  exact hmax

/-- The verdict on the line of an entry. -/
theorem verdict_of_keyword (hc : c.keyword? = some keyword) (line : Line) : Verdict c line := by
  by_cases hform : ∃ ds, (entryPattern keyword).Matches line.text [ds]
  · obtain ⟨ds, hds⟩ := hform
    have hoverlong := isOverlong_iff_of_matches hc hds
    have hfits := fits_iff_of_matches hc hds
    by_cases hlong : Text.digitLimit < ds.length
    · refine .overlong (hoverlong.mpr hlong) ds.length hlong fun rest => ?_
      rw [takeLine_of_keyword hc, nextEntry_of_matches hds, if_pos hlong]
      rfl
    by_cases hmax : maxEntry < Text.digitsValue ds
    · refine .refused (mt hfits.mp hmax.not_ge) (mt hoverlong.mp hlong)
        (toString (Text.digitsValue ds) ++ " exceeds " ++ toString maxEntry) fun rest => ?_
      rw [takeLine_of_keyword hc, nextEntry_of_matches hds, if_neg hlong, if_pos hmax]
      rfl
    · refine .passed (hfits.mpr (not_lt.mp hmax)) (mt hoverlong.mp hlong) fun rest => ?_
      rw [takeLine_of_keyword hc, nextEntry_of_matches hds, if_neg hlong, if_neg hmax]
      rfl
  · refine .refused ?_ ?_ (Text.quoted (String.ofList line.text)) fun rest => ?_
    · rw [fits_of_keyword hc]
      rintro ⟨_, ds, hds, -⟩
      exact hform ⟨ds, hds⟩
    · rw [isOverlong_of_keyword hc]
      rintro ⟨ds, hds, -⟩
      exact hform ⟨ds, hds⟩
    · rw [takeLine_of_keyword hc, nextEntry_of_not_matches fun ds hds => hform ⟨ds, hds⟩]
      rfl

end Entries

section Specification

variable {text ds es : List Char}

/-- A first line without the form of a specification. -/
theorem readSpecification_of_not_matches
    (h : ∀ ds es, ¬specificationPattern.Matches line.text [ds, es]) :
    readSpecification (line :: rest)
      = .error (formatFault .specification line (Text.quoted (String.ofList line.text))) := by
  have hnone : specificationPattern.match? line.text = none := by
    rcases hmatch : specificationPattern.match? line.text with _ | ns
    · rfl
    · have hns := Pattern.matches_of_match?_eq_some hmatch
      obtain ⟨ds, es, rfl⟩ := List.length_eq_two.mp (hns.length_eq.trans (by decide))
      exact absurd hns (h ds es)
  simp [readSpecification, nextMatch, nextLine, hnone]

/-- A first line with that form. -/
theorem readSpecification_of_matches (h : specificationPattern.Matches line.text [ds, es]) :
    readSpecification (line :: rest) = (do
      let n ← Text.digitsToNat ds
      let m ← Text.digitsToNat es
      if n < 1 || m < 1 then
        .error (formatFault .specification line
          ("need at least one version and one functionality, got " ++ toString n ++ " versions, "
            ++ toString m ++ " functionalities"))
      .ok (n, m, rest)) := by
  simp [readSpecification, nextMatch, nextLine, h.match?_eq_some separated_specificationPattern]

theorem isOverlong_specification_iff (h : specificationPattern.Matches text [ds, es]) :
    LineClass.specification.IsOverlong text
      ↔ Text.digitLimit < ds.length ∨ Text.digitLimit < es.length := by
  refine ⟨?_, fun hlong => ⟨ds, es, h, hlong⟩⟩
  rintro ⟨gs, hs, h', hlong⟩
  obtain ⟨⟩ := h.unique h' separated_specificationPattern
  exact hlong

theorem fits_specification_iff (h : specificationPattern.Matches text [ds, es]) :
    LineClass.specification.Fits text
      ↔ 1 ≤ Text.digitsValue ds ∧ 1 ≤ Text.digitsValue es := by
  refine ⟨?_, fun hpos => ⟨_, _, ds, es, h, rfl, rfl, hpos⟩⟩
  rintro ⟨_, _, gs, hs, h', rfl, rfl, hpos⟩
  obtain ⟨⟩ := h.unique h' separated_specificationPattern
  exact hpos

/-- The verdict on the first line. -/
theorem verdict_specification (line : Line) : Verdict .specification line := by
  by_cases hform : ∃ ds es, specificationPattern.Matches line.text [ds, es]
  · obtain ⟨ds, es, hmatch⟩ := hform
    have hoverlong := isOverlong_specification_iff hmatch
    have hfits := fits_specification_iff hmatch
    have htake (rest : List Line) : takeLine .specification (line :: rest) = _ :=
      congrArg (Except.map _) (readSpecification_of_matches hmatch)
    by_cases hlongds : Text.digitLimit < ds.length
    · refine .overlong (hoverlong.mpr (.inl hlongds)) ds.length hlongds fun rest => ?_
      rw [htake, Text.digitsToNat, if_pos hlongds]
      rfl
    by_cases hlonges : Text.digitLimit < es.length
    · refine .overlong (hoverlong.mpr (.inr hlonges)) es.length hlonges fun rest => ?_
      rw [htake, Text.digitsToNat, if_neg hlongds, Text.digitsToNat, if_pos hlonges]
      rfl
    have hshort := mt hoverlong.mp (not_or.mpr ⟨hlongds, hlonges⟩)
    have hzero : (Text.digitsValue ds < 1 || Text.digitsValue es < 1) = true
        ↔ ¬LineClass.specification.Fits line.text := by
      rw [hfits, Bool.or_eq_true, decide_eq_true_eq, decide_eq_true_eq]
      omega
    simp only [Text.digitsToNat, if_neg hlongds, if_neg hlonges, ok_bind] at htake
    by_cases hfit : LineClass.specification.Fits line.text
    · refine .passed hfit hshort fun rest => ?_
      rw [htake, if_neg (mt hzero.mp (not_not_intro hfit))]
      rfl
    · refine .refused hfit hshort ("need at least one version and one functionality, got "
        ++ toString (Text.digitsValue ds) ++ " versions, " ++ toString (Text.digitsValue es)
        ++ " functionalities") fun rest => ?_
      rw [htake, if_pos (hzero.mpr hfit)]
      rfl
  · refine .refused ?_ ?_ (Text.quoted (String.ofList line.text)) fun rest => ?_
    · rintro ⟨_, _, ds, es, h, -⟩
      exact hform ⟨ds, es, h⟩
    · rintro ⟨ds, es, h, -⟩
      exact hform ⟨ds, es, h⟩
    · rw [takeLine, readSpecification_of_not_matches fun ds es h => hform ⟨ds, es, h⟩]
      rfl

end Specification

/-- **There is a verdict on every line.** -/
theorem verdict (c : LineClass) (line : Line) : Verdict c line := by
  cases c with
  | specification => exact verdict_specification line
  | separator | label =>
    exact .passed (by simp [LineClass.Fits, LineClass.keyword?])
      (by simp [LineClass.IsOverlong, LineClass.keyword?]) fun _ => rfl
  | budget | cost | businessValue => exact verdict_of_keyword rfl line

theorem takeLine_nil (c : LineClass) :
    takeLine c [] = .error (.format ⟨c, none, "unexpected end of input"⟩) := by
  cases c <;> rfl

/-- **A line is passed if it fits its class and has not too many digits.** -/
theorem takeLine_eq_ok :
    takeLine c ls = .ok rest ↔
      ∃ line, ls = line :: rest ∧ c.Fits line.text ∧ ¬c.IsOverlong line.text := by
  rcases ls with _ | ⟨line, ls⟩
  · simp [takeLine_nil]
  · cases verdict c line with
    | passed fits short h => simp [h, fits, short]
    | refused unfit short detail h => simp [h, unfit]
    | overlong overlong count hcount h => simp [h, overlong]

/-- **A format fault names the class, and the line if there is one.**  Then the line does not fit,
and the fault stays whatever comes behind it. -/
theorem takeLine_eq_format {f : FormatFault} (h : takeLine c ls = .error (.format f)) :
    f.lineClass = c ∧ (ls = [] ∧ f.lineNumber = none ∨
      ∃ line rest, ls = line :: rest ∧ f.lineNumber = some line.number ∧ ¬c.Fits line.text
        ∧ ∀ others, takeLine c (line :: others) = .error (.format f)) := by
  rcases ls with _ | ⟨line, rest⟩
  · obtain rfl : ⟨c, none, "unexpected end of input"⟩ = f := by simpa [takeLine_nil] using h
    exact ⟨rfl, .inl ⟨rfl, rfl⟩⟩
  · cases verdict c line with
    | passed fits short htake => simp [htake] at h
    | refused unfit short detail htake =>
      obtain rfl : ⟨c, some line.number, detail⟩ = f := by simpa [htake, formatFault] using h
      exact ⟨rfl, .inr ⟨line, rest, rfl, rfl, unfit, htake⟩⟩
    | overlong overlong count hcount htake => simp [htake] at h

/-! ## Walks -/

/-- Takes lines by their classes, one after the other. -/
def walk (cs : List LineClass) (ls : List Line) : Except Fault (List Line) :=
  cs.foldlM (fun ls c => takeLine c ls) ls

@[simp] theorem walk_nil : walk [] ls = .ok ls := rfl

theorem walk_cons : walk (c :: cs) ls = takeLine c ls >>= walk cs := rfl

theorem walk_append {ds : List LineClass} : walk (cs ++ ds) ls = walk cs ls >>= walk ds :=
  List.foldlM_append

/-- The first so many lines are passed. -/
def Passed (cs : List LineClass) (ls : List Line) (k : Nat) : Prop :=
  ∀ i < k, ∃ c line, cs[i]? = some c ∧ ls[i]? = some line ∧ c.Fits line.text
    ∧ ¬c.IsOverlong line.text

theorem passed_cons_succ {k : Nat} :
    Passed (c :: cs) (line :: ls) (k + 1)
      ↔ (c.Fits line.text ∧ ¬c.IsOverlong line.text) ∧ Passed cs ls k := by
  constructor
  · intro h
    refine ⟨?_, fun i hi => h (i + 1) (Nat.succ_lt_succ hi)⟩
    obtain ⟨_, _, ⟨⟩, ⟨⟩, hline⟩ := h 0 (Nat.succ_pos k)
    exact hline
  · rintro ⟨hline, h⟩ (_ | i) hi
    · exact ⟨c, line, rfl, rfl, hline⟩
    · exact h i (Nat.lt_of_succ_lt_succ hi)

/-- **A walk fails at the first line that is not passed**, and with what the step there says. -/
theorem walk_eq_error_iff :
    walk cs ls = .error fault ↔
      ∃ k c, cs[k]? = some c ∧ Passed cs ls k ∧ takeLine c (ls.drop k) = .error fault := by
  induction cs generalizing ls with
  | nil => simp
  | cons c cs ih =>
    rw [walk_cons]
    constructor
    · intro h
      rcases htake : takeLine c ls with fault' | rest
      · obtain rfl : fault' = fault := by simpa [htake] using h
        exact ⟨0, c, rfl, nofun, htake⟩
      · obtain ⟨line, rfl, hline⟩ := takeLine_eq_ok.mp htake
        rw [htake, ok_bind] at h
        obtain ⟨k, d, hd, hpassed, hfault⟩ := ih.mp h
        exact ⟨k + 1, d, hd, passed_cons_succ.mpr ⟨hline, hpassed⟩, hfault⟩
    · rintro ⟨_ | k, d, hd, hpassed, hfault⟩
      · obtain rfl : c = d := Option.some.inj hd
        rw [List.drop_zero] at hfault
        rw [hfault, error_bind]
      · rcases ls with _ | ⟨line, ls⟩
        · obtain ⟨_, _, -, hline, -⟩ := hpassed 0 (Nat.succ_pos k)
          simp at hline
        · obtain ⟨hline, hpassed⟩ := passed_cons_succ.mp hpassed
          rw [takeLine_eq_ok.mpr ⟨line, rfl, hline⟩, ok_bind]
          exact ih.mpr ⟨k, d, hd, hpassed, hfault⟩

/-! ## The loops of the reader -/

/-- The class of a line of a version, counted from its separator. -/
def classInVersion : Nat → LineClass
  | 0 => .separator
  | 1 => .label
  | 2 => .budget
  | r + 3 =>
    match r % 3 with
    | 0 => .label
    | 1 => .cost
    | _ => .businessValue

/-- **The class of a line of a problem**, by its position among the meaningful lines. -/
def classAt (functionalities : Nat) : Nat → LineClass
  | 0 => .specification
  | k + 1 => classInVersion (k % blockLength functionalities)

/-- The classes of the lines of so many functionalities. -/
def functionalityClasses (count : Nat) : List LineClass :=
  (List.replicate count [.label, .cost, .businessValue]).flatten

/-- The classes of the lines of a version. -/
def versionClasses (functionalities : Nat) : List LineClass :=
  .separator :: .label :: .budget :: functionalityClasses functionalities

/-- The classes of the lines of so many versions. -/
def versionsClasses (functionalities count : Nat) : List LineClass :=
  (List.replicate count (versionClasses functionalities)).flatten

/-- The classes of the lines of a problem. -/
def lineClasses (functionalities versions : Nat) : List LineClass :=
  .specification :: versionsClasses functionalities versions

/-- The loop over functionalities is a walk. -/
theorem readFunctionalities_eq_walk (count : Nat) (ls : List Line) :
    (readFunctionalities count ls).map (·.2) = walk (functionalityClasses count) ls := by
  induction count generalizing ls with
  | zero => rfl
  | succ count ih =>
    have hclasses : functionalityClasses (count + 1)
        = .label :: .cost :: .businessValue :: functionalityClasses count := rfl
    simp only [hclasses, walk_cons, takeLine, LineClass.keyword?, bind_of_map, ← ih]
    simp only [readFunctionalities, map_of_bind]
    rfl

/-- **So is the loop over versions.** -/
theorem readVersions_eq_walk (m count : Nat) (ls : List Line) :
    (readVersions m count ls).map (·.2) = walk (versionsClasses m count) ls := by
  induction count generalizing ls with
  | zero => rfl
  | succ count ih =>
    have hclasses : versionsClasses m (count + 1)
        = .separator :: .label :: .budget :: (functionalityClasses m ++ versionsClasses m count) :=
      rfl
    simp only [hclasses, walk_cons, walk_append, takeLine, LineClass.keyword?, bind_of_map,
      ← readFunctionalities_eq_walk]
    simp only [readVersions, map_of_bind, ← ih]
    rfl

/-- What a repeated list holds by position. -/
theorem getElem?_flatten_replicate {α : Type} {xs : List α} {n k : Nat} (hk : k < n * xs.length) :
    (List.replicate n xs).flatten[k]? = xs[k % xs.length]? := by
  induction n generalizing k with
  | zero => simp at hk
  | succ n ih =>
    rw [List.replicate_succ, List.flatten_cons]
    rcases lt_or_ge k xs.length with hlt | hge
    · rw [List.getElem?_append_left hlt, Nat.mod_eq_of_lt hlt]
    · rw [Nat.succ_mul] at hk
      rw [List.getElem?_append_right hge, ih (by omega), Nat.mod_eq_sub_mod hge]

theorem length_versionClasses (m : Nat) : (versionClasses m).length = blockLength m := by
  simp [versionClasses, functionalityClasses, blockLength]
  omega

/-- The classes of a version by position. -/
theorem getElem?_versionClasses {m r : Nat} (hr : r < blockLength m) :
    (versionClasses m)[r]? = some (classInVersion r) := by
  match r with
  | 0 | 1 | 2 => rfl
  | r + 3 =>
    rw [blockLength] at hr
    have hclass : (functionalityClasses m)[r]? = [.label, .cost, .businessValue][r % 3]? :=
      getElem?_flatten_replicate (by simp; omega)
    have hthree : r % 3 = 0 ∨ r % 3 = 1 ∨ r % 3 = 2 := by omega
    simp only [versionClasses, List.getElem?_cons_succ, hclass, classInVersion]
    rcases hthree with h | h | h <;> simp [h]

/-- **The classes of a problem are those of the positions.** -/
theorem getElem?_lineClasses {m n k : Nat} :
    (lineClasses m n)[k]? = some c ↔ k < versionStart m n ∧ classAt m k = c := by
  have hlength : (lineClasses m n).length = versionStart m n := by
    simp [lineClasses, versionsClasses, length_versionClasses, versionStart]
    omega
  rcases lt_or_ge k (versionStart m n) with hlt | hge
  · have hclass : (lineClasses m n)[k]? = some (classAt m k) := by
      rcases k with _ | k
      · rfl
      · rw [versionStart] at hlt
        have hpos : 0 < blockLength m := by rw [blockLength]; omega
        rw [lineClasses, List.getElem?_cons_succ, versionsClasses,
          getElem?_flatten_replicate (by rw [length_versionClasses]; omega), length_versionClasses,
          getElem?_versionClasses (Nat.mod_lt k hpos), classAt]
    simp [hclass, hlt]
  · simp [List.getElem?_eq_none (hlength.trans_le hge), hge.not_gt]

end Problem

end MigrationPlan
