import MigrationPlan.Proofs.Problem.Faults
import MigrationPlan.Proofs.Problem.Labels
import MigrationPlan.Proofs.Problem.Sources
import Mathlib.Logic.Relation

/-!
# Proofs/Problem/Layout — the layout of a file means nothing

A layout is changed by lines that mean nothing, put in or taken out anywhere, and by blanks at the
ends of lines (`LayoutEdit`).  No change touches the texts that the reader sees (`texts_of_relaid`),
so results and faults stay (`ofLines_agrees`).  The number in a fault is that of the line at the
position where the reader stops, and there is one such position (`Reaches.unique`), so both numbers
point at the same meaningful line.  The main statement is **`ofSource_of_relaid`**.
-/

namespace MigrationPlan.Problem

/-! ## Changes of layout -/

/-- A line of blanks, or one whose first character that is no blank is `#`. -/
def MeansNothing (l : List Char) : Prop :=
  (∀ c ∈ l, Text.isBlank c)
    ∨ ∃ blanks comment, l = blanks ++ '#' :: comment ∧ ∀ c ∈ blanks, Text.isBlank c

/-- **One change of layout**: a line that means nothing is put in, or blanks are put around a line.
-/
inductive LayoutEdit : List String → List String → Prop
  | insert (before after : List String) (l : String) (h : MeansNothing l.toList) :
      LayoutEdit (before ++ after) (before ++ l :: after)
  | pad (before after : List String) (left l right : String)
      (hleft : ∀ c ∈ left.toList, Text.isBlank c) (hright : ∀ c ∈ right.toList, Text.isBlank c) :
      LayoutEdit (before ++ l :: after) (before ++ (left ++ l ++ right) :: after)

/-- **Lines that differ in layout**: one list comes from the other by changes, made and undone. -/
def Relaid : List String → List String → Prop :=
  Relation.EqvGen LayoutEdit

theorem holdsText_of_meansNothing {l : List Char} (h : MeansNothing l) : holdsText l = false := by
  obtain hblank | ⟨blanks, comment, rfl, hblanks⟩ := h
  · have hnone : l.find? (fun c => !Text.isBlank c) = none :=
      List.find?_eq_none.mpr fun c hc => by simp [hblank c hc]
    rw [holdsText, hnone]
    rfl
  · have hnone : blanks.find? (fun c => !Text.isBlank c) = none :=
      List.find?_eq_none.mpr fun c hc => by simp [hblanks c hc]
    have hmark : Text.isBlank '#' = false := by decide
    rw [holdsText, List.find?_append, hnone, Option.none_or,
      List.find?_cons_of_pos (by simp [hmark])]
    rfl

/-- Of a line, only what trimming leaves is seen. -/
theorem texts_singleton_congr {l l' : List Char} (h : Text.trim l = Text.trim l') :
    texts [l] = texts [l'] := by
  have hholds : holdsText l = holdsText l' := by
    rw [← isMeaningful_trim, ← isMeaningful_trim, h]
  by_cases hl : holdsText l' <;> simp [texts, hholds, hl, h]

/-- **A change of layout leaves the texts.** -/
theorem texts_of_layoutEdit {source source' : List String} (h : LayoutEdit source source') :
    texts (source.map String.toList) = texts (source'.map String.toList) := by
  cases h with
  | insert before after l h =>
    have hnothing : texts [l.toList] = [] := by simp [texts, holdsText_of_meansNothing h]
    rw [List.map_append, List.map_append, List.map_cons, List.append_cons, texts_append,
      texts_append, texts_append, hnothing, List.append_nil]
  | pad before after left l right hleft hright =>
    have htrim : Text.trim (left ++ l ++ right).toList = Text.trim l.toList := by
      rw [String.toList_append, String.toList_append, Text.trim_append_right hright,
        Text.trim_append hleft]
    rw [List.map_append, List.map_append, List.map_cons, List.map_cons, List.append_cons,
      List.append_cons _ (left ++ l ++ right).toList, texts_append, texts_append, texts_append,
      texts_append, texts_singleton_congr htrim]

theorem texts_of_relaid {source source' : List String} (h : Relaid source source') :
    texts (source.map String.toList) = texts (source'.map String.toList) := by
  induction h with
  | rel _ _ hedit => exact texts_of_layoutEdit hedit
  | refl => rfl
  | symm _ _ _ ih => exact ih.symm
  | trans _ _ _ _ _ ih ih' => exact ih.trans ih'

/-! ## The line of a fault -/

variable {lines lines' : List (List Char)} {ls ls' : List Line} {n m k k' : Nat} {f : FormatFault}

theorem HasSize.of_saysSame [Memory] (size : HasSize n m ls) (h : SaysSame ls ls') :
    HasSize n m ls' := by
  intro n' m' rest' hread'
  have hagrees := readSpecification_agrees h
  rcases hread : readSpecification ls with fault | ⟨n'', m'', rest⟩
  · simp [hread, hread', Agrees] at hagrees
  · rw [hread, hread'] at hagrees
    obtain ⟨rfl, rfl, -⟩ : n'' = n' ∧ m'' = m' ∧ SaysSame rest rest' := hagrees
    exact size n'' m'' rest hread

/-- **A format fault is about a position**: the line there does not fit, and its number is in the
fault, which has none if there is no line. -/
theorem exists_reaches_of_format [Memory] (size : HasSize n m (meaningful lines))
    (h : ofLines lines = .error (.format f)) :
    ∃ k, Reaches (texts lines) n m k
      ∧ (∀ text, (texts lines)[k]? = some text → ¬(classAt m k).Fits text)
      ∧ f.lineNumber = (meaningful lines)[k]?.map (·.number) := by
  obtain ⟨k, hreaches, htake⟩ := (ofLines_eq_error_iff_reaches size).mp h
  refine ⟨k, hreaches, ?_⟩
  obtain ⟨-, ⟨hend, hnone⟩ | ⟨line, rest, hline, hnumber, hunfit, -⟩⟩ := takeLine_eq_format htake
  · have hat : (meaningful lines)[k]? = none := by rw [← List.head?_drop, hend, List.head?_nil]
    refine ⟨fun text htext => ?_, by rw [hat, hnone, Option.map_none]⟩
    obtain ⟨line, hline, -⟩ := getElem?_texts.mp htext
    simp [hat] at hline
  · have hat : (meaningful lines)[k]? = some line := by
      rw [← List.head?_drop, hline, List.head?_cons]
    refine ⟨fun text htext => ?_, by rw [hat, hnumber, Option.map_some]⟩
    obtain ⟨line', hline', rfl⟩ := getElem?_texts.mp htext
    obtain rfl := Option.some.inj (hat.symm.trans hline')
    exact hunfit

/-- No position behind a line that does not fit is reached. -/
theorem Reaches.le_of_unfit {texts : List (List Char)} (h : Reaches texts n m k')
    (hunfit : ∀ text, texts[k]? = some text → ¬(classAt m k).Fits text) : k' ≤ k := by
  by_contra hbehind
  obtain ⟨text, htext, hfits, -⟩ := h.earlier k (not_le.mp hbehind)
  exact hunfit text htext hfits

/-- **The reader stops at one position.** -/
theorem Reaches.unique {texts : List (List Char)} (h : Reaches texts n m k)
    (hunfit : ∀ text, texts[k]? = some text → ¬(classAt m k).Fits text)
    (h' : Reaches texts n m k')
    (hunfit' : ∀ text, texts[k']? = some text → ¬(classAt m k').Fits text) : k = k' :=
  (h.le_of_unfit hunfit').antisymm (h'.le_of_unfit hunfit)

/-! ## Outcomes -/

/-- **Two readings have the same outcome**: one problem, one fault that is not about the format, one
fault about a line that is missing, or one fault about a line, whose numbers point at the same
meaningful line of the two files. -/
inductive SameOutcome (lines lines' : List (List Char)) :
    Except Fault Problem → Except Fault Problem → Prop
  | problem (p : Problem) : SameOutcome lines lines' (.ok p) (.ok p)
  | fault (fault : Fault) (h : ∀ f, fault ≠ .format f) :
      SameOutcome lines lines' (.error fault) (.error fault)
  | missing (c : LineClass) (detail : String) :
      SameOutcome lines lines' (.error (.format ⟨c, none, detail⟩))
        (.error (.format ⟨c, none, detail⟩))
  | line (c : LineClass) (detail : String) {number number' k : Nat} {text : List Char}
      (h : StandsAt lines number k text) (h' : StandsAt lines' number' k text) :
      SameOutcome lines lines' (.error (.format ⟨c, some number, detail⟩))
        (.error (.format ⟨c, some number', detail⟩))

theorem withoutNumber_eq_self {fault : Fault} (h : ∀ f, fault ≠ .format f) :
    fault.withoutNumber = fault := by
  unfold Fault.withoutNumber
  split
  · exact absurd rfl (h _)
  · rfl

/-- Faults that agree up to a number are the same, or both are about the format. -/
theorem eq_or_format_of_withoutNumber {fault fault' : Fault}
    (h : fault.withoutNumber = fault'.withoutNumber) :
    (fault = fault' ∧ ∀ f, fault ≠ .format f)
      ∨ ∃ c detail number number', fault = .format ⟨c, number, detail⟩
        ∧ fault' = .format ⟨c, number', detail⟩ := by
  by_cases hfault : ∃ f, fault = .format f
  · obtain ⟨⟨c, number, detail⟩, rfl⟩ := hfault
    by_cases hfault' : ∃ f, fault' = .format f
    · obtain ⟨⟨c', number', detail'⟩, rfl⟩ := hfault'
      obtain ⟨rfl, -, rfl⟩ := FormatFault.mk.inj (Fault.format.inj h)
      exact .inr ⟨c, detail, number, number', rfl, rfl⟩
    · rw [withoutNumber_eq_self (not_exists.mp hfault')] at h
      exact absurd ⟨_, h.symm⟩ hfault'
  · have hother := not_exists.mp hfault
    rw [withoutNumber_eq_self hother] at h
    have hother' : ∀ f, fault' ≠ .format f := by
      rintro f rfl
      exact hother _ h
    rw [withoutNumber_eq_self hother'] at h
    exact .inl ⟨h, hother⟩

/-- **Two format faults of files that say the same are about one position.** -/
theorem sameOutcome_of_format [Memory] {c : LineClass} {detail : String}
    {number number' : Option Nat} (h : texts lines = texts lines')
    (hfault : ofLines lines = .error (.format ⟨c, number, detail⟩))
    (hfault' : ofLines lines' = .error (.format ⟨c, number', detail⟩)) :
    SameOutcome lines lines' (.error (.format ⟨c, number, detail⟩))
      (.error (.format ⟨c, number', detail⟩)) := by
  have hsame : SaysSame (meaningful lines) (meaningful lines') := by
    rw [SaysSame, map_text_meaningful, map_text_meaningful, h]
  obtain ⟨n, m, size⟩ | ⟨_, _, _, fault, -, hsize, hrefused⟩ := hasSize_or lines
  · obtain ⟨k, hreaches, hunfit, hnumber⟩ := exists_reaches_of_format size hfault
    obtain ⟨k', hreaches', hunfit', hnumber'⟩ :=
      exists_reaches_of_format (size.of_saysSame hsame) hfault'
    rw [← h] at hreaches' hunfit'
    obtain rfl := hreaches.unique hunfit hreaches' hunfit'
    simp only at hnumber hnumber'
    rcases htext : (texts lines)[k]? with _ | text
    · have hnone {ls : List (List Char)} (hls : (texts ls)[k]? = none) :
          (meaningful ls)[k]? = none := by
        rwa [← map_text_meaningful, List.getElem?_map, Option.map_eq_none_iff] at hls
      rw [hnumber, hnumber', hnone htext, hnone (h ▸ htext)]
      exact .missing c detail
    · obtain ⟨line, hline, hstands⟩ := getElem?_texts.mp htext
      obtain ⟨line', hline', hstands'⟩ := getElem?_texts.mp (h ▸ htext)
      rw [hnumber, hnumber', hline, hline']
      exact .line c detail (hstands ▸ standsAt_of_getElem? hline)
        (hstands' ▸ standsAt_of_getElem? hline')
  · obtain rfl : fault = .format ⟨c, number, detail⟩ := by simpa [hrefused] using hfault
    simpa using checkSize_eq_error hsize

/-- **Layout means nothing.**  If lines are put in or taken out that are blank or comments, or
blanks at the ends of lines, however often and wherever, then the reader has the same outcome: the
same problem, or the same fault with the same class and detail, whose number is missing in both or
points at the same meaningful line. -/
theorem ofSource_of_relaid [Memory] {source source' : List String} (h : Relaid source source') :
    SameOutcome (source.map String.toList) (source'.map String.toList)
      (ofSource (.node (source.map Datum.text))) (ofSource (.node (source'.map Datum.text))) := by
  have htexts := texts_of_relaid h
  have hagrees := ofLines_agrees htexts
  rw [ofSource_texts, ofSource_texts]
  rcases hresult : ofLines (source.map String.toList) with fault | p <;>
    rcases hresult' : ofLines (source'.map String.toList) with fault' | p' <;>
    rw [hresult, hresult'] at hagrees
  · obtain ⟨rfl, hother⟩ | ⟨c, detail, number, number', rfl, rfl⟩ :=
      eq_or_format_of_withoutNumber hagrees
    · exact .fault fault hother
    · exact sameOutcome_of_format htexts hresult hresult'
  · exact hagrees.elim
  · exact hagrees.elim
  · obtain rfl : p = p' := hagrees
    exact .problem p

/-- The same file without its comment, with a tab before the budget and a comment behind it. -/
def relaidFile : List String :=
  ["Software migration problem specification (1 versions, 2 functionalities)", "", "=",
   "  one", "\tbudget: 9", " # a note", "any", "cost: +5"]

theorem relaid_unsignedFile : Relaid unsignedFile relaidFile := by
  have hcomment : MeansNothing "# a plan".toList := .inr ⟨[], _, rfl, by simp⟩
  have htab : Text.isBlank '\t' := by decide
  have hnote : MeansNothing " # a note".toList :=
    .inr ⟨[' '], _, rfl, by simp [Text.Pattern.isBlank_space]⟩
  refine .trans _ _ _ (.symm _ _ (.rel _ _ (.insert [] _ "# a plan" hcomment))) ?_
  refine .trans _ _ _ (.rel _ _
    (.pad (unsignedFile.tail.take 4) ["any", "cost: +5"] "\t" "budget: 9" "" (by simp [htab])
      (by simp))) ?_
  exact .rel _ _ (.insert (relaidFile.take 5) ["any", "cost: +5"] " # a note" hnote)

theorem ofSource_of_relaid_unsignedFile :
    Relaid unsignedFile relaidFile
      ∧ SameOutcome (unsignedFile.map String.toList) (relaidFile.map String.toList)
        (ofSource (.node (unsignedFile.map Datum.text)))
        (ofSource (.node (relaidFile.map Datum.text)))
      ∧ ofSource (.node (relaidFile.map Datum.text))
        = .error (.format ⟨.budget, some 5, "'budget: 9'"⟩) :=
  ⟨relaid_unsignedFile, ofSource_of_relaid relaid_unsignedFile, by decide +kernel⟩

end MigrationPlan.Problem
