import MigrationPlan.Proofs.Problem.Positions

/-!
# Proofs/Problem/Faults — the fault that is reported of lines is the first one

The reader gets to a position among the meaningful lines (`Reaches`) if all lines before it fit
their classes, and what it says there is the answer (`ofLines_eq_error_iff_reaches`).  Nothing
behind the line that it looks at can change this (`ofLines_eq_format_of_prefix`).  So
**`exists_isFirst`**: a format fault is about the first position whose line does not fit, or is
missing, and names the class of the position and the physical line.
-/

namespace MigrationPlan.Problem

variable {lines : List (List Char)} {ls rest : List Line} {line : Line} {c : LineClass}
  {cs : List LineClass} {fault : Fault} {n m k number : Nat}

/-! ## Physical lines -/

/-- **A physical line is the one at a position**: it holds something, and so many lines before it
do.  Physical lines count from one. -/
def StandsAt (lines : List (List Char)) (number k : Nat) (text : List Char) : Prop :=
  ∃ before l after, lines = before ++ l :: after ∧ before.length + 1 = number ∧ holdsText l
    ∧ (before.filter holdsText).length = k ∧ Text.trim l = text

theorem meaningfulFrom_append (number : Nat) (before after : List (List Char)) :
    meaningfulFrom number (before ++ after)
      = meaningfulFrom number before ++ meaningfulFrom (number + before.length) after := by
  induction before generalizing number with
  | nil => rfl
  | cons l before ih =>
    have hnext : number + (l :: before).length = number + 1 + before.length := by
      rw [List.length_cons]
      omega
    rw [List.cons_append, meaningfulFrom, meaningfulFrom, ih, hnext]
    split_ifs <;> rfl

/-- A line that holds something, with the meaningful lines before and behind it. -/
theorem meaningful_append_cons {before after : List (List Char)} {l : List Char}
    (hl : holdsText l) :
    meaningful (before ++ l :: after) = meaningful before ++ ⟨before.length + 1, Text.trim l⟩
      :: meaningfulFrom (before.length + 2) after := by
  rw [meaningful, meaningfulFrom_append, meaningfulFrom, isMeaningful_trim, if_pos hl, meaningful]
  congr 3 <;> omega

theorem length_meaningful (lines : List (List Char)) :
    (meaningful lines).length = (texts lines).length := by
  rw [← map_text_meaningful, List.length_map]

/-- Where a meaningful line comes from. -/
theorem exists_of_getElem?_meaningfulFrom {start : Nat}
    (h : (meaningfulFrom start lines)[k]? = some line) :
    ∃ before l after, lines = before ++ l :: after ∧ start + before.length = line.number
      ∧ holdsText l ∧ (before.filter holdsText).length = k ∧ Text.trim l = line.text := by
  induction lines generalizing start k with
  | nil => simp [meaningfulFrom] at h
  | cons l ls ih =>
    rw [meaningfulFrom, isMeaningful_trim] at h
    by_cases hl : holdsText l
    · rw [if_pos hl] at h
      rcases k with _ | k
      · obtain rfl := Option.some.inj h
        exact ⟨[], l, ls, rfl, rfl, hl, rfl, rfl⟩
      · obtain ⟨before, l', after, rfl, hnumber, hl', hk, htext⟩ := ih h
        refine ⟨l :: before, l', after, rfl, ?_, hl', ?_, htext⟩
        · rw [List.length_cons]
          omega
        · rw [List.filter_cons_of_pos hl, List.length_cons, hk]
    · rw [if_neg hl] at h
      obtain ⟨before, l', after, rfl, hnumber, hl', hk, htext⟩ := ih h
      refine ⟨l :: before, l', after, rfl, ?_, hl', ?_, htext⟩
      · rw [List.length_cons]
        omega
      · rw [List.filter_cons_of_neg hl, hk]

/-- **A meaningful line stands at its position.** -/
theorem standsAt_of_getElem? (h : (meaningful lines)[k]? = some line) :
    StandsAt lines line.number k line.text := by
  obtain ⟨before, l, after, hlines, hnumber, hrest⟩ := exists_of_getElem?_meaningfulFrom h
  exact ⟨before, l, after, hlines, by omega, hrest⟩

/-! ## The walk of a problem -/

/-- The first line announces no other size than this one, and there is room for it. -/
def HasSize [Memory] (n m : Nat) (ls : List Line) : Prop :=
  ∀ n' m' rest, readSpecification ls = .ok (n', m', rest) →
    n' = n ∧ m' = m ∧ checkSize n m = .ok ()

/-- Only the first line matters. -/
theorem HasSize.of_cons [Memory] {others : List Line} (size : HasSize n m (line :: ls)) :
    HasSize n m (line :: others) := by
  intro n' m' rest h
  obtain ⟨_, ⟨⟩, hline⟩ := readSpecification_eq_ok.mp h
  exact size n' m' ls (readSpecification_eq_ok.mpr ⟨line, rfl, hline⟩)

/-- **Lines are refused as the walk along the classes of their size is.** -/
theorem ofLines_eq_error_iff [Memory] (size : HasSize n m (meaningful lines)) :
    ofLines lines = .error fault ↔ walk (lineClasses m n) (meaningful lines) = .error fault := by
  have hwalk : walk (lineClasses m n) (meaningful lines)
      = readSpecification (meaningful lines) >>= fun a => walk (versionsClasses m n) a.2.2 :=
    bind_of_map
  rw [hwalk, ofLines]
  rcases hread : readSpecification (meaningful lines) with fault' | ⟨n', m', rest⟩
  · simp only [error_bind, Except.error.injEq]
  · obtain ⟨rfl, rfl, hroom⟩ := size n' m' rest hread
    rw [ok_bind, ok_bind, ← readVersions_eq_walk]
    simp only [hroom, ok_bind]
    rcases readVersions m' n' rest with fault' | ⟨data, rest'⟩ <;> simp [Except.map]

/-- Faults of the size itself. -/
theorem checkSize_eq_error [Memory] (h : checkSize n m = .error fault) :
    fault = .sideTooLarge ∨ fault = .arrayTooLarge ∨ fault = .outOfMemory := by
  rw [checkSize] at h
  obtain hversions | ⟨_, -, h⟩ := bind_eq_error.mp h
  · exact newSide?_natCast_eq_error hversions
  · split at h
    · exact .inl (Except.error.inj h).symm
    · obtain hmatrix | ⟨_, -, h⟩ := bind_eq_error.mp h
      · exact .inr (room?_eq_error hmatrix)
      · cases h

/-- Either a size is announced for which there is no room, or the lines are walked along. -/
theorem hasSize_or [Memory] (lines : List (List Char)) :
    (∃ n m, HasSize n m (meaningful lines)) ∨ ∃ n m rest fault,
      readSpecification (meaningful lines) = .ok (n, m, rest) ∧ checkSize n m = .error fault
        ∧ ofLines lines = .error fault := by
  rcases hread : readSpecification (meaningful lines) with _ | ⟨n, m, rest⟩
  · exact .inl ⟨0, 0, fun n' m' rest h => by simp [hread] at h⟩
  rcases hroom : checkSize n m with fault | ⟨⟨⟩⟩
  · refine .inr ⟨n, m, rest, fault, rfl, hroom, ?_⟩
    simp [ofLines, hread, hroom]
  · refine .inl ⟨n, m, fun n' m' rest' h => ?_⟩
    obtain ⟨rfl, rfl, -⟩ : n = n' ∧ m = m' ∧ rest = rest' := by simpa [hread] using h
    exact ⟨rfl, rfl, hroom⟩

/-! ## Positions that are reached -/

/-- **The reader gets to a position** among the meaningful lines, which is one of those that the
announced size has: all lines before it fit their classes, and none has too many digits. -/
structure Reaches (texts : List (List Char)) (n m k : Nat) : Prop where
  announced : 0 < k → ∃ text, texts[0]? = some text ∧ Announces n m text
  lt : k < versionStart m n
  earlier : ∀ i < k, ∃ text, texts[i]? = some text ∧ (classAt m i).Fits text
    ∧ ¬(classAt m i).IsOverlong text

theorem getElem?_texts {text : List Char} :
    (texts lines)[k]? = some text ↔
      ∃ line, (meaningful lines)[k]? = some line ∧ line.text = text := by
  rw [← map_text_meaningful, List.getElem?_map, Option.map_eq_some_iff]

/-- The lines before a position fit their classes exactly if a walk passes them. -/
theorem passed_iff (hk : k < versionStart m n) :
    Passed (lineClasses m n) (meaningful lines) k ↔ ∀ i < k, ∃ text, (texts lines)[i]? = some text
      ∧ (classAt m i).Fits text ∧ ¬(classAt m i).IsOverlong text := by
  refine forall₂_congr fun i hi => ?_
  constructor
  · rintro ⟨c, line, hc, hline, hpassed⟩
    obtain ⟨-, rfl⟩ := getElem?_lineClasses.mp hc
    exact ⟨line.text, getElem?_texts.mpr ⟨line, hline, rfl⟩, hpassed⟩
  · rintro ⟨text, htext, hpassed⟩
    obtain ⟨line, hline, rfl⟩ := getElem?_texts.mp htext
    exact ⟨_, line, getElem?_lineClasses.mpr ⟨hi.trans hk, rfl⟩, hline, hpassed⟩

/-- **A walk gets where the reader gets.** -/
theorem Reaches.of_passed [Memory] (size : HasSize n m (meaningful lines))
    (hk : k < versionStart m n) (h : Passed (lineClasses m n) (meaningful lines) k) :
    Reaches (texts lines) n m k := by
  refine ⟨fun hpos => ?_, hk, (passed_iff hk).mp h⟩
  obtain ⟨c, line, hc, hline, hpassed⟩ := h 0 hpos
  obtain ⟨-, rfl⟩ := getElem?_lineClasses.mp hc
  rcases hlines : meaningful lines with _ | ⟨first, rest⟩
  · simp [hlines] at hline
  obtain rfl : first = line := by simpa [hlines] using hline
  obtain ⟨⟨n', m', rest'⟩, hread, -⟩ := map_eq_ok.mp (takeLine_eq_ok.mpr ⟨first, hlines, hpassed⟩)
  obtain ⟨rfl, rfl, -⟩ := size n' m' rest' hread
  obtain ⟨_, hfirst, ds, es, hmatch, ⟨-, hn⟩, ⟨-, hm⟩, hpos⟩ := readSpecification_eq_ok.mp hread
  obtain ⟨rfl, -⟩ := List.cons.inj (hlines.symm.trans hfirst)
  exact ⟨first.text, getElem?_texts.mpr ⟨first, by rw [hlines]; rfl, rfl⟩, ds, es, hmatch, hn, hm,
    hpos⟩

/-- The lines up to the position decide whether it is reached. -/
theorem Reaches.congr {texts others : List (List Char)} (h : Reaches texts n m k)
    (hsame : ∀ i < k, others[i]? = texts[i]?) : Reaches others n m k where
  announced hpos := by
    rw [hsame 0 hpos]
    exact h.announced hpos
  lt := h.lt
  earlier i hi := by
    rw [hsame i hi]
    exact h.earlier i hi

/-- Up to there, no line is missing. -/
theorem Reaches.le_length {texts : List (List Char)} (h : Reaches texts n m k) :
    k ≤ texts.length := by
  match k with
  | 0 => exact Nat.zero_le _
  | k + 1 =>
    obtain ⟨text, htext, -⟩ := h.earlier k (Nat.lt_succ_self k)
    exact (List.getElem?_eq_some_iff.mp htext).1

/-- **Lines are refused at a position that is reached**, for what the reader says of the line there.
-/
theorem ofLines_eq_error_iff_reaches [Memory] (size : HasSize n m (meaningful lines)) :
    ofLines lines = .error fault ↔ ∃ k, Reaches (texts lines) n m k
      ∧ takeLine (classAt m k) ((meaningful lines).drop k) = .error fault := by
  rw [ofLines_eq_error_iff size, walk_eq_error_iff]
  constructor
  · rintro ⟨k, c, hc, hpassed, hfault⟩
    obtain ⟨hk, rfl⟩ := getElem?_lineClasses.mp hc
    exact ⟨k, .of_passed size hk hpassed, hfault⟩
  · rintro ⟨k, hreaches, hfault⟩
    exact ⟨k, _, getElem?_lineClasses.mpr ⟨hreaches.lt, rfl⟩,
      (passed_iff hreaches.lt).mpr hreaches.earlier, hfault⟩

/-! ## Format faults -/

/-- **Nothing behind the line at fault matters.** -/
theorem ofLines_eq_format_of_prefix [Memory] {before after others : List (List Char)}
    {l : List Char} (hl : holdsText l) (size : HasSize n m (meaningful (before ++ l :: after)))
    (hreaches : Reaches (texts (before ++ l :: after)) n m (before.filter holdsText).length)
    (htake : ∀ rest, takeLine (classAt m (before.filter holdsText).length)
      (⟨before.length + 1, Text.trim l⟩ :: rest) = .error fault) :
    ofLines (before ++ l :: others) = .error fault := by
  have hlength : (meaningful before).length = (before.filter holdsText).length := by
    rw [length_meaningful, texts, List.length_map]
  have hsize : HasSize n m (meaningful (before ++ l :: others)) := by
    rw [meaningful_append_cons hl] at size ⊢
    generalize meaningful before = ls at size
    cases ls with
    | nil => exact size.of_cons
    | cons first ls => exact size.of_cons
  refine (ofLines_eq_error_iff_reaches hsize).mpr ⟨_, hreaches.congr fun i hi => ?_, ?_⟩
  · have htexts (after : List (List Char)) : (texts (before ++ l :: after))[i]?
        = (before.filter holdsText)[i]?.map Text.trim := by
      rw [texts, List.filter_append, List.map_append, List.getElem?_append_left (by simpa using hi),
        List.getElem?_map]
    rw [htexts, htexts]
  · rw [meaningful_append_cons hl, ← hlength, List.drop_left, hlength]
    exact htake _

/-- **A format fault is about a position that is reached**, and what is behind the line that stands
there does not matter. -/
structure IsFirst [Memory] (lines : List String) (f : FormatFault) (n m k : Nat) : Prop where
  reaches : Reaches (texts (lines.map String.toList)) n m k
  lineClass : f.lineClass = classAt m k
  missing : f.lineNumber = none ↔ (texts (lines.map String.toList)).length = k
  unfit : ∀ number, f.lineNumber = some number →
    ∃ text, StandsAt (lines.map String.toList) number k text ∧ ¬(classAt m k).Fits text
  decided : ∀ number, f.lineNumber = some number →
    ∀ others : List String, others.take number = lines.take number →
      ofSource (.node (others.map Datum.text)) = .error (.format f)

section First

variable {source : List String} {f : FormatFault}

/-- The lines end before the position. -/
theorem isFirst_of_end [Memory] (hreaches : Reaches (texts (source.map String.toList)) n m k)
    (hclass : f.lineClass = classAt m k) (hnone : f.lineNumber = none)
    (hend : (meaningful (source.map String.toList)).drop k = []) : IsFirst source f n m k where
  reaches := hreaches
  lineClass := hclass
  missing := by
    have hle := List.drop_eq_nil_iff.mp hend
    rw [length_meaningful] at hle
    exact iff_of_true hnone (hle.antisymm hreaches.le_length)
  unfit number hnumber := by simp [hnone] at hnumber
  decided number hnumber := by simp [hnone] at hnumber

/-- There is a line at the position, and it is refused. -/
theorem isFirst_of_line [Memory] (size : HasSize n m (meaningful (source.map String.toList)))
    (hreaches : Reaches (texts (source.map String.toList)) n m k)
    (hclass : f.lineClass = classAt m k) (hnumber : f.lineNumber = some line.number)
    (hline : (meaningful (source.map String.toList)).drop k = line :: rest)
    (hunfit : ¬(classAt m k).Fits line.text)
    (htake : ∀ rest, takeLine (classAt m k) (line :: rest) = .error (.format f)) :
    IsFirst source f n m k := by
  have hat : (meaningful (source.map String.toList))[k]? = some line := by
    rw [← List.head?_drop, hline, List.head?_cons]
  have hstands := standsAt_of_getElem? hat
  have hnamed {number : Nat} (h : f.lineNumber = some number) : line.number = number :=
    Option.some.inj (hnumber.symm.trans h)
  refine ⟨hreaches, hclass, iff_of_false (by simp [hnumber]) ?_, fun number h => ?_,
    fun number h others hothers => ?_⟩
  · rw [← length_meaningful]
    exact (List.getElem?_eq_some_iff.mp hat).1.ne'
  · exact ⟨line.text, hnamed h ▸ hstands, hunfit⟩
  · obtain rfl := hnamed h
    obtain ⟨before, l, after, hlines, hbefore, hl, rfl, htext⟩ := hstands
    obtain rfl : ⟨before.length + 1, Text.trim l⟩ = line := by rw [hbefore, htext]
    have hprefix : (others.map String.toList).take (before.length + 1) = before ++ [l] := by
      rw [← List.map_take, hothers, List.map_take, hlines, List.append_cons,
        List.take_left' (by simp)]
    rw [hlines] at size hreaches
    rw [ofSource_texts, ← List.take_append_drop (before.length + 1) (others.map String.toList),
      hprefix, List.append_assoc, List.singleton_append]
    exact ofLines_eq_format_of_prefix hl size hreaches htake

/-- **The fault that is reported is the first one.**  Let a list of lines be refused for its format.
For some position among the meaningful lines, all lines before it fit the classes of theirs.  The
fault names the class of this position.  It names no line exactly if the meaningful lines end before
the position; otherwise it names the physical line that stands there, which does not fit, and every
list of lines that is the same up to that line is refused for the same fault. -/
theorem exists_isFirst [Memory]
    (h : ofSource (.node (source.map Datum.text)) = .error (.format f)) :
    ∃ n m k, IsFirst source f n m k := by
  rw [ofSource_texts] at h
  obtain ⟨n, m, size⟩ | ⟨n, m, rest, fault, -, hsize, hfault⟩ :=
    hasSize_or (source.map String.toList)
  · obtain ⟨k, hreaches, htake⟩ := (ofLines_eq_error_iff_reaches size).mp h
    obtain ⟨hclass, ⟨hend, hnone⟩ | ⟨line, rest, hline, hnumber, hunfit, htake⟩⟩ :=
      takeLine_eq_format htake
    · exact ⟨n, m, k, isFirst_of_end hreaches hclass hnone hend⟩
    · exact ⟨n, m, k, isFirst_of_line size hreaches hclass hnumber hline hunfit htake⟩
  · obtain rfl : fault = .format f := by simpa [hfault] using h
    simpa using checkSize_eq_error hsize

end First

/-- A file whose budget has no plus sign. -/
def unsignedFile : List String :=
  ["# a plan", "Software migration problem specification (1 versions, 2 functionalities)", "", "=",
   "  one", "budget: 9", "any", "cost: +5"]

theorem exists_isFirst_unsignedFile :
    ofSource (.node (unsignedFile.map Datum.text))
        = .error (.format ⟨.budget, some 6, "'budget: 9'"⟩)
      ∧ ∃ n m k, IsFirst unsignedFile ⟨.budget, some 6, "'budget: 9'"⟩ n m k := by
  have h : ofSource (.node (unsignedFile.map Datum.text))
      = .error (.format ⟨.budget, some 6, "'budget: 9'"⟩) := by decide +kernel
  exact ⟨h, exists_isFirst h⟩

end MigrationPlan.Problem
