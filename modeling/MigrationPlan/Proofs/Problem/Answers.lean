import MigrationPlan.Proofs.Problem.Faults

/-!
# Proofs/Problem/Answers — which lines get an answer

Lines are answered if they are read as a well-formed problem (`wellFormed_of_ofLines`) or refused
for their format.  Two limits stand in the way.  A line can have the form that its position asks for
and a number of more digits than are read, which is found out before the number is compared with
the largest entry.  And the first line can announce more than there is room for.  There is nothing
else: **`isAnswered_iff`**.  Both happen: `not_isAnswered_overlongFile`.
-/

namespace MigrationPlan.Problem

variable {lines : List (List Char)} {ls rest : List Line} {line : Line} {fault : Fault}
  {n m k : Nat}

/-! ## Problems that are read -/

theorem bounds_of_readFunctionalities {es : List (Nat × Nat)}
    (h : readFunctionalities k ls = .ok (es, rest)) :
    es.length = k ∧ ∀ e ∈ es, e.1 ≤ maxEntry ∧ e.2 ≤ maxEntry := by
  induction k generalizing ls es with
  | zero =>
    obtain ⟨rfl, rfl⟩ : [] = es ∧ ls = rest := by simpa [readFunctionalities] using h
    exact ⟨rfl, by simp⟩
  | succ k ih =>
    simp only [readFunctionalities, bind_eq_ok, Prod.exists, Except.ok.injEq, Prod.mk.injEq,
      nextEntry_eq_ok] at h
    obtain ⟨-, _, -, cost, _, ⟨-, -, -, -, -, -, hcost⟩, value, _, ⟨-, -, -, -, -, -, hvalue⟩,
      others, _, hothers, rfl, rfl⟩ := h
    obtain ⟨hlength, hbounds⟩ := ih hothers
    exact ⟨by rw [List.length_cons, hlength], List.forall_mem_cons.mpr ⟨⟨hcost, hvalue⟩, hbounds⟩⟩

/-- What a version holds is in range. -/
def VersionData.InRange (functionalities : Nat) (d : VersionData) : Prop :=
  d.budget ≤ maxEntry ∧ (d.cost.length = functionalities ∧ ∀ x ∈ d.cost, x ≤ maxEntry)
    ∧ d.value.length = functionalities ∧ ∀ x ∈ d.value, x ≤ maxEntry

theorem inRange_of_readVersions {data : List VersionData}
    (h : readVersions m k ls = .ok (data, rest)) :
    data.length = k ∧ ∀ d ∈ data, d.InRange m := by
  induction k generalizing ls data with
  | zero =>
    obtain ⟨rfl, rfl⟩ : [] = data ∧ ls = rest := by simpa [readVersions] using h
    exact ⟨rfl, by simp⟩
  | succ k ih =>
    simp only [readVersions, bind_eq_ok, Prod.exists, Except.ok.injEq, Prod.mk.injEq,
      nextEntry_eq_ok] at h
    obtain ⟨-, _, -, -, _, -, budget, _, ⟨-, -, -, -, -, -, hbudget⟩, es, _, hes, others, _,
      hothers, rfl, rfl⟩ := h
    obtain ⟨hlength, hbounds⟩ := bounds_of_readFunctionalities hes
    obtain ⟨hcount, hothers⟩ := ih hothers
    refine ⟨by rw [List.length_cons, hcount], List.forall_mem_cons.mpr ⟨?_, hothers⟩⟩
    refine ⟨hbudget, ⟨by simpa using hlength, ?_⟩, by simpa using hlength, ?_⟩
    · exact List.forall_mem_map.mpr fun e he => (hbounds e he).1
    · exact List.forall_mem_map.mpr fun e he => (hbounds e he).2

/-- **A problem that is read is well-formed.** -/
theorem wellFormed_of_ofLines [Memory] {p : Problem} (h : ofLines lines = .ok p) :
    p.WellFormed := by
  simp only [ofLines, bind_eq_ok, Prod.exists, Except.ok.injEq] at h
  obtain ⟨n, m, rest, hsize, -, -, data, _, hdata, rfl⟩ := h
  obtain ⟨_, -, _, _, -, -, -, hn, hm⟩ := readSpecification_eq_ok.mp hsize
  obtain ⟨hlength, hdata⟩ := inRange_of_readVersions hdata
  exact
    { one_le_versions := hn
      one_le_functionalities := hm
      value := ⟨by simpa using hlength, List.forall_mem_map.mpr fun d hd => (hdata d hd).2.2⟩
      cost := ⟨by simpa using hlength, List.forall_mem_map.mpr fun d hd => (hdata d hd).2.1⟩
      budget := ⟨by simpa using hlength, List.forall_mem_map.mpr fun d hd => (hdata d hd).1⟩ }

/-- There is room for a problem that is read. -/
theorem hasRoom_of_ofLines [Memory] {p : Problem} (h : ofLines lines = .ok p) : p.HasRoom := by
  simp only [ofLines, bind_eq_ok, Prod.exists, Except.ok.injEq] at h
  obtain ⟨n, m, rest, -, _, hroom, data, _, -, rfl⟩ := h
  exact hroom

/-! ## Answers -/

/-- **Lines are answered**: by a well-formed problem, or by a format fault. -/
def IsAnswered [Memory] (lines : List String) : Prop :=
  (∃ p, ofSource (.node (lines.map Datum.text)) = .ok p ∧ p.WellFormed)
    ∨ ∃ f, ofSource (.node (lines.map Datum.text)) = .error (.format f)

/-- A line is reached that has too many digits for its class. -/
def ReachesOverlong (texts : List (List Char)) : Prop :=
  ∃ n m k text, Reaches texts n m k ∧ texts[k]? = some text ∧ (classAt m k).IsOverlong text

theorem reaches_zero (texts : List (List Char)) : Reaches texts 0 0 0 :=
  ⟨nofun, by simp [versionStart], nofun⟩

theorem readSpecification_of_announces (h : Announces n m line.text)
    (short : ¬LineClass.specification.IsOverlong line.text) :
    readSpecification (line :: rest) = .ok (n, m, rest) := by
  obtain ⟨ds, es, hmatch, hn, hm, hpos⟩ := h
  have hshort : ¬(Text.digitLimit < ds.length ∨ Text.digitLimit < es.length) :=
    fun hlong => short ⟨ds, es, hmatch, hlong⟩
  rw [not_or, not_lt, not_lt] at hshort
  exact readSpecification_eq_ok.mpr
    ⟨line, rfl, ds, es, hmatch, ⟨hshort.1, hn⟩, ⟨hshort.2, hm⟩, hpos⟩

/-- The size of a position that is reached behind the first line is the announced one. -/
theorem Reaches.size_eq [Memory] {n' m' : Nat} (h : Reaches (texts lines) n m k) (hk : 0 < k)
    (size : HasSize n' m' (meaningful lines)) : n = n' ∧ m = m' := by
  obtain ⟨text, htext, hannounces⟩ := h.announced hk
  obtain ⟨_, htext', -, hshort⟩ := h.earlier 0 hk
  obtain rfl := Option.some.inj (htext.symm.trans htext')
  obtain ⟨first, hfirst, rfl⟩ := getElem?_texts.mp htext
  obtain ⟨rest, hlines⟩ := List.head?_eq_some_iff.mp (List.head?_eq_getElem? ▸ hfirst)
  obtain ⟨hn, hm, -⟩ := size n m rest (hlines ▸ readSpecification_of_announces hannounces hshort)
  exact ⟨hn, hm⟩

/-- Another fault than one of the format is no answer. -/
theorem not_isAnswered_of_error [Memory] {lines : List String}
    (h : ofSource (.node (lines.map Datum.text)) = .error fault) (hfault : ∀ f, fault ≠ .format f) :
    ¬IsAnswered lines := by
  rw [IsAnswered, h]
  rintro (⟨p, hp, -⟩ | ⟨f, hf⟩)
  · simp at hp
  · exact hfault f (Except.error.inj hf)

/-- A fault about a limit: of digits, or of room. -/
def IsLimitFault (fault : Fault) : Prop :=
  (∃ count, Text.digitLimit < count ∧ fault = .tooManyDigits count)
    ∨ fault = .sideTooLarge ∨ fault = .arrayTooLarge ∨ fault = .outOfMemory

/-- **A line with too many digits is not answered.** -/
theorem exists_of_reachesOverlong [Memory] (h : ReachesOverlong (texts lines)) :
    ∃ fault, ofLines lines = .error fault ∧ IsLimitFault fault := by
  obtain ⟨n, m, k, text, hreaches, htext, hoverlong⟩ := h
  obtain ⟨n', m', size⟩ | ⟨_, _, _, fault, -, hsize, hfault⟩ := hasSize_or lines
  · obtain ⟨line, hline, rfl⟩ := getElem?_texts.mp htext
    have hreaches' : Reaches (texts lines) n' m' k ∧ (classAt m' k).IsOverlong line.text := by
      rcases k.eq_zero_or_pos with rfl | hpos
      · exact ⟨⟨nofun, by rw [versionStart]; omega, nofun⟩, hoverlong⟩
      · obtain ⟨rfl, rfl⟩ := hreaches.size_eq hpos size
        exact ⟨hreaches, hoverlong⟩
    obtain ⟨rest, hrest⟩ := List.head?_eq_some_iff.mp (List.head?_drop ▸ hline)
    cases verdict (classAt m' k) line with
    | passed fits short htake => exact absurd hreaches'.2 short
    | refused unfit short detail htake => exact absurd hreaches'.2 short
    | overlong overlong count hcount htake =>
      refine ⟨_, (ofLines_eq_error_iff_reaches size).mpr ⟨k, hreaches'.1, ?_⟩,
        .inl ⟨count, hcount, rfl⟩⟩
      rw [hrest, htake]
  · exact ⟨fault, hfault, .inr (checkSize_eq_error hsize)⟩

/-- **What is refused has a format fault or meets a limit**, of digits in a line that is reached or
of room for the announced size. -/
theorem cause_of_error [Memory] (h : ofLines lines = .error fault) :
    (∃ f, fault = .format f)
      ∨ IsLimitFault fault ∧ (ReachesOverlong (texts lines) ∨ ¬AnnouncesRoom (texts lines)) := by
  obtain ⟨n, m, size⟩ | ⟨n, m, rest, fault', hread, hsize, hfault⟩ := hasSize_or lines
  · obtain ⟨k, hreaches, htake⟩ := (ofLines_eq_error_iff_reaches size).mp h
    rcases hdrop : (meaningful lines).drop k with _ | ⟨line, rest⟩
    · rw [hdrop, takeLine_nil] at htake
      exact .inl ⟨_, (Except.error.inj htake).symm⟩
    · rw [hdrop] at htake
      cases verdict (classAt m k) line with
      | passed fits short hline => simp [hline] at htake
      | refused unfit short detail hline =>
        rw [hline] at htake
        exact .inl ⟨_, (Except.error.inj htake).symm⟩
      | overlong overlong count hcount hline =>
        rw [hline] at htake
        have hat : (meaningful lines)[k]? = some line := by
          rw [← List.head?_drop, hdrop, List.head?_cons]
        exact .inr ⟨.inl ⟨count, hcount, (Except.error.inj htake).symm⟩,
          .inl ⟨n, m, k, line.text, hreaches, getElem?_texts.mpr ⟨line, hat, rfl⟩, overlong⟩⟩
  · obtain rfl : fault' = fault := by simpa [hfault] using h
    obtain ⟨line, hline, ds, es, hmatch, ⟨-, hn⟩, ⟨-, hm⟩, hpos⟩ := readSpecification_eq_ok.mp hread
    have hfirst : (texts lines)[0]? = some line.text :=
      getElem?_texts.mpr ⟨line, by rw [hline]; rfl, rfl⟩
    refine .inr ⟨.inr (checkSize_eq_error hsize), .inr fun room => ?_⟩
    simp [room line.text n m hfirst ⟨ds, es, hmatch, hn, hm, hpos⟩] at hsize

/-- **Which lines are answered.**  A list of lines is read as a well-formed problem or refused for
its format exactly if no line is reached that has too many digits for its class, and there is room
for the size that the first line announces.  The other faults are those of the two limits. -/
theorem isAnswered_iff [Memory] (lines : List String) :
    (IsAnswered lines ↔ ¬ReachesOverlong (texts (lines.map String.toList))
        ∧ AnnouncesRoom (texts (lines.map String.toList)))
      ∧ ∀ fault, ofSource (.node (lines.map Datum.text)) = .error fault →
        (∃ f, fault = .format f) ∨ IsLimitFault fault := by
  have hlimit {fault : Fault} (h : ofLines (lines.map String.toList) = .error fault)
      (hfault : IsLimitFault fault) : ¬IsAnswered lines := by
    refine not_isAnswered_of_error ((ofSource_texts lines).trans h) ?_
    rintro f rfl
    simp [IsLimitFault] at hfault
  refine ⟨⟨fun h => ?_, fun ⟨hshort, room⟩ => ?_⟩, fun fault h => ?_⟩
  · have hshort : ¬ReachesOverlong (texts (lines.map String.toList)) := fun hlong => by
      obtain ⟨fault, hfault, hfault'⟩ := exists_of_reachesOverlong hlong
      exact hlimit hfault hfault' h
    refine ⟨hshort, fun text n m htext hannounces => ?_⟩
    obtain ⟨first, hfirst, rfl⟩ := getElem?_texts.mp htext
    obtain ⟨rest, hlines⟩ := List.head?_eq_some_iff.mp (List.head?_eq_getElem? ▸ hfirst)
    have hread : readSpecification (meaningful (lines.map String.toList)) = .ok (n, m, rest) :=
      hlines ▸ readSpecification_of_announces hannounces fun hlong =>
        hshort ⟨0, 0, 0, _, reaches_zero _, htext, hlong⟩
    obtain ⟨n', m', size⟩ | ⟨_, _, _, fault, -, hsize, hfault⟩ :=
      hasSize_or (lines.map String.toList)
    · obtain ⟨rfl, rfl, hroom⟩ := size n m rest hread
      exact hroom
    · exact absurd h (hlimit hfault (.inr (checkSize_eq_error hsize)))
  · rw [IsAnswered, ofSource_texts]
    rcases hresult : ofLines (lines.map String.toList) with fault | p
    · obtain ⟨f, rfl⟩ | ⟨-, hlong | hroom⟩ := cause_of_error hresult
      · exact .inr ⟨f, rfl⟩
      · exact absurd hlong hshort
      · exact absurd room hroom
    · exact .inl ⟨p, rfl, wellFormed_of_ofLines hresult⟩
  · rw [ofSource_texts] at h
    exact (cause_of_error h).imp_right And.left

/-- A file with one digit too many in its budget. -/
def overlongFile : List String :=
  ["Software migration problem specification (1 versions, 1 functionalities)", "=", "one",
   "budget: +" ++ String.ofList (List.replicate 4301 '9')]

/-- A file for more versions than can be counted. -/
def hugeFile : List String :=
  ["Software migration problem specification (100000000000000000000 versions, 1 functionalities)"]

/-- **Both limits are met before any format fault.**  With one digit less, the budget would be
reported as too large; and with fewer versions, the separator that is not there. -/
theorem not_isAnswered_overlongFile :
    (ofSource (.node (overlongFile.map Datum.text)) = .error (.tooManyDigits 4301)
        ∧ ¬IsAnswered overlongFile)
      ∧ ofSource (.node (hugeFile.map Datum.text)) = .error .sideTooLarge
        ∧ ¬IsAnswered hugeFile := by
  have hoverlong : ofSource (.node (overlongFile.map Datum.text))
      = .error (.tooManyDigits 4301) := by
    have hlines : overlongFile.map String.toList
        = ["Software migration problem specification (1 versions, 1 functionalities)".toList,
          "=".toList, "one".toList, "budget: +".toList ++ List.replicate 4301 '9'] := by
      simp only [overlongFile, List.map_cons, List.map_nil, String.toList_append,
        String.toList_ofList]
    rw [ofSource_texts, hlines]
    decide +kernel
  have hhuge : ofSource (.node (hugeFile.map Datum.text)) = .error .sideTooLarge := by
    decide +kernel
  exact ⟨⟨hoverlong, not_isAnswered_of_error hoverlong nofun⟩, hhuge,
    not_isAnswered_of_error hhuge nofun⟩

end MigrationPlan.Problem
