import MigrationPlan.Text.Path

/-!
# Proofs/Text/Split — parts that come back, and paths in normal form

Parts that hold no separator come back when the text they are joined to is cut again:
**`split_join`**.  A path in normal form is its root and its parts, so that putting it into normal
form changes nothing: **`normalPath_normalPath`**.
-/

namespace MigrationPlan.Text

variable {separator : Char} {part cs : List Char} {parts : List (List Char)}

/-! ## Parts -/

theorem split_of_not_mem (h : separator ∉ cs) : split separator cs = [cs] := by
  induction cs with
  | nil => rfl
  | cons c cs ih =>
    rw [List.mem_cons, not_or] at h
    rw [split, if_neg fun hc => h.1 hc.symm, ih h.2]

/-- The first part ends at the first separator. -/
theorem split_append_cons (h : separator ∉ part) :
    split separator (part ++ separator :: cs) = part :: split separator cs := by
  induction part with
  | nil => simp [split]
  | cons c part ih =>
    rw [List.mem_cons, not_or] at h
    rw [List.cons_append, split, if_neg fun hc => h.1 hc.symm, ih h.2]

/-- **Parts that hold no separator come back.** -/
theorem split_join (nonempty : parts ≠ []) (plain : ∀ part ∈ parts, separator ∉ part) :
    split separator (join separator parts) = parts := by
  fun_induction join separator parts with
  | case1 => exact absurd rfl nonempty
  | case2 part => exact split_of_not_mem (plain part (List.mem_singleton_self part))
  | case3 part parts hparts ih =>
    obtain ⟨hpart, hplain⟩ := List.forall_mem_cons.mp plain
    rw [split_append_cons hpart, ih hparts hplain]

/-- Joining adds separators and nothing else. -/
theorem mem_join {c : Char} (h : c ∈ join separator parts) :
    c = separator ∨ ∃ part ∈ parts, c ∈ part := by
  fun_induction join separator parts with
  | case1 => exact absurd h List.not_mem_nil
  | case2 part => exact .inr ⟨part, List.mem_singleton_self part, h⟩
  | case3 part parts hparts ih =>
    obtain hpart | hc | hrest : _ ∨ _ ∨ _ := by simpa only [List.mem_append, List.mem_cons] using h
    · exact .inr ⟨part, List.mem_cons_self .., hpart⟩
    · exact .inl hc
    · obtain hc | ⟨other, hother, hc⟩ := ih hrest
      · exact .inl hc
      · exact .inr ⟨other, List.mem_cons_of_mem _ hother, hc⟩

theorem not_mem_of_mem_split (h : part ∈ split separator cs) : separator ∉ part := by
  induction cs generalizing part with
  | nil =>
    rw [List.mem_singleton.mp h]
    exact List.not_mem_nil
  | cons c cs ih =>
    rw [split] at h
    split at h
    · obtain rfl | h := List.mem_cons.mp h
      · exact List.not_mem_nil
      · exact ih h
    · next hc =>
      obtain ⟨first, rest, hsplit⟩ := List.exists_cons_of_ne_nil (split_ne_nil separator cs)
      rw [hsplit] at h ih
      obtain rfl | h := List.mem_cons.mp h
      · rw [List.mem_cons, not_or]
        exact ⟨fun hc' => hc hc'.symm, ih (List.mem_cons_self ..)⟩
      · exact ih (List.mem_cons_of_mem _ h)

/-! ## Paths -/

/-- The parts of a path that count hold characters, but no slash. -/
theorem of_mem_pathParts (h : part ∈ pathParts cs) : part ≠ [] ∧ part ≠ ['.'] ∧ '/' ∉ part := by
  rw [pathParts, List.mem_filter] at h
  obtain ⟨hsplit, hcounts⟩ := h
  simp only [Bool.and_eq_true, Bool.not_eq_true', List.isEmpty_eq_false_iff,
    decide_eq_true_eq] at hcounts
  exact ⟨hcounts.1, hcounts.2, not_mem_of_mem_split hsplit⟩

/-- Parts that count are the parts of what they are joined to. -/
theorem pathParts_join (counts : ∀ part ∈ parts, part ≠ [] ∧ part ≠ ['.'] ∧ '/' ∉ part) :
    pathParts (join '/' parts) = parts := by
  by_cases hparts : parts = []
  · rw [hparts]
    rfl
  rw [pathParts, split_join hparts fun part h => (counts part h).2.2, List.filter_eq_self]
  intro part h
  simp [counts part h]

/-- A slash in front ends no part that counts. -/
theorem pathParts_slash (cs : List Char) : pathParts ('/' :: cs) = pathParts cs := by
  simp [pathParts, split]

/-- What parts that count are joined to begins with no slash. -/
theorem takeWhile_join (counts : ∀ part ∈ parts, part ≠ [] ∧ part ≠ ['.'] ∧ '/' ∉ part) :
    (join '/' parts).takeWhile (· = '/') = [] := by
  rcases parts with _ | ⟨part, parts⟩
  · rfl
  obtain ⟨hne, -, hslash⟩ := counts part (List.mem_cons_self ..)
  obtain ⟨c, part, rfl⟩ := List.exists_cons_of_ne_nil hne
  obtain ⟨rest, hrest⟩ : ∃ rest, join '/' ((c :: part) :: parts) = c :: rest := by
    cases parts <;> exact ⟨_, rfl⟩
  rw [List.mem_cons, not_or] at hslash
  rw [hrest]
  exact List.takeWhile_cons_of_neg (by simpa using fun h : c = '/' => hslash.1 h.symm)

/-- The root of a path is nothing, a slash or two. -/
theorem pathRoot_cases (cs : List Char) :
    pathRoot cs = [] ∨ pathRoot cs = ['/'] ∨ pathRoot cs = ['/', '/'] := by
  rw [pathRoot]
  split <;> simp

/-- **A path in normal form is in normal form.** -/
theorem normalPath_normalPath (s : String) : normalPath (normalPath s) = normalPath s := by
  have counts (part : List Char) (h : part ∈ pathParts s.toList) :
      part ≠ [] ∧ part ≠ ['.'] ∧ '/' ∉ part := of_mem_pathParts h
  have hroot := pathRoot_cases s.toList
  rw [normalPath.eq_def s]
  generalize pathRoot s.toList = root at hroot
  generalize pathParts s.toList = parts at counts
  rw [pathOfParts]
  split
  · rfl
  next hsome =>
    -- root and parts are those of the path they make up
    have hparts : pathParts (root ++ join '/' parts) = parts := by
      obtain rfl | rfl | rfl := hroot <;> simp [pathParts_slash, pathParts_join counts]
    have hroot' : pathRoot (root ++ join '/' parts) = root := by
      obtain rfl | rfl | rfl := hroot <;> simp [pathRoot, takeWhile_join counts]
    rw [normalPath, String.toList_ofList, hparts, hroot', pathOfParts, if_neg hsome]

end MigrationPlan.Text
