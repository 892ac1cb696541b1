import MigrationPlan.Proofs.Text.Characters
import MigrationPlan.Text.Lines

/-!
# Proofs/Text/Lines — where texts are cut

Under every rule a line feed ends a line, so what follows one is cut by itself
(**`linesFrom_append_newline`**), and a text made of lines without ends of their own, each followed
by a line feed, is cut into just these lines (`linesFrom_flatMap`).  What ends a line is a blank, so
no digit does.

Texts are gone through from the front by `line_induction`, which takes a carriage return together
with a line feed behind it, as the cut does.  Rules that agree on the characters of a text cut it
alike, and every rule cuts a text as the rule of files cuts it with line feeds in place of the ends
(**`linesFrom_withLineFeeds`**).
-/

namespace MigrationPlan.Text

/-- Whether a character ends a line under a rule. -/
def LineRule.ends (rule : LineRule) (c : Char) : Bool :=
  c = '\n' || c = '\r' || rule c

/-- What ends a line in a file ends one in memory. -/
theorem ends_memoryRule_of_fileRule {c : Char} (h : LineRule.ends fileRule c) :
    LineRule.ends memoryRule c := by
  simp only [LineRule.ends, fileRule, Bool.or_false] at h
  simp [LineRule.ends, h]

theorem isBlank_of_ends {c : Char} (h : LineRule.ends memoryRule c) : isBlank c := by
  have hseparators : ∀ k ∈ [0x0A, 0x0D, 0x0B, 0x0C, 0x1C, 0x1D, 0x1E, 0x85, 0x2028, 0x2029],
      ∃ r ∈ blankRanges, r.1 ≤ k ∧ k ≤ r.2 := by decide
  refine isBlank_iff.mpr (hseparators c.toNat ?_)
  simp only [LineRule.ends, Bool.or_eq_true, decide_eq_true_eq] at h
  rcases h with (rfl | rfl) | h
  · decide
  · decide
  · exact List.mem_cons_of_mem _ (List.mem_cons_of_mem _ (List.contains_iff_mem.mp h))

/-- **A digit ends no line.** -/
theorem ends_eq_false_of_isDigit {c : Char} (h : isDigit c) :
    LineRule.ends memoryRule c = false := by
  refine Bool.eq_false_iff.mpr fun hends => ?_
  rw [isDigit_eq_false_of_isBlank (isBlank_of_ends hends)] at h
  exact Bool.false_ne_true h

/-- Whether nothing in a text ends a line. -/
def isSingleLine (s : String) : Bool :=
  s.toList.all fun c => !LineRule.ends memoryRule c

theorem isSingleLine_iff {s : String} :
    isSingleLine s ↔ ∀ c ∈ s.toList, LineRule.ends memoryRule c = false := by
  simp [isSingleLine]

theorem isSingleLine_append {s t : String} :
    isSingleLine (s ++ t) ↔ isSingleLine s ∧ isSingleLine t := by
  simp [isSingleLine]

/-- A number is written on one line. -/
theorem isSingleLine_toString (n : Nat) : isSingleLine (toString n) :=
  isSingleLine_iff.mpr fun c hc =>
    ends_eq_false_of_isDigit (isDigit_of_mem_toDigits (by simpa using hc))

/-- A character that is no carriage return is looked at by itself. -/
theorem linesFrom_cons {rule : LineRule} {line cs : List Char} {c : Char} (h : c ≠ '\r') :
    linesFrom rule line (c :: cs)
      = if rule.ends c then line.reverse :: linesFrom rule [] cs
        else linesFrom rule (c :: line) cs := by
  rw [linesFrom]
  · rfl
  · rintro rest hc -
    exact h hc

theorem linesFrom_append {rule : LineRule} {line cs rest : List Char}
    (h : ∀ c ∈ cs, rule.ends c = false) :
    linesFrom rule line (cs ++ '\n' :: rest) = (line.reverse ++ cs) :: linesFrom rule [] rest := by
  induction cs generalizing line with
  | nil => rw [List.nil_append, linesFrom_cons (by decide), if_pos (by simp [LineRule.ends]),
      List.append_nil]
  | cons c cs ih =>
    obtain ⟨hc, hcs⟩ := List.forall_mem_cons.mp h
    have hreturn : c ≠ '\r' := by
      rintro rfl
      simp [LineRule.ends] at hc
    rw [List.cons_append, linesFrom_cons hreturn, if_neg (by simp [hc]), ih hcs, List.reverse_cons,
      List.append_assoc, List.singleton_append]

/-! ## Carriage returns -/

/-- A text without a line feed at its start. -/
def dropFeed : List Char → List Char
  | '\n' :: cs => cs
  | cs => cs

theorem dropFeed_suffix (cs : List Char) : dropFeed cs <:+ cs := by
  fun_cases dropFeed cs with
  | case1 cs => exact List.suffix_cons _ cs
  | case2 => exact List.suffix_rfl

theorem dropFeed_append {cs : List Char} (h : cs ≠ []) (more : List Char) :
    dropFeed (cs ++ more) = dropFeed cs ++ more := by
  fun_cases dropFeed cs with
  | case1 cs => rfl
  | case2 cs hfeed =>
    obtain ⟨c, cs, rfl⟩ := List.exists_cons_of_ne_nil h
    rw [List.cons_append, dropFeed]
    rintro rest hrest
    obtain ⟨rfl, -⟩ := List.cons.inj hrest
    exact hfeed cs rfl

/-- **Texts from the front**, where a carriage return goes together with a line feed behind it. -/
@[elab_as_elim]
theorem line_induction {P : List Char → Prop} (nil : P [])
    (carriage : ∀ cs, P (dropFeed cs) → P ('\r' :: cs))
    (char : ∀ c cs, c ≠ '\r' → P cs → P (c :: cs)) (cs : List Char) : P cs :=
  match cs with
  | [] => nil
  | c :: cs =>
    if h : c = '\r' then
      h ▸ carriage cs (line_induction nil carriage char (dropFeed cs))
    else char c cs h (line_induction nil carriage char cs)
termination_by cs.length
decreasing_by
  · exact Nat.lt_succ_of_le (dropFeed_suffix cs).length_le
  · exact Nat.lt_succ_self _

theorem linesFrom_nil (rule : LineRule) (line : List Char) :
    linesFrom rule line [] = if line = [] then [] else [line.reverse] := by
  cases line <;> simp [linesFrom]

/-- A carriage return ends a line, together with a line feed behind it. -/
theorem linesFrom_return (rule : LineRule) (line cs : List Char) :
    linesFrom rule line ('\r' :: cs) = line.reverse :: linesFrom rule [] (dropFeed cs) := by
  fun_cases dropFeed cs with
  | case1 cs => rw [linesFrom]
  | case2 cs hfeed =>
    rw [linesFrom]
    · simp
    · exact fun rest _ hrest => hfeed rest hrest

/-! ## Line feeds -/

/-- **What follows a line feed is cut by itself.** -/
theorem linesFrom_append_newline (rule : LineRule) (line cs rest : List Char) :
    linesFrom rule line (cs ++ '\n' :: rest)
      = linesFrom rule line (cs ++ ['\n']) ++ linesFrom rule [] rest := by
  have hfeed : rule.ends '\n' := by simp [LineRule.ends]
  induction cs using line_induction generalizing line with
  | nil =>
    rw [List.nil_append, List.nil_append, linesFrom_cons (by decide), linesFrom_cons (by decide),
      if_pos hfeed, if_pos hfeed, linesFrom_nil, if_pos rfl]
    rfl
  | carriage cs ih =>
    rw [List.cons_append, List.cons_append, linesFrom_return, linesFrom_return, List.cons_append]
    rcases eq_or_ne cs [] with rfl | hcs
    · simp only [List.nil_append, dropFeed, linesFrom_nil, if_pos]
    · rw [dropFeed_append hcs, dropFeed_append hcs, ih]
  | char c cs hc ih =>
    rw [List.cons_append, List.cons_append, linesFrom_cons hc, linesFrom_cons hc]
    split_ifs
    · rw [ih, List.cons_append]
    · exact ih (c :: line)

/-- Lines that end in a line feed are cut one by one. -/
theorem linesFrom_flatMap_append (rule : LineRule) (ls : List (List Char)) (rest : List Char) :
    linesFrom rule [] ((ls.flatMap fun l => l ++ ['\n']) ++ rest)
      = (ls.flatMap fun l => linesFrom rule [] (l ++ ['\n'])) ++ linesFrom rule [] rest := by
  induction ls with
  | nil => rfl
  | cons l ls ih =>
    simp only [List.flatMap_cons, List.append_assoc, List.cons_append]
    exact (linesFrom_append_newline rule [] l _).trans (congrArg _ ih)

/-- A line without ends of its own is one line. -/
theorem linesFrom_singleLine {rule : LineRule} {l : List Char} (h : ∀ c ∈ l, rule.ends c = false) :
    linesFrom rule [] (l ++ ['\n']) = [l] := by
  rw [linesFrom_append h, linesFrom, List.reverse_nil, List.nil_append]

/-- **Lines without ends of their own are the lines of the text they make up.** -/
theorem linesFrom_flatMap {rule : LineRule} {ls : List (List Char)}
    (h : ∀ l ∈ ls, ∀ c ∈ l, rule.ends c = false) :
    linesFrom rule [] (ls.flatMap fun l => l ++ ['\n']) = ls := by
  have hlines : (ls.flatMap fun l => linesFrom rule [] (l ++ ['\n'])) = ls.flatMap fun l => [l] :=
    List.flatMap_congr fun l hl => linesFrom_singleLine (h l hl)
  rw [← List.append_nil (ls.flatMap _), linesFrom_flatMap_append, hlines, List.flatMap_singleton',
    linesFrom, List.append_nil]

/-! ## Two rules for one text -/

/-- **Rules that agree on the characters of a text cut it alike.** -/
theorem linesFrom_congr {rule rule' : LineRule} {line cs : List Char}
    (h : ∀ c ∈ cs, rule.ends c = rule'.ends c) :
    linesFrom rule line cs = linesFrom rule' line cs := by
  induction cs using line_induction generalizing line with
  | nil => rw [linesFrom_nil, linesFrom_nil]
  | carriage cs ih =>
    rw [linesFrom_return, linesFrom_return]
    exact congrArg _ (ih fun c hc => h c (List.mem_cons_of_mem _ ((dropFeed_suffix cs).mem hc)))
  | char c cs hc ih =>
    obtain ⟨hends, h⟩ := List.forall_mem_cons.mp h
    rw [linesFrom_cons hc, linesFrom_cons hc, hends, ih h, ih h]

/-- A text in which a line feed stands for whatever ends a line under a rule. -/
def withLineFeeds (rule : LineRule) : List Char → List Char
  | [] => []
  | '\r' :: '\n' :: cs => '\n' :: withLineFeeds rule cs
  | c :: cs => (if rule.ends c then '\n' else c) :: withLineFeeds rule cs

theorem withLineFeeds_cons {rule : LineRule} {c : Char} (h : c ≠ '\r') (cs : List Char) :
    withLineFeeds rule (c :: cs)
      = (if rule.ends c then '\n' else c) :: withLineFeeds rule cs := by
  rw [withLineFeeds]
  rintro rest hc -
  exact h hc

theorem withLineFeeds_return (rule : LineRule) (cs : List Char) :
    withLineFeeds rule ('\r' :: cs) = '\n' :: withLineFeeds rule (dropFeed cs) := by
  fun_cases dropFeed cs with
  | case1 cs => rw [withLineFeeds]
  | case2 cs hfeed =>
    rw [withLineFeeds]
    · simp [LineRule.ends]
    · exact fun rest _ hrest => hfeed rest hrest

/-- **Every rule cuts a text as the rule of files cuts it with line feeds.** -/
theorem linesFrom_withLineFeeds (rule : LineRule) (line cs : List Char) :
    linesFrom fileRule line (withLineFeeds rule cs) = linesFrom rule line cs := by
  have hfeed : LineRule.ends fileRule '\n' := by decide
  induction cs using line_induction generalizing line with
  | nil => rw [withLineFeeds, linesFrom_nil, linesFrom_nil]
  | carriage cs ih =>
    rw [withLineFeeds_return, linesFrom_cons (by decide), if_pos hfeed, ih, linesFrom_return]
  | char c cs hc ih =>
    rw [withLineFeeds_cons hc, linesFrom_cons hc]
    by_cases hends : rule.ends c
    · rw [if_pos hends, linesFrom_cons (by decide), if_pos hfeed, if_pos hends, ih]
    · have hfile : ¬LineRule.ends fileRule c := by
        simp only [LineRule.ends, fileRule, Bool.or_false] at hends ⊢
        exact fun h => hends (by simp [h])
      rw [if_neg hends, linesFrom_cons hc, if_neg hfile, if_neg hends, ih]

end MigrationPlan.Text
