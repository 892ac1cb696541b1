import MigrationPlan.Proofs.Text.Characters
import MigrationPlan.Text.Pattern
import Mathlib.Data.List.TakeWhile

/-!
# Proofs/Text/Pattern — a greedy match finds what there is to find

`Pattern.Matches` says what a pattern is about: the text is cut into one piece per token, and each
piece is of its token's kind.  Any cut will do.  `Pattern.match?` looks at one cut only, the greedy
one.

* `matches_of_match?_eq_some` — that cut is one, for every pattern;
* **`match?_eq_some_iff`** — it is the only one if the pattern is `Separated`: behind blanks there
  is nothing that could be a blank, and behind a number nothing that could be a digit.
-/

namespace MigrationPlan.Text.Pattern

/-! ## What a pattern matches -/

/-- A text cut into pieces, one per token, and the pieces of the numbers. -/
inductive Matches : Pattern → List Char → List (List Char) → Prop
  | nil : Matches [] [] []
  | word {s : String} {rest : Pattern} {cs : List Char} {ns : List (List Char)} :
      Matches rest cs ns → Matches (.word s :: rest) (s.toList ++ cs) ns
  | blanks {bs : List Char} {rest : Pattern} {cs : List Char} {ns : List (List Char)} :
      (∀ b ∈ bs, isBlank b) → Matches rest cs ns → Matches (.blanks :: rest) (bs ++ cs) ns
  | someBlanks {bs : List Char} {rest : Pattern} {cs : List Char} {ns : List (List Char)} :
      bs ≠ [] → (∀ b ∈ bs, isBlank b) → Matches rest cs ns →
        Matches (.someBlanks :: rest) (bs ++ cs) ns
  | number {ds : List Char} {rest : Pattern} {cs : List Char} {ns : List (List Char)} :
      ds ≠ [] → (∀ d ∈ ds, isDigit d) → Matches rest cs ns →
        Matches (.number :: rest) (ds ++ cs) (ds :: ns)

/-- The numbers are pieces of the text. -/
theorem Matches.infix_of_mem {p : Pattern} {cs ds : List Char} {ns : List (List Char)}
    (h : p.Matches cs ns) (hds : ds ∈ ns) : ds <:+: cs := by
  induction h with
  | nil => simp at hds
  | word _ ih => exact (ih hds).trans (List.suffix_append ..).isInfix
  | blanks _ _ ih => exact (ih hds).trans (List.suffix_append ..).isInfix
  | someBlanks _ _ _ ih => exact (ih hds).trans (List.suffix_append ..).isInfix
  | number _ _ _ ih =>
    rcases List.mem_cons.mp hds with rfl | hds
    · exact (List.prefix_append ..).isInfix
    · exact (ih hds).trans (List.suffix_append ..).isInfix

/-- The numbers consist of digits. -/
theorem Matches.isDigit_of_mem {p : Pattern} {cs ds : List Char} {ns : List (List Char)}
    (h : p.Matches cs ns) (hds : ds ∈ ns) : ∀ d ∈ ds, isDigit d := by
  induction h with
  | nil => simp at hds
  | word _ ih | blanks _ _ ih | someBlanks _ _ _ ih => exact ih hds
  | number _ hd _ ih =>
    rcases List.mem_cons.mp hds with rfl | hds
    · exact hd
    · exact ih hds

/-! Pieces as they are written: single spaces, and numbers by their decimal digits. -/

section Written

variable {p : Pattern} {cs : List Char} {ns : List (List Char)}

theorem Matches.noBlank (h : p.Matches cs ns) : Matches (.blanks :: p) cs ns :=
  .blanks (List.forall_mem_nil _) h

theorem isBlank_space : isBlank ' ' := by decide

theorem Matches.blank (h : p.Matches cs ns) : Matches (.blanks :: p) (' ' :: cs) ns :=
  .blanks (List.forall_mem_singleton.mpr isBlank_space) h

theorem Matches.oneBlank (h : p.Matches cs ns) : Matches (.someBlanks :: p) (' ' :: cs) ns :=
  .someBlanks (List.cons_ne_nil _ _) (List.forall_mem_singleton.mpr isBlank_space) h

theorem Matches.decimal (n : Nat) (h : p.Matches cs ns) :
    Matches (.number :: p) (Nat.toDigits 10 n ++ cs) (Nat.toDigits 10 n :: ns) :=
  .number Nat.toDigits_ne_nil (fun _ hd => isDigit_of_mem_toDigits hd) h

end Written

/-! ## Separated patterns -/

/-- Whether nothing that matches can start with a blank. -/
def startsUnblank : Pattern → Bool
  | [] | .number :: _ => true
  | .word s :: _ => s.toList.head?.any fun c => !isBlank c
  | _ => false

/-- Whether nothing that matches can start with a digit. -/
def startsUndigit : Pattern → Bool
  | [] | .someBlanks :: _ => true
  | .word s :: _ => s.toList.head?.any fun c => !isDigit c
  | _ => false

/-- **No token can take over characters of the next one.** -/
def Separated : Pattern → Bool
  | [] => true
  | .word _ :: rest => Separated rest
  | .blanks :: rest | .someBlanks :: rest => startsUnblank rest && Separated rest
  | .number :: rest => startsUndigit rest && Separated rest

/-- The first character of a text that a word begins. -/
theorem head?_append_of_any {p : Char → Bool} {w cs : List Char} {c : Char}
    (h : w.head?.any p) (hc : (w ++ cs).head? = some c) : p c := by
  cases w with
  | nil => simp at h
  | cons d w =>
    obtain rfl : d = c := by simpa using hc
    simpa using h

theorem Matches.not_isBlank_head? {p : Pattern} {cs : List Char} {ns : List (List Char)}
    (h : p.Matches cs ns) (hp : p.startsUnblank) {c : Char} (hc : cs.head? = some c) :
    isBlank c = false := by
  cases h with
  | nil => simp at hc
  | word _ => simpa using head?_append_of_any (p := fun c => !isBlank c) hp hc
  | blanks _ _ | someBlanks _ _ _ => simp [startsUnblank] at hp
  | number hne hd _ =>
    obtain ⟨d, ds, rfl⟩ := List.exists_cons_of_ne_nil hne
    obtain rfl : d = c := by simpa using hc
    exact isBlank_eq_false_of_isDigit (hd d (List.mem_cons_self ..))

theorem Matches.not_isDigit_head? {p : Pattern} {cs : List Char} {ns : List (List Char)}
    (h : p.Matches cs ns) (hp : p.startsUndigit) {c : Char} (hc : cs.head? = some c) :
    isDigit c = false := by
  cases h with
  | nil => simp at hc
  | word _ => simpa using head?_append_of_any (p := fun c => !isDigit c) hp hc
  | blanks _ _ | number _ _ _ => simp [startsUndigit] at hp
  | someBlanks hne hb _ =>
    obtain ⟨b, bs, rfl⟩ := List.exists_cons_of_ne_nil hne
    obtain rfl : b = c := by simpa using hc
    exact isDigit_eq_false_of_isBlank (hb b (List.mem_cons_self ..))

/-! ## The greedy cut -/

/-- A run ends where the next character is of another class. -/
theorem span_append {p : Char → Bool} {xs cs : List Char} (hxs : ∀ x ∈ xs, p x)
    (hcs : ∀ c, cs.head? = some c → p c = false) :
    (xs ++ cs).takeWhile p = xs ∧ (xs ++ cs).dropWhile p = cs := by
  rw [List.takeWhile_append_of_pos hxs, List.dropWhile_append_of_pos hxs]
  cases cs with
  | nil => simp
  | cons c cs => simp [hcs c rfl]

theorem afterWord?_eq_some {w cs rest : List Char} :
    afterWord? w cs = some rest ↔ cs = w ++ rest := by
  induction w generalizing cs with
  | nil => simp [afterWord?]
  | cons c w ih =>
    cases cs with
    | nil => simp [afterWord?]
    | cons d cs =>
      rw [afterWord?]
      split_ifs with h
      · simp [ih, h]
      · simp [Ne.symm h]

/-- **What the greedy match finds is there.** -/
theorem matches_of_match?_eq_some {p : Pattern} {cs : List Char} {ns : List (List Char)}
    (h : p.match? cs = some ns) : p.Matches cs ns := by
  induction p generalizing cs ns with
  | nil =>
    simp only [match?, List.isEmpty_iff, Option.ite_none_right_eq_some, Option.some.injEq] at h
    obtain ⟨rfl, rfl⟩ := h
    exact .nil
  | cons t rest ih =>
    cases t with
    | word s =>
      obtain ⟨left, hleft, h⟩ := Option.bind_eq_some_iff.mp h
      rw [afterWord?_eq_some.mp hleft]
      exact .word (ih h)
    | blanks =>
      rw [← List.takeWhile_append_dropWhile (p := isBlank) (l := cs)]
      exact .blanks (fun b hb => List.mem_takeWhile_imp hb) (ih h)
    | someBlanks =>
      cases cs with
      | nil => simp [match?] at h
      | cons c cs =>
        simp only [match?, Option.ite_none_right_eq_some] at h
        obtain ⟨hc, h⟩ := h
        rw [← List.takeWhile_append_dropWhile (p := isBlank) (l := cs), ← List.cons_append]
        refine .someBlanks (by simp) (fun b hb => ?_) (ih h)
        rcases List.mem_cons.mp hb with rfl | hb
        · exact hc
        · exact List.mem_takeWhile_imp hb
    | number =>
      simp only [match?, List.isEmpty_iff, Option.ite_none_left_eq_some, Option.map_eq_some_iff]
        at h
      obtain ⟨hne, ms, h, rfl⟩ := h
      have hmatch := Matches.number hne (fun d hd => List.mem_takeWhile_imp hd) (ih h)
      rwa [List.takeWhile_append_dropWhile] at hmatch

/-- **Nothing else is there to find if the pattern is separated.** -/
theorem Matches.match?_eq_some {p : Pattern} {cs : List Char} {ns : List (List Char)}
    (h : p.Matches cs ns) (hp : p.Separated) : p.match? cs = some ns := by
  induction h with
  | nil => rfl
  | word _ ih => exact Option.bind_eq_some_iff.mpr ⟨_, afterWord?_eq_some.mpr rfl, ih hp⟩
  | blanks hb hrest ih =>
    simp only [Separated, Bool.and_eq_true] at hp
    rw [match?, (span_append hb fun _ => hrest.not_isBlank_head? hp.1).2]
    exact ih hp.2
  | @someBlanks bs _ _ _ hne hb hrest ih =>
    simp only [Separated, Bool.and_eq_true] at hp
    obtain ⟨b, bs, rfl⟩ := List.exists_cons_of_ne_nil hne
    obtain ⟨hb, hbs⟩ := List.forall_mem_cons.mp hb
    rw [List.cons_append, match?, if_pos hb,
      (span_append hbs fun _ => hrest.not_isBlank_head? hp.1).2]
    exact ih hp.2
  | number hne hd hrest ih =>
    simp only [Separated, Bool.and_eq_true] at hp
    obtain ⟨htake, hdrop⟩ := span_append hd fun _ => hrest.not_isDigit_head? hp.1
    simp [match?, htake, hdrop, hne, ih hp.2]

/-- **A separated pattern matches in one way only.** -/
theorem Matches.unique {p : Pattern} {cs : List Char} {ms ns : List (List Char)}
    (hm : p.Matches cs ms) (hn : p.Matches cs ns) (hp : p.Separated) : ms = ns :=
  Option.some.inj ((hm.match?_eq_some hp).symm.trans (hn.match?_eq_some hp))

theorem match?_eq_some_iff {p : Pattern} {cs : List Char} {ns : List (List Char)}
    (hp : p.Separated) : p.match? cs = some ns ↔ p.Matches cs ns :=
  ⟨matches_of_match?_eq_some, fun h => h.match?_eq_some hp⟩

end MigrationPlan.Text.Pattern
