import MigrationPlan.Problem.Text
import MigrationPlan.Proofs.Accepted
import MigrationPlan.Proofs.Datum.Reading
import MigrationPlan.Proofs.Text.Pattern

/-!
# Proofs/Problem/Reading — what the lines of a problem file have to hold

The reader goes through the meaningful lines by position.  Each statement below says of one of its
steps when it succeeds, in terms of the texts of the lines alone: `Announces` is what the first line
has to be, and `IsEntry` what the line of an entry has to be.  Both speak of `Pattern.Matches`, not
of the way in which a match is found.
-/

namespace MigrationPlan

/-- Digits are read unless there are too many of them. -/
theorem Text.digitsToNat_eq_ok {ds : List Char} {n : Nat} :
    digitsToNat ds = .ok n ↔ ds.length ≤ digitLimit ∧ digitsValue ds = n := by
  simp [digitsToNat, refuse_eq_ok]

/-- No run of digits is longer than what a number may be written with. -/
def Text.WithinDigitLimit (cs : List Char) : Prop :=
  ∀ ds, ds <:+: cs → (∀ d ∈ ds, isDigit d) → ds.length ≤ digitLimit

theorem Text.WithinDigitLimit.mono {cs part : List Char} (h : WithinDigitLimit cs)
    (hpart : part <:+: cs) : WithinDigitLimit part :=
  fun ds hds => h ds (hds.trans hpart)

/-- A match has one piece of digits per number of the pattern. -/
theorem Text.Pattern.Matches.length_eq {p : Pattern} {cs : List Char} {ns : List (List Char)}
    (h : p.Matches cs ns) : ns.length = p.count .number := by
  induction h with
  | nil => rfl
  | word _ ih | blanks _ _ ih | someBlanks _ _ _ ih => simpa using ih
  | number _ _ _ ih => simpa using ih

namespace Problem

open Text (Pattern)

/-! ## Meaningful lines -/

/-- A line that holds something: its first character that is no blank is there, and no `#`. -/
def holdsText (l : List Char) : Bool :=
  (l.find? fun c => !Text.isBlank c).any (· ≠ '#')

theorem isMeaningful_trim (l : List Char) : isMeaningful (Text.trim l) = holdsText l := by
  rw [holdsText, ← Text.head?_trim, isMeaningful]
  rcases Text.trim l with _ | ⟨c, cs⟩
  · rfl
  · simp

/-- What the lines that hold something say, without the blanks around it. -/
def texts (ls : List (List Char)) : List (List Char) :=
  (ls.filter holdsText).map Text.trim

theorem map_text_meaningfulFrom (k : Nat) (ls : List (List Char)) :
    (meaningfulFrom k ls).map (·.text) = texts ls := by
  induction ls generalizing k with
  | nil => rfl
  | cons l ls ih =>
    simp only [texts] at ih
    rw [meaningfulFrom, texts]
    simp only [isMeaningful_trim]
    by_cases h : holdsText l <;> simp [h, ih]

/-- **The meaningful lines are those that hold something, trimmed, in their order.** -/
theorem map_text_meaningful (ls : List (List Char)) :
    (meaningful ls).map (·.text) = texts ls :=
  map_text_meaningfulFrom 1 ls

/-! ## Single lines -/

/-- What a line of an entry holds: a keyword, a plus sign, and the digits of an admissible number.
-/
def IsEntry (keyword : String) (n : Nat) (text : List Char) : Prop :=
  ∃ ds, (entryPattern keyword).Matches text [ds] ∧ Text.digitsValue ds = n ∧ n ≤ maxEntry

/-- What the first line holds: the numbers of versions and functionalities, none of them zero. -/
def Announces (n m : Nat) (text : List Char) : Prop :=
  ∃ ds es, specificationPattern.Matches text [ds, es] ∧ Text.digitsValue ds = n
    ∧ Text.digitsValue es = m ∧ 1 ≤ n ∧ 1 ≤ m

theorem separated_entryPattern (keyword : String) : (entryPattern keyword).Separated := by
  simp only [entryPattern, Pattern.Separated]
  decide

theorem separated_specificationPattern : specificationPattern.Separated := by
  decide

variable {c : LineClass} {ls rest : List Line} {line : Line} {keyword : String}

@[simp] theorem nextLine_eq_ok : nextLine c ls = .ok (line, rest) ↔ ls = line :: rest := by
  cases ls <;> simp [nextLine]

theorem nextMatch_eq_ok {p : Pattern} (hp : p.Separated) {ns : List (List Char)} :
    nextMatch c p ls = .ok (line, ns, rest) ↔ ls = line :: rest ∧ p.Matches line.text ns := by
  rw [← Pattern.match?_eq_some_iff hp]
  simp only [nextMatch, bind_eq_ok, Prod.exists, nextLine_eq_ok]
  constructor
  · rintro ⟨l, tail, rfl, h⟩
    rcases hm : p.match? l.text with _ | ms
    · simp [hm] at h
    · obtain ⟨rfl, rfl, rfl⟩ : l = line ∧ ms = ns ∧ tail = rest := by simpa [hm] using h
      exact ⟨rfl, hm⟩
  · rintro ⟨rfl, hm⟩
    exact ⟨line, rest, rfl, by simp [hm]⟩

/-- **A line is read as an entry exactly if it is one**, as long as its digits are not too many. -/
theorem nextEntry_eq_ok {n : Nat} :
    nextEntry c keyword ls = .ok (n, rest) ↔
      ∃ line, ls = line :: rest ∧ ∃ ds, (entryPattern keyword).Matches line.text [ds]
        ∧ ds.length ≤ Text.digitLimit ∧ Text.digitsValue ds = n ∧ n ≤ maxEntry := by
  simp only [nextEntry, bind_eq_ok, Prod.exists, nextMatch_eq_ok (separated_entryPattern keyword),
    error_bind, refuse_eq_ok, Text.digitsToNat_eq_ok, not_lt, Except.ok.injEq, Prod.mk.injEq]
  constructor
  · rintro ⟨line, ns, tail, ⟨rfl, hm⟩, k, ⟨hlimit, hk⟩, hmax, rfl, rfl⟩
    obtain ⟨ds, rfl⟩ := List.length_eq_one_iff.mp (hm.length_eq.trans (by simp [entryPattern]))
    rw [List.flatten_singleton] at hlimit hk
    exact ⟨line, rfl, ds, hm, hlimit, hk, hmax⟩
  · rintro ⟨line, rfl, ds, hm, hlimit, hn, hmax⟩
    exact ⟨line, [ds], rest, ⟨rfl, hm⟩, n, by simpa using ⟨hlimit, hn⟩, hmax, rfl, rfl⟩

/-- **The first line is read exactly if it announces two positive numbers.** -/
theorem readSpecification_eq_ok {n m : Nat} :
    readSpecification ls = .ok (n, m, rest) ↔
      ∃ line, ls = line :: rest ∧ ∃ ds es, specificationPattern.Matches line.text [ds, es]
        ∧ (ds.length ≤ Text.digitLimit ∧ Text.digitsValue ds = n)
        ∧ (es.length ≤ Text.digitLimit ∧ Text.digitsValue es = m) ∧ 1 ≤ n ∧ 1 ≤ m := by
  simp only [readSpecification, bind_eq_ok, Prod.exists,
    nextMatch_eq_ok separated_specificationPattern, error_bind, refuse_eq_ok,
    Text.digitsToNat_eq_ok, Except.ok.injEq, Prod.mk.injEq, Bool.or_eq_true, decide_eq_true_eq,
    not_or, not_lt]
  constructor
  · rintro ⟨line, ns, tail, ⟨rfl, hm⟩, k, hk, l, hl, ⟨hn, hm1⟩, rfl, rfl, rfl⟩
    obtain ⟨ds, es, rfl⟩ := List.length_eq_two.mp (hm.length_eq.trans (by decide))
    exact ⟨line, rfl, ds, es, hm, hk, hl, hn, hm1⟩
  · rintro ⟨line, rfl, ds, es, hm, hn, hm', hn1, hm1⟩
    exact ⟨line, [ds, es], rest, ⟨rfl, hm⟩, n, hn, m, hm', ⟨hn1, hm1⟩, rfl, rfl, rfl⟩

/-! ## Room -/

section Room

variable [Memory]

/-- There is room for the arrays of so many versions and functionalities if there is for both. -/
theorem checkSize_eq_ok {n m : Nat} :
    checkSize n m = .ok () ↔ Fits 8 n ∧ m ≤ maxEntry ∧ Fits 8 (n * m) := by
  have hmatrix (count : Nat) :
      room? 8 ((n : Int) * m) = .ok count ↔ Fits 8 (n * m) ∧ n * m = count := by
    rw [← Int.natCast_mul, room?_natCast_eq_ok]
  simp only [checkSize, bind_eq_ok, error_bind, refuse_eq_ok, not_lt, hmatrix,
    newSide?_natCast_eq_ok (show 1 ≤ 8 by decide)]
  constructor
  · rintro ⟨_, ⟨hversions, -⟩, hfunctionalities, _, ⟨hentries, -⟩, -⟩
    exact ⟨hversions, hfunctionalities, hentries⟩
  · rintro ⟨hversions, hfunctionalities, hentries⟩
    exact ⟨_, ⟨hversions, rfl⟩, hfunctionalities, _, ⟨hentries, rfl⟩, trivial⟩

/-- **There is room for the arrays of a problem.** -/
def HasRoom (p : Problem) : Prop :=
  checkSize p.versions p.functionalities = .ok ()

variable {p : Problem}

/-- Neither side of a problem that has room is larger than an entry may be. -/
theorem HasRoom.sides_le (h : p.HasRoom) :
    p.versions ≤ maxEntry ∧ p.functionalities ≤ maxEntry := by
  obtain ⟨hversions, hfunctionalities, -⟩ := checkSize_eq_ok.mp h
  have hword := (hversions.isWord (by decide)).2
  simp only [maxEntry] at hfunctionalities ⊢
  omega

/-- **A problem in memory**: a well-formed one, whose budgets and whose matrices are arrays that the
machine holds. -/
structure IsHeld (p : Problem) : Prop extends p.WellFormed where
  budgets : Fits 8 p.versions
  matrices : Fits 8 (p.versions * p.functionalities)

/-- There is room for a number for each functionality then, and for a bit. -/
theorem IsHeld.functionalities (held : p.IsHeld) {bytes : Nat} (hbytes : bytes ≤ 8) :
    Fits bytes p.functionalities := by
  refine held.matrices.mono ?_
  calc p.functionalities * bytes
      ≤ p.functionalities * 8 := Nat.mul_le_mul_left _ hbytes
    _ ≤ p.versions * p.functionalities * 8 :=
      Nat.mul_le_mul_right 8 (Nat.le_mul_of_pos_left _ held.one_le_versions)

/-- **The problems in memory are those that have room.** -/
theorem isHeld_iff : p.IsHeld ↔ p.WellFormed ∧ p.HasRoom := by
  rw [HasRoom, checkSize_eq_ok]
  constructor
  · intro held
    have hword := ((held.functionalities (Nat.le_refl 8)).isWord (by decide)).2
    refine ⟨held.toWellFormed, held.budgets, ?_, held.matrices⟩
    simp only [maxEntry]
    omega
  · rintro ⟨valid, budgets, -, matrices⟩
    exact ⟨valid, budgets, matrices⟩

end Room

end Problem

end MigrationPlan
