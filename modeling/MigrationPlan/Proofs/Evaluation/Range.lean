import MigrationPlan.Proofs.Evaluation.Exactness
import MigrationPlan.Proofs.Numeric.Nearest
import MigrationPlan.Proofs.Variable.Invariant

/-!
# Proofs/Evaluation/Range — no run leads to a variable without a finite evaluation

Rounding can make a sum larger at every addition.  It adds no more than the smaller term each time,
so that the square of the number of terms bounds the sum in whatever order it is added up
(`addsUp_withinSquare`).  Entries are below `2 ^ 63`, as is their number, so that all sums are
finite: `Problem.inRange_evaluateColumns`.

A fresh variable selects nothing, and no write takes it out of the variables that hold a selection
(`exists_holds_of_becomes`).  So **`evaluate_inRange_of_run`**: in every state of every run it has
an evaluation, and all numbers of this are finite and have their sign.
-/

namespace MigrationPlan

open Binary64

/-! ## Sums of entries -/

/-- **The bound on a sum of so many entries**: zero or more, and at most `2 ^ 63` for each pair of
them. -/
def WithinSquare (x : Binary64) (n : Nat) : Prop :=
  n ≤ 2 ^ 64 → ∃ q, x.extended? = some (.point q) ∧ 0 ≤ q ∧ q ≤ (n : Rat) ^ 2 * 2 ^ 63

/-- So many entries are far from the largest double. -/
theorem sq_mul_lt {n : Nat} (hn : n ≤ 2 ^ 64) : (n : Rat) ^ 2 * 2 ^ 63 < 2 ^ 1024 := by
  have hcast : (n : Rat) ≤ 2 ^ 64 := by exact_mod_cast hn
  calc (n : Rat) ^ 2 * 2 ^ 63 ≤ (2 ^ 64) ^ 2 * 2 ^ 63 := by gcongr
    _ = 2 ^ 191 := by norm_num
    _ < 2 ^ 1024 := pow_lt_pow_right₀ one_lt_two (by norm_num)

/-- **The bounds add up**: the smaller term is at most the product of both numbers of entries. -/
theorem addsUp_withinSquare : AddsUp WithinSquare where
  zero _ := ⟨0, extended?_ofNat_zero, le_rfl, by norm_num⟩
  add {x y m n} hx hy hsum := by
    obtain ⟨p, hp, hp0, hpm⟩ := hx (by omega)
    obtain ⟨q, hq, hq0, hqn⟩ := hy (by omega)
    have hmin : min p q ≤ m * n * 2 ^ 63 := by
      rcases le_total m n with hle | hle
      · have hcast : (m : Rat) ≤ n := Nat.cast_le.mpr hle
        calc min p q ≤ m * m * 2 ^ 63 := (min_le_left p q).trans (hpm.trans_eq (by ring))
          _ ≤ m * n * 2 ^ 63 := by gcongr
      · have hcast : (n : Rat) ≤ m := Nat.cast_le.mpr hle
        calc min p q ≤ n * n * 2 ^ 63 := (min_le_right p q).trans (hqn.trans_eq (by ring))
          _ ≤ m * n * 2 ^ 63 := by gcongr
    have hmixed : (0 : Rat) ≤ m * n * 2 ^ 63 := by positivity
    have hsquare : p + q + min p q ≤ ((m + n : Nat) : Rat) ^ 2 * 2 ^ 63 := by
      push_cast
      linarith [add_sq (m : Rat) n]
    obtain ⟨r, hr, hr0, hle⟩ := exists_add_le hp hq hp0 hq0 (hsquare.trans_lt (sq_mul_lt hsum))
    exact ⟨r, hr, hr0, hle.trans hsquare⟩

/-- A single entry. -/
theorem withinSquare_ofInt {n : Nat} (hn : n ≤ 2 ^ 63) : WithinSquare (ofInt n) 1 := by
  intro _
  have hceiling : HasCeiling 63 (ofInt n) (2 ^ 63) :=
    hasCeiling_ofInt (by decide) (Nat.dvd_refl _) hn
  obtain ⟨q, hq, hq0, hle⟩ := hceiling.atMost (by decide)
  exact ⟨q, hq, hq0, hle.trans_eq (by norm_num)⟩

/-! ## Overruns -/

/-- An overrun of magnitudes is a magnitude. -/
theorem exists_overrun {cost budget : Binary64} {p q : Rat}
    (hcost : cost.extended? = some (.point p)) (hbudget : budget.extended? = some (.point q))
    (hq : 0 ≤ q) (hlimit : p < 2 ^ 1024) :
    ∃ r, (overrun cost budget).extended? = some (.point r) ∧ 0 ≤ r := by
  have hsign := sub_le_zero_iff hcost hbudget
  rw [Extended.point_le_point] at hsign
  rcases le_or_gt p q with hle | hlt
  · obtain ⟨d, hd, -⟩ := extended?_ofRat_of_nonpos (sub_nonpos.mpr hle)
    rw [overrun_of_le ((extended?_sub hcost hbudget).trans hd) (hsign.mpr hle)]
    exact ⟨0, extended?_ofNat_zero, le_rfl⟩
  · obtain ⟨r, hr, hr0, -⟩ := exists_sub_le hcost hbudget hq hlt.le hlimit
    rw [overrun_of_not_le hr (mt hsign.mp hlt.not_ge)]
    exact ⟨r, hr, hr0⟩

/-! ## Evaluations -/

/-- **What can be relied on in an evaluation**: one finite number per version that is not positive,
to minimise, one that is not negative, as overrun, and functionalities in ascending order. -/
structure Evaluation.InRange (r : Evaluation) (p : Problem) : Prop where
  length_minimized : r.minimized.length = p.versions
  length_overruns : r.overruns.length = p.versions
  minimized : ∀ x ∈ r.minimized, x.isFinite ∧ x.le 0
  overruns : ∀ x ∈ r.overruns, x.isFinite ∧ (0 : Binary64).le x
  ascending : r.selected.Pairwise (· < ·)
  selected : ∀ f ∈ r.selected, f < p.functionalities

namespace Problem

variable {p : Problem} {S : Finset Nat}

/-- A sum over a selection is finite and not negative. -/
theorem exists_rowSum {row : List Nat} (hrow : ∀ x ∈ row, x ≤ maxEntry)
    (hS : ∀ f ∈ S, f < row.length) (sized : Entry.IsWord row.length) (versions : Nat) :
    ∃ q, (rowSum versions row S.sort).extended? = some (.point q) ∧ 0 ≤ q ∧ q < 2 ^ 1024 := by
  have hcard : S.card ≤ 2 ^ 64 := by
    have hsub : S ⊆ Finset.range row.length := fun f hf => Finset.mem_range.mpr (hS f hf)
    have hle := Finset.card_le_card hsub
    have hword := sized.2
    rw [Finset.card_range] at hle
    omega
  have hentry (f : Nat) (hf : f ∈ S) : WithinSquare (ofInt (row.getD f 0)) 1 := by
    exact withinSquare_ofInt ((hrow _ (getD_mem 0 (hS f hf))).trans (by decide))
  have hsum : WithinSquare (rowSum versions row S.sort) (∑ _ ∈ S, 1) :=
    rel_rowSum addsUp_withinSquare versions hentry
  rw [Finset.sum_const, nsmul_one, Nat.cast_id] at hsum
  obtain ⟨q, hq, hq0, hle⟩ := hsum hcard
  exact ⟨q, hq, hq0, hle.trans_lt (sq_mul_lt hcard)⟩

/-- The same for the rows of a matrix. -/
theorem IsMatrix.exists_rowSum {m : List (List Nat)} (hm : IsMatrix p.versions p.functionalities m)
    (hS : ∀ f ∈ S, f < p.functionalities) (sized : Entry.IsWord p.functionalities)
    {row : List Nat} (hrow : row ∈ m) :
    ∃ q, (rowSum p.versions row S.sort).extended? = some (.point q) ∧ 0 ≤ q ∧ q < 2 ^ 1024 := by
  obtain ⟨hlength, hentries⟩ := hm.2 row hrow
  rw [← hlength] at hS sized
  exact Problem.exists_rowSum hentries hS sized p.versions

/-- **An evaluation of a selection is in range.** -/
theorem inRange_evaluateColumns (valid : p.WellFormed) (sized : Entry.IsWord p.functionalities)
    (hS : ∀ f ∈ S, f < p.functionalities) :
    (p.evaluateColumns S.sort).InRange p where
  length_minimized := by simp [evaluateColumns, totals, valid.value.1]
  length_overruns := by simp [evaluateColumns, totals, budgets, valid.cost.1, valid.budget.1]
  minimized x hx := by
    simp only [evaluateColumns, totals, List.mem_map, exists_exists_and_eq_and] at hx
    obtain ⟨row, hrow, rfl⟩ := hx
    obtain ⟨q, hq, hq0, -⟩ := valid.value.exists_rowSum hS sized hrow
    have hneg : (rowSum p.versions row S.sort).neg.extended? = some (.point (-q)) := by
      rw [extended?_neg, hq]
      rfl
    refine ⟨(extended?_eq_point.mp hneg).1, ?_⟩
    rw [le_of_extended? hneg extended?_ofNat_zero]
    exact Extended.point_le_point.mpr (neg_nonpos.mpr hq0)
  overruns x hx := by
    obtain ⟨j, hj⟩ := List.mem_iff_getElem?.mp hx
    simp only [evaluateColumns, totals, budgets, List.zipWith_map,
      List.getElem?_zipWith_eq_some] at hj
    obtain ⟨row, b, hrow, hb, rfl⟩ := hj
    obtain ⟨cost, hcost, -, hlimit⟩ :=
      valid.cost.exists_rowSum hS sized (List.mem_of_getElem? hrow)
    have hword : b ≤ 2 ^ 63 :=
      (valid.budget.2 b (List.mem_of_getElem? hb)).trans (by decide)
    obtain ⟨budget, hbudget, hbudget0, -⟩ := withinSquare_ofInt hword (by norm_num)
    obtain ⟨q, hq, hq0⟩ := exists_overrun hcost hbudget hbudget0 hlimit
    refine ⟨(extended?_eq_point.mp hq).1, ?_⟩
    rw [le_of_extended? extended?_ofNat_zero hq]
    exact Extended.point_le_point.mpr hq0
  ascending := (Finset.sortedLT_sort S).pairwise
  selected f hf := hS f ((Finset.mem_sort _).mp hf)

end Problem

/-! ## Runs -/

section Runs

variable {p : Problem} {encoding : Encoding} {fresh v : Variable}

/-- A fresh variable is valid. -/
theorem discreteValid_of_newVariable [Memory]
    (hfresh : (Evaluator.new p (some encoding)).newVariable = .ok fresh) :
    fresh.DiscreteValid := by
  intro _
  cases encoding with
  | binary =>
    obtain ⟨hpos, -, rfl⟩ := newVariable_binary_eq_ok.mp hfresh
    have hne : p.functionalities ≠ 0 := by omega
    simpa [Variable.Valid] using hne
  | subset =>
    obtain rfl := Except.ok.inj ((newVariable_subset p).symm.trans hfresh)
    exact ⟨List.Pairwise.nil, p.functionalities, 0, p.functionalities, rfl, rfl, rfl,
      Int.natCast_nonneg _, by simp⟩

/-- **A variable that was fresh holds a selection after any writes.** -/
theorem exists_holds_of_becomes [Memory]
    (hfresh : (Evaluator.new p (some encoding)).newVariable = .ok fresh)
    (h : Relation.ReflTransGen Variable.Becomes fresh v) :
    ∃ S, encoding.Holds p.functionalities S v := by
  have hframe := Variable.frame_eq_of_becomes h
  have hvalid : v.DiscreteValid := by
    clear hframe
    induction h with
    | refl => exact discreteValid_of_newVariable hfresh
    | tail _ hwrite ih => exact hwrite.discreteValid ih
  cases encoding with
  | binary =>
    obtain ⟨-, -, rfl⟩ := newVariable_binary_eq_ok.mp hfresh
    cases v with
    | binary w =>
      have hlength : w.length = p.functionalities := by
        simpa [Variable.frame, BinaryVariable.length] using hframe
      exact ⟨_, Encoding.holds_toFinset_positions hlength⟩
    | _ => simp [Variable.frame] at hframe
  | subset =>
    obtain rfl := Except.ok.inj ((newVariable_subset p).symm.trans hfresh)
    cases v with
    | subset w =>
      obtain ⟨c, l, u, ms⟩ := w
      obtain ⟨rfl, rfl, rfl⟩ : c = .whole p.functionalities ∧ l = .whole 0
          ∧ u = .whole p.functionalities := by
        simpa [Variable.frame] using hframe
      refine ⟨_, Encoding.holds_toFinset_members (hvalid (by simp [Variable.kind])) ?_⟩
      simp [Evaluator.admits, Evaluator.new, Problem.announced]
    | _ => simp [Variable.frame] at hframe

/-- **Whatever is written into a fresh variable, it has an evaluation in range.**  Let the fresh
variable of an evaluator stand somewhere in a session.  In every state of every run, whether its
operations succeed or are refused, the variable that stands there is evaluated.  There is a number
to minimise and an overrun for each version, all of them finite, the former not positive and the
latter not negative, and the selected functionalities are in ascending order. -/
theorem evaluate_inRange_of_run [Memory] {s : Session} {i : Nat} {steps : List Step}
    (valid : p.WellFormed) (sized : Entry.IsWord p.functionalities)
    (hfresh : (Evaluator.new p (some encoding)).newVariable = .ok fresh)
    (hs : s[i]? = some fresh) :
    ∀ t ∈ s.states steps, ∃ v r, t[i]? = some v
      ∧ (Evaluator.new p (some encoding)).evaluate v = .ok r ∧ r.InRange p := by
  intro t ht
  have hreaches : Session.Reaches (fun _ => True) s t :=
    Session.reaches_of_mem_states (fun step _ => by cases step <;> exact trivial) ht
  obtain ⟨v, hv, hbecomes⟩ := Session.becomes_of_reaches hreaches hs
  obtain ⟨S, holds⟩ := exists_holds_of_becomes hfresh hbecomes
  exact ⟨v, _, hv, holds.evaluate sized,
    p.inRange_evaluateColumns valid sized fun _ hf => holds.lt hf⟩

end Runs

/-- Two selections of the sample problem are written; what comes between them is refused, since
twelve is no functionality, and a subset has no bits. -/
def selectingRun : List Step :=
  [.setSubset (.whole 0) (.wholes [7, 2]), .setSubset (.whole 0) (.wholes [3, 12]),
   .setBinary (.whole 0) (.wholes [1]), .setSubset (.whole 0) (.wholes [0, 11, 4])]

theorem evaluate_inRange_selectingRun :
    sampleProblem.WellFormed ∧ Entry.IsWord sampleProblem.functionalities
      ∧ (Evaluator.new sampleProblem (some .subset)).newVariable
        = .ok (.subset ⟨.whole 12, .whole 0, .whole 12, []⟩)
      ∧ ∀ t ∈ Session.states [.subset ⟨.whole 12, .whole 0, .whole 12, []⟩] selectingRun,
        ∃ v r, t[0]? = some v
          ∧ (Evaluator.new sampleProblem (some .subset)).evaluate v = .ok r
          ∧ r.InRange sampleProblem := by
  have sized : Entry.IsWord sampleProblem.functionalities := by decide
  have hfresh := newVariable_subset sampleProblem
  exact ⟨wellFormed_sampleProblem, sized, hfresh,
    evaluate_inRange_of_run wellFormed_sampleProblem sized hfresh rfl⟩

end MigrationPlan
