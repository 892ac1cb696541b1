import MigrationPlan.Proofs.Evaluation.Feasibility
import MigrationPlan.Proofs.Evaluation.Range
import MigrationPlan.Proofs.Numeric.Order
import Mathlib.Algebra.BigOperators.Group.Finset.Piecewise

/-!
# Proofs/Evaluation/Monotone — a larger selection is worth and costs no less

Entries are not negative, and a rounded sum does not fall if its terms grow.  From left to right a
further functionality is one more addition, and none of the sums behind it falls
(**`runningSum_le_of_sublist`**).  In blocks it moves all functionalities behind it to other groups.
A sum in blocks still is no less than that of any two of its terms (`Problem.rowSum_le_of_card_le`),
but it can fall below that of three (`evaluate_falls_regroupedProblem`).  It does not fall while
sums are exact, and beyond by no more than the rounding of the terms accounts for
(`Problem.Grows`): **`evaluate_grows_of_subset`**.
-/

namespace MigrationPlan

open Binary64

/-! ## Sums from left to right -/

section Running

variable {xs ys : List Binary64} {x y : Binary64}

/-- Further terms do not lower a running sum, which may have been larger before. -/
theorem foldl_add_le_of_sublist (h : xs.Sublist ys) (hys : ∀ y ∈ ys, AtLeast 0 y)
    (hx : AtLeast 0 x) (hxy : x.le y) : (xs.foldl add x).le (ys.foldl add y) := by
  induction h generalizing x y with
  | slnil => exact hxy
  | cons term _ ih =>
    obtain ⟨hterm, hys⟩ := List.forall_mem_cons.mp hys
    exact ih hys hx (le_trans hxy (left_le_add (hx.of_le hxy) hterm))
  | cons_cons term _ ih =>
    obtain ⟨hterm, hys⟩ := List.forall_mem_cons.mp hys
    obtain ⟨u, hu⟩ := hterm.exists_extended?
    exact ih hys (hx.add_nonneg hterm) (add_mono hx hterm hxy (le_self hu))

/-- **From left to right further terms do not lower a sum.** -/
theorem runningSum_le_of_sublist (h : xs.Sublist ys) (hys : ∀ y ∈ ys, AtLeast 0 y) :
    (runningSum xs).le (runningSum ys) :=
  foldl_add_le_of_sublist h hys atLeast_zero (le_self extended?_ofNat_zero)

end Running

/-! ## Overruns -/

/-- **A larger cost has no smaller overrun.** -/
theorem overrun_mono {cost cost' budget : Binary64} {c c' b : Rat}
    (hcost : cost.extended? = some (.point c)) (hcost' : cost'.extended? = some (.point c'))
    (hbudget : budget.extended? = some (.point b)) (h : cost.le cost') :
    (overrun cost budget).le (overrun cost' budget) :=
  max_mono extended?_ofNat_zero (sub_mono hcost hcost' hbudget h)

/-! ## Two terms of a sum -/

/-- **A number that is no less than those of two terms that went into it**: the first adds two to
the mark, the second three, and no other term adds anything.  So the mark tells which of them did.
-/
structure Covers (x y z : Binary64) (mark : Nat) : Prop where
  nonneg : AtLeast 0 z
  ne_one : mark ≠ 1
  first : mark = 2 → x.le z
  second : mark = 3 → y.le z
  both : mark = 5 → (x.add y).le z

section Covers

variable {x y z : Binary64}

theorem covers_first (hx : AtLeast 0 x) : Covers x y x 2 := by
  obtain ⟨u, hu⟩ := hx.exists_extended?
  exact ⟨hx, by omega, fun _ => le_self hu, by omega, by omega⟩

theorem covers_second (hy : AtLeast 0 y) : Covers x y y 3 := by
  obtain ⟨u, hu⟩ := hy.exists_extended?
  exact ⟨hy, by omega, by omega, fun _ => le_self hu, by omega⟩

theorem covers_none (hz : AtLeast 0 z) : Covers x y z 0 :=
  ⟨hz, by omega, by omega, by omega, by omega⟩

/-- **Additions keep what they cover**, in whatever order the two terms come. -/
theorem addsUp_covers (hx : AtLeast 0 x) (hy : AtLeast 0 y) : AddsUp (Covers x y) where
  zero := covers_none atLeast_zero
  add {z w m n} hz hw := by
    have hleft := left_le_add hz.nonneg hw.nonneg
    have hright := right_le_add hz.nonneg hw.nonneg
    have hm := hz.ne_one
    have hn := hw.ne_one
    refine ⟨hz.nonneg.add_nonneg hw.nonneg, by omega, fun h => ?_, fun h => ?_, fun h => ?_⟩
    · rcases (by omega : m = 2 ∨ n = 2) with h | h
      · exact le_trans (hz.first h) hleft
      · exact le_trans (hw.first h) hright
    · rcases (by omega : m = 3 ∨ n = 3) with h | h
      · exact le_trans (hz.second h) hleft
      · exact le_trans (hw.second h) hright
    · rcases (by omega : m = 5 ∨ n = 5 ∨ m = 2 ∧ n = 3 ∨ m = 3 ∧ n = 2) with h | h | h | h
      · exact le_trans (hz.both h) hleft
      · exact le_trans (hw.both h) hright
      · exact add_mono hx hy (hz.first h.1) (hw.second h.2)
      · rw [add_swap z w]
        exact add_mono hx hy (hw.first h.2) (hz.second h.1)

end Covers

namespace Problem

variable {p : Problem} {row : List Nat} {S T : Finset Nat} {versions k j : Nat}

/-! ## Sums over selections -/

/-- Several versions, or a selection below eight, are summed from left to right. -/
theorem rowSum_eq_runningSum (h : versions ≠ 1 ∨ S.card < 8) :
    rowSum versions row S.sort = runningSum (S.sort.map fun f => ofInt (row.getD f 0)) := by
  rw [rowSum]
  split_ifs with hone
  · have hshort : S.card < 8 := h.resolve_left (not_not.mpr hone)
    rw [blockedSum, if_pos (by rwa [List.length_map, Finset.length_sort])]
  · rfl

/-- **A sum covers two of its terms**, in either order of addition. -/
theorem covers_rowSum (versions : Nat) (row : List Nat) (T : Finset Nat) {f g : Nat}
    (hfg : f ≠ g) :
    Covers (ofInt (row.getD f 0)) (ofInt (row.getD g 0)) (rowSum versions row T.sort)
      ((if f ∈ T then 2 else 0) + if g ∈ T then 3 else 0) := by
  have hterm (c : Nat) (_ : c ∈ T) :
      Covers (ofInt (row.getD f 0)) (ofInt (row.getD g 0)) (ofInt (row.getD c 0))
        ((if c = f then 2 else 0) + if c = g then 3 else 0) := by
    by_cases hf : c = f
    · subst hf
      rw [if_pos rfl, if_neg hfg]
      exact covers_first (atLeast_ofInt _)
    by_cases hg : c = g
    · subst hg
      rw [if_neg hf, if_pos rfl]
      exact covers_second (atLeast_ofInt _)
    · rw [if_neg hf, if_neg hg]
      exact covers_none (atLeast_ofInt _)
  have hsum := rel_rowSum (addsUp_covers (atLeast_ofInt _) (atLeast_ofInt _)) versions hterm
  rwa [Finset.sum_add_distrib, Finset.sum_ite_eq', Finset.sum_ite_eq'] at hsum

theorem atLeast_rowSum : AtLeast 0 (rowSum versions row T.sort) :=
  (covers_rowSum versions row T zero_ne_one).nonneg

/-- A sum is no less than one of its terms. -/
theorem ofInt_le_rowSum {f : Nat} (hf : f ∈ T) :
    (ofInt (row.getD f 0)).le (rowSum versions row T.sort) := by
  -- the second term is one that is not in the sum
  obtain ⟨g, hg⟩ := Infinite.exists_notMem_finset T
  have hcovers := covers_rowSum versions row T (ne_of_mem_of_not_mem hf hg)
  rw [if_pos hf, if_neg hg] at hcovers
  exact hcovers.first rfl

/-- Nor is it less than the rounded sum of two of them. -/
theorem add_le_rowSum {f g : Nat} (hf : f ∈ T) (hg : g ∈ T) (hfg : f ≠ g) :
    ((ofInt (row.getD f 0)).add (ofInt (row.getD g 0))).le (rowSum versions row T.sort) := by
  have hcovers := covers_rowSum versions row T hfg
  rw [if_pos hf, if_pos hg] at hcovers
  exact hcovers.both rfl

/-- **A sum over at most two functionalities is no more than one over these and others**, in
either order of addition. -/
theorem rowSum_le_of_card_le (h : S ⊆ T) (hS : S.card ≤ 2) :
    (rowSum versions row S.sort).le (rowSum versions row T.sort) := by
  have hlength : S.sort.length ≤ 2 := by rwa [Finset.length_sort]
  have hnodup : S.sort.Nodup := Finset.sort_nodup S _
  have hmem (f : Nat) (hf : f ∈ S.sort) : f ∈ T := h ((Finset.mem_sort _).mp hf)
  rw [rowSum_eq_runningSum (.inr (by omega))]
  generalize S.sort = fs at hlength hnodup hmem ⊢
  have hentry (f : Nat) := atLeast_ofInt (row.getD f 0)
  rcases fs with _ | ⟨f, _ | ⟨g, _ | ⟨c, fs⟩⟩⟩
  · exact atLeast_rowSum.zero_le
  · exact le_trans (zero_add_le (hentry f)) (ofInt_le_rowSum (hmem f (by simp)))
  · have hfg : f ≠ g := by simpa using hnodup
    obtain ⟨u, hu⟩ := (hentry g).exists_extended?
    have hstart := add_mono (atLeast_zero.add_nonneg (hentry f)) (hentry g)
      (zero_add_le (hentry f)) (le_self hu)
    exact le_trans hstart (add_le_rowSum (hmem f (by simp)) (hmem g (by simp)) hfg)
  · simp at hlength

/-- **The additions for two selections are comparable one by one**: both are made from left to
right, as for several versions or below eight functionalities, or the smaller selection has at most
two. -/
def SummedAlike (p : Problem) (S T : Finset Nat) : Prop :=
  p.versions ≠ 1 ∨ T.card < 8 ∨ S.card ≤ 2

/-- **Then a sum over a selection is no more than one over a larger selection.** -/
theorem rowSum_le_of_summedAlike (h : S ⊆ T) (halike : p.SummedAlike S T) :
    (rowSum p.versions row S.sort).le (rowSum p.versions row T.sort) := by
  have hrunning (hS : p.versions ≠ 1 ∨ S.card < 8) (hT : p.versions ≠ 1 ∨ T.card < 8) :
      (rowSum p.versions row S.sort).le (rowSum p.versions row T.sort) := by
    rw [rowSum_eq_runningSum hS, rowSum_eq_runningSum hT]
    refine runningSum_le_of_sublist ((Encoding.sort_sublist h).map _) fun y hy => ?_
    obtain ⟨f, -, rfl⟩ := List.mem_map.mp hy
    exact atLeast_ofInt _
  rcases halike with hmany | hshort | hfew
  · exact hrunning (.inl hmany) (.inl hmany)
  · exact hrunning (.inr ((Finset.card_le_card h).trans_lt hshort)) (.inr hshort)
  · exact rowSum_le_of_card_le h hfew

/-! ## What a larger selection adds -/

/-- What the entries of a selection add up to exactly, each rounded down to a multiple of `2 ^ k`.
-/
def floorSum (k : Nat) (row : List Nat) (S : Finset Nat) : Nat :=
  ∑ f ∈ S, multipleBelow k (row.getD f 0)

/-- What they add up to, each rounded up to the next multiple. -/
def ceilingSum (k : Nat) (row : List Nat) (S : Finset Nat) : Nat :=
  ∑ f ∈ S, (multipleBelow k (row.getD f 0) + gap k (row.getD f 0))

/-- **How the sums of a row over a selection and a larger one compare.**  Both are finite.  The
second is no less if the additions are comparable, or if the first sum is exact.  In any case it is
less by no more than what the entries of the one, rounded up, exceed those of the other by, rounded
down; to a multiple of any `2 ^ k` that leaves the former within doubles. -/
structure Grows (p : Problem) (row : List Nat) (S T : Finset Nat) (x y : Binary64) : Prop where
  finite : x.isFinite ∧ y.isFinite
  le : p.SummedAlike S T ∨ ∑ f ∈ S, row.getD f 0 ≤ 2 ^ 53 → x.le y
  sub_le : ∀ k ≤ 63, ceilingSum k row S ≤ 2 ^ (53 + k) →
    x.toRat - y.toRat ≤ (ceilingSum k row S - floorSum k row T : Nat)

/-- Multiples of a power of two are not rounded, so that further entries only add to their sum. -/
theorem ceilingSum_le_floorSum (h : S ⊆ T) (hdvd : ∀ f ∈ S, 2 ^ k ∣ row.getD f 0) :
    ceilingSum k row S ≤ floorSum k row T :=
  calc ceilingSum k row S = floorSum k row S :=
        Finset.sum_congr rfl fun f hf => by rw [gap_eq_zero (hdvd f hf), Nat.add_zero]
    _ ≤ floorSum k row T := Finset.sum_le_sum_of_subset h

/-- To multiples of one nothing is rounded. -/
theorem ceilingSum_zero : ceilingSum 0 row S = ∑ f ∈ S, row.getD f 0 :=
  Finset.sum_congr rfl fun f _ => by
    rw [gap_eq_zero (Nat.one_dvd _), multipleBelow, pow_zero, Nat.div_one, Nat.mul_one,
      Nat.add_zero]

/-- **The sums of a row of a matrix compare so.** -/
theorem grows_rowSum {m : List (List Nat)} (hm : IsMatrix p.versions p.functionalities m)
    (sized : Entry.IsWord p.functionalities) (hrow : row ∈ m) (h : S ⊆ T)
    (hT : ∀ f ∈ T, f < p.functionalities) :
    p.Grows row S T (rowSum p.versions row S.sort) (rowSum p.versions row T.sort) := by
  obtain ⟨q, hq, -⟩ := hm.exists_rowSum (fun f hf => hT f (h hf)) sized hrow
  obtain ⟨r, hr, -⟩ := hm.exists_rowSum hT sized hrow
  have hceiling {k : Nat} (hk : k ≤ 63) :
      HasCeiling k (rowSum p.versions row S.sort) (ceilingSum k row S) :=
    hasCeiling_rowSum p.versions row S (by omega)
  have hfloor (k : Nat) : HasFloor k (rowSum p.versions row T.sort) (floorSum k row T) :=
    hasFloor_rowSum p.versions row T k
  refine ⟨⟨(extended?_eq_point.mp hq).1, (extended?_eq_point.mp hr).1⟩, ?_, fun k hk hsum => ?_⟩
  · rintro (halike | hexact)
    · exact rowSum_le_of_summedAlike h halike
    · rw [← ceilingSum_zero] at hexact
      exact (hceiling (Nat.zero_le _)).le (hfloor 0) hexact
        (ceilingSum_le_floorSum h fun _ _ => Nat.one_dvd _)
  · rw [(extended?_eq_point.mp hq).2, (extended?_eq_point.mp hr).2]
    exact (hceiling hk).sub_le (hfloor k) hsum hq hr

end Problem

/-! ## Evaluations -/

/-- **A larger selection is worth and costs no less, as far as rounding allows.**  Let variables of
either encoding hold a selection and a larger one.  Both evaluations succeed.  In each version the
values compare as sums of their row do (`Problem.Grows`), and so do the costs; and if the cost of
the larger selection is no less, its overrun is no less. -/
theorem evaluate_grows_of_subset {p : Problem} {encoding encoding' : Encoding} {S T : Finset Nat}
    {v w : Variable} (valid : p.WellFormed) (sized : Entry.IsWord p.functionalities)
    (holdsS : encoding.Holds p.functionalities S v)
    (holdsT : encoding'.Holds p.functionalities T w) (h : S ⊆ T) :
    ∃ r s, (Evaluator.new p (some encoding)).evaluate v = .ok r
      ∧ (Evaluator.new p (some encoding')).evaluate w = .ok s
      ∧ ∀ j < p.versions, ∃ value value' cost cost' excess excess' : Binary64,
        r.objectives[j]? = some value ∧ s.objectives[j]? = some value'
        ∧ r.rawCost[j]? = some cost ∧ s.rawCost[j]? = some cost'
        ∧ r.overruns[j]? = some excess ∧ s.overruns[j]? = some excess'
        ∧ p.Grows (p.value.getD j []) S T value value'
        ∧ p.Grows (p.cost.getD j []) S T cost cost'
        ∧ (cost.le cost' → excess.le excess') := by
  have hT (f : Nat) (hf : f ∈ T) : f < p.functionalities := holdsT.lt hf
  refine ⟨_, _, holdsS.evaluate sized, holdsT.evaluate sized, fun j hj => ?_⟩
  have hvalue := getD_mem [] (valid.value.1.symm ▸ hj : j < p.value.length)
  have hcost := getD_mem [] (valid.cost.1.symm ▸ hj : j < p.cost.length)
  obtain ⟨c, hc, -⟩ := valid.cost.exists_rowSum (fun f hf => hT f (h hf)) sized hcost
  obtain ⟨c', hc', -⟩ := valid.cost.exists_rowSum hT sized hcost
  obtain ⟨b, hb⟩ := valid.exists_extended?_budget hj
  exact ⟨_, _, _, _, _, _, Problem.getElem?_objectives valid hj,
    Problem.getElem?_objectives valid hj, Problem.getElem?_rawCost valid hj,
    Problem.getElem?_rawCost valid hj, Problem.getElem?_overruns valid hj,
    Problem.getElem?_overruns valid hj, Problem.grows_rowSum valid.value sized hvalue h hT,
    Problem.grows_rowSum valid.cost sized hcost h hT, overrun_mono hc hc' hb⟩

/-! ## Regrouped additions -/

/-- One version, in which the second of eight functionalities is large and the next two are small.
-/
def regroupedProblem : Problem :=
  ⟨1, 8, [[0, 0x20000000000000, 3, 3, 0, 0, 0, 0]], [[0, 0x20000000000000, 3, 3, 0, 0, 0, 0]], [0]⟩

theorem wellFormed_regroupedProblem : regroupedProblem.WellFormed := by
  decide

/-- A subset over all its functionalities. -/
def regroupedVariable (members : List Int) : Variable :=
  .subset ⟨.whole 8, .whole 0, .whole 8, members⟩

theorem holds_regroupedVariable :
    Encoding.subset.Holds 8 {1, 2, 3} (regroupedVariable [1, 2, 3]) :=
  ⟨by simp [Number.extended?], by simp [Number.extended?], by decide, by decide,
    by simp [eq_comm], by decide⟩

theorem holds_regroupedVariable_all :
    Encoding.subset.Holds 8 (Finset.range 8) (regroupedVariable [0, 1, 2, 3, 4, 5, 6, 7]) :=
  ⟨by simp [Number.extended?], by simp [Number.extended?], by decide, by decide, fun m => by
    simp only [List.mem_cons, List.not_mem_nil, or_false, Finset.mem_range]
    constructor
    · intro h
      exact ⟨m.toNat, by omega, by omega⟩
    · rintro ⟨i, hi, rfl⟩
      omega, by simp⟩

/-- Three of its functionalities are reported to be worth at most four more than all eight: to
multiples of two, the small entries are rounded up to eight on one side and down to four on the
other. -/
theorem evaluate_grows_regroupedProblem :
    ∃ r s, (Evaluator.new regroupedProblem (some .subset)).evaluate (regroupedVariable [1, 2, 3])
        = .ok r
      ∧ (Evaluator.new regroupedProblem (some .subset)).evaluate
        (regroupedVariable [0, 1, 2, 3, 4, 5, 6, 7]) = .ok s
      ∧ ∃ value value' : Binary64, r.objectives[0]? = some value ∧ s.objectives[0]? = some value'
        ∧ value.toRat - value'.toRat ≤ 4 := by
  obtain ⟨r, s, hr, hs, hgrows⟩ := evaluate_grows_of_subset wellFormed_regroupedProblem (by decide)
    holds_regroupedVariable holds_regroupedVariable_all (by decide)
  obtain ⟨value, value', -, -, -, -, hvalue, hvalue', -, -, -, -, hgrow, -⟩ := hgrows 0 (by decide)
  refine ⟨r, s, hr, hs, value, value', hvalue, hvalue', ?_⟩
  have hsub := hgrow.sub_le 1 (by decide) (by decide)
  exact hsub.trans (by exact_mod_cast (by decide : _ ≤ 4))

/-- **A larger selection can be reported to be worth and to cost less.**  Three functionalities of
one version are added from left to right, and both small entries are rounded up on the way.  All
eight are added in pairs, so that the two are added exactly first. -/
theorem evaluate_falls_regroupedProblem :
    regroupedProblem.WellFormed
      ∧ Encoding.subset.Holds 8 {1, 2, 3} (regroupedVariable [1, 2, 3])
      ∧ Encoding.subset.Holds 8 (Finset.range 8) (regroupedVariable [0, 1, 2, 3, 4, 5, 6, 7])
      ∧ {1, 2, 3} ⊆ Finset.range 8
      ∧ ∃ r s, (Evaluator.new regroupedProblem (some .subset)).evaluate
          (regroupedVariable [1, 2, 3]) = .ok r
        ∧ (Evaluator.new regroupedProblem (some .subset)).evaluate
          (regroupedVariable [0, 1, 2, 3, 4, 5, 6, 7]) = .ok s
        ∧ ∃ x y : Binary64, r.objectives[0]? = some x ∧ s.objectives[0]? = some y
          ∧ r.rawCost[0]? = some x ∧ s.rawCost[0]? = some y
          ∧ r.overruns[0]? = some x ∧ s.overruns[0]? = some y
          ∧ ¬x.le y := by
  refine ⟨wellFormed_regroupedProblem, holds_regroupedVariable, holds_regroupedVariable_all,
    by decide, regroupedProblem.evaluateColumns [1, 2, 3],
    regroupedProblem.evaluateColumns [0, 1, 2, 3, 4, 5, 6, 7], rfl, rfl,
    ofInt 0x20000000000008, ofInt 0x20000000000006, ?_, ?_, ?_, ?_, ?_, ?_, ?_⟩ <;> decide +kernel

end MigrationPlan
