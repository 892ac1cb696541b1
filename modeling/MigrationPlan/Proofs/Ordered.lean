import MigrationPlan.Ordered
import Mathlib.Data.List.Sort

/-!
# Proofs/Ordered — ascending lists are determined by their members

A set of integers is kept as its strictly ascending list, and the positions of the set bits of a
mask are read in ascending order.  A strictly ascending list is determined by what it holds
(`List.Pairwise.eq_of_mem_iff`), so that two views of one selection are the same list as soon as
they have the same members.
-/

namespace MigrationPlan

/-! ## Sets as ascending lists -/

theorem pairwise_insertMember {x : Int} {ys : List Int} (h : ys.Pairwise (· < ·)) :
    (insertMember x ys).Pairwise (· < ·) := by
  induction ys with
  | nil => exact List.pairwise_singleton _ _
  | cons y ys ih =>
    obtain ⟨hy, hys⟩ := List.pairwise_cons.mp h
    rw [insertMember]
    split_ifs with hlt heq
    · refine List.pairwise_cons.mpr ⟨fun z hz => ?_, h⟩
      rcases List.mem_cons.mp hz with rfl | hz
      · exact hlt
      · exact hlt.trans (hy z hz)
    · exact h
    · refine List.pairwise_cons.mpr ⟨fun z hz => ?_, ih hys⟩
      rcases mem_insertMember.mp hz with rfl | hz
      · omega
      · exact hy z hz

/-- **A set of integers is kept strictly ascending.** -/
theorem pairwise_memberList (xs : List Int) : (memberList xs).Pairwise (· < ·) := by
  induction xs with
  | nil => exact List.Pairwise.nil
  | cons x xs ih => exact pairwise_insertMember ih

/-- A strictly ascending list is kept as it is. -/
theorem memberList_of_pairwise {xs : List Int} (h : xs.Pairwise (· < ·)) : memberList xs = xs :=
  List.Pairwise.eq_of_mem_iff (r := (· < ·)) (pairwise_memberList xs) h fun _ => mem_memberList

/-- A set is told by its members. -/
theorem memberList_congr {xs ys : List Int} (h : ∀ m, m ∈ xs ↔ m ∈ ys) :
    memberList xs = memberList ys :=
  List.Pairwise.eq_of_mem_iff (r := (· < ·)) (pairwise_memberList xs) (pairwise_memberList ys)
    fun m => by rw [mem_memberList, mem_memberList, h]

/-- Distinct integers are the members of their set, in another order. -/
theorem perm_memberList {xs : List Int} (h : xs.Nodup) : (memberList xs).Perm xs := by
  have hnodup : (memberList xs).Nodup := (pairwise_memberList xs).imp fun hlt => hlt.ne
  exact (List.perm_ext_iff_of_nodup hnodup h).mpr fun _ => mem_memberList

/-- Distinct integers are as many as the members of their set. -/
theorem length_memberList_of_nodup {xs : List Int} (h : xs.Nodup) :
    (memberList xs).length = xs.length :=
  (perm_memberList h).length_eq

/-- **The members of a set are as many as the integers it was made from only if those are
distinct.** -/
theorem length_memberList_eq_iff {xs : List Int} :
    (memberList xs).length = xs.length ↔ xs.Nodup := by
  refine ⟨fun hlength => ?_, length_memberList_of_nodup⟩
  have hnodup : (memberList xs).Nodup := (pairwise_memberList xs).imp fun hlt => hlt.ne
  have hsub := List.subperm_of_subset hnodup fun _ hx => mem_memberList.mp hx
  exact (hsub.perm_of_length_le hlength.ge).nodup_iff.mp hnodup

/-! ## Sorted integers -/

theorem perm_insertInt (x : Int) (ys : List Int) : (insertInt x ys).Perm (x :: ys) := by
  induction ys with
  | nil => exact .refl _
  | cons y ys ih =>
    rw [insertInt]
    split_ifs
    · exact .refl _
    · exact (ih.cons y).trans (.swap x y ys)

/-- Sorting changes the order of integers and nothing else. -/
theorem perm_sortInts (xs : List Int) : (sortInts xs).Perm xs := by
  induction xs with
  | nil => exact .refl _
  | cons x xs ih => exact (perm_insertInt x (sortInts xs)).trans (ih.cons x)

/-! ## Positions of set bits -/

theorem mem_positionsFrom {start i : Nat} {bs : List Bool} :
    i ∈ positionsFrom start bs ↔ start ≤ i ∧ bs[i - start]? = some true := by
  induction bs generalizing start with
  | nil => simp [positionsFrom]
  | cons b bs ih =>
    have hmem : i ∈ positionsFrom start (b :: bs)
        ↔ (b = true ∧ i = start) ∨ i ∈ positionsFrom (start + 1) bs := by
      cases b <;> simp [positionsFrom]
    rw [hmem, ih]
    rcases lt_trichotomy i start with h | rfl | h
    · omega
    · simp
    · obtain ⟨k, hk⟩ : ∃ k, i - start = k + 1 := ⟨i - start - 1, by omega⟩
      rw [hk, List.getElem?_cons_succ, show i - (start + 1) = k by omega]
      simp only [Nat.ne_of_gt h, and_false, false_or, Nat.succ_le_of_lt h, h.le, true_and]

/-- A position is listed if the bit there is set. -/
theorem mem_positions {i : Nat} {bs : List Bool} : i ∈ positions bs ↔ bs[i]? = some true := by
  simp [positions, mem_positionsFrom]

theorem pairwise_positionsFrom (start : Nat) (bs : List Bool) :
    (positionsFrom start bs).Pairwise (· < ·) := by
  induction bs generalizing start with
  | nil => exact List.Pairwise.nil
  | cons b bs ih =>
    cases b with
    | false => exact ih (start + 1)
    | true =>
      exact List.pairwise_cons.mpr ⟨fun i hi => (mem_positionsFrom.mp hi).1, ih (start + 1)⟩

/-- **Positions are read in ascending order.** -/
theorem pairwise_positions (bs : List Bool) : (positions bs).Pairwise (· < ·) :=
  pairwise_positionsFrom 0 bs

/-! ## Sorted selections -/

/-- Distinct numbers, sorted, are strictly ascending. -/
theorem pairwise_mergeSort_of_nodup {is : List Nat} (h : is.Nodup) :
    is.mergeSort.Pairwise (· < ·) := by
  have hle : is.mergeSort.Pairwise (· ≤ ·) := List.pairwise_mergeSort' (· ≤ ·) is
  have hne : is.mergeSort.Nodup := (List.mergeSort_perm is _).nodup_iff.mpr h
  exact hle.imp₂ (fun _ _ hle hne => lt_of_le_of_ne hle hne) hne

/-- The members of a set of numbers, ascending, are the numbers sorted. -/
theorem map_toNat_memberList {is : List Nat} (h : is.Nodup) :
    (memberList (is.map Int.ofNat)).map Int.toNat = is.mergeSort := by
  have hnat : ∀ m ∈ memberList (is.map Int.ofNat), 0 ≤ m := fun m hm => by
    obtain ⟨i, -, rfl⟩ := List.mem_map.mp (mem_memberList.mp hm)
    exact Int.natCast_nonneg i
  refine List.Pairwise.eq_of_mem_iff (r := (· < ·)) ?_ (pairwise_mergeSort_of_nodup h) fun i => ?_
  · refine List.pairwise_map.mpr ((pairwise_memberList _).imp_of_mem fun {a b} ha hb hlt => ?_)
    have := hnat a ha
    omega
  · rw [List.mem_mergeSort, List.mem_map]
    constructor
    · rintro ⟨m, hm, rfl⟩
      obtain ⟨i, hi, rfl⟩ := List.mem_map.mp (mem_memberList.mp hm)
      exact hi
    · intro hi
      exact ⟨i, mem_memberList.mpr (List.mem_map_of_mem hi), rfl⟩

end MigrationPlan
