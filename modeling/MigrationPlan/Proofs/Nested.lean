import MigrationPlan.Nested
import Mathlib.Algebra.BigOperators.Group.List.Basic

/-!
# Proofs/Nested — full arrays

A flat list is a full array with one side, and equal rows make a full array with one side more.
**`length_entries`**: a full array has as many entries as the product of its sides.
**`eq_of_entries_eq`**: and there is no other array with these sides and entries.
-/

namespace MigrationPlan.Nested

variable {α : Type}

/-! ## Common sides -/

theorem shared_self (s : Shape) : Extent.shared s s = s := by
  induction s with
  | nil => rfl
  | cons n s ih => rw [Extent.shared, if_pos rfl, ih]

/-- Two arrays are full together if both are and have the same sides. -/
theorem full_meet {x y : Extent} :
    (x.meet y).full ↔ x.full ∧ y.full ∧ x.sides = y.sides := by
  simp [Extent.meet, and_assoc]

theorem sides_meet {x y : Extent} (h : x.sides = y.sides) : (x.meet y).sides = x.sides := by
  rw [Extent.meet, ← h, shared_self]

theorem meet_self (x : Extent) : x.meet x = x := by
  simp [Extent.meet, shared_self]

/-- The extent of a full array is told by its sides. -/
theorem extent_eq_of_sides {x y : Extent} (hx : x.full) (hy : y.full) (h : x.sides = y.sides) :
    x = y :=
  Extent.mk.injEq .. ▸ ⟨h, hx.trans hy.symm⟩

/-- Parts of one extent have it in common. -/
theorem extentOfParts_of_forall {e : Extent} {parts : List (Nested α)} (hne : parts ≠ [])
    (h : ∀ p ∈ parts, p.extent = e) : extentOfParts parts = e := by
  induction parts with
  | nil => exact absurd rfl hne
  | cons p rest ih =>
    obtain ⟨hp, hrest⟩ := List.forall_mem_cons.mp h
    cases rest with
    | nil => exact hp
    | cons q rest => rw [extentOfParts, hp, ih (by simp) hrest, meet_self]

/-- All parts of a full array have the same extent. -/
theorem extent_of_mem {parts : List (Nested α)} (h : (extentOfParts parts).full) :
    ∀ p ∈ parts, p.extent = extentOfParts parts := by
  induction parts with
  | nil => simp
  | cons p rest ih =>
    cases rest with
    | nil => simp [extentOfParts]
    | cons q rest =>
      obtain ⟨hp, hrest, hsides⟩ := full_meet.mp h
      have hsame : p.extent = extentOfParts (q :: rest) := extent_eq_of_sides hp hrest hsides
      rw [extentOfParts, hsame, meet_self]
      exact List.forall_mem_cons.mpr ⟨hsame, ih hrest⟩

/-! ## Flat lists -/

theorem extentOfParts_map_leaf (xs : List α) : extentOfParts (xs.map leaf) = ⟨[], true⟩ := by
  cases xs with
  | nil => rfl
  | cons x xs => exact extentOfParts_of_forall (by simp) (List.forall_mem_map.mpr fun _ _ => rfl)

@[simp] theorem extent_ofList (xs : List α) : (ofList xs).extent = ⟨[xs.length], true⟩ := by
  simp only [ofList, extent, extentOfParts_map_leaf, List.length_map]

@[simp] theorem entries_ofList (xs : List α) : (ofList xs).entries = xs := by
  have h : entriesOfParts (xs.map leaf) = xs := by
    induction xs with
    | nil => rfl
    | cons x xs ih => simp [entriesOfParts, entries, ih]
  rw [ofList, entries, h]

/-! ## Full arrays -/

mutual

/-- A full array has an entry for each position along its sides. -/
theorem length_entries : (a : Nested α) → a.extent.full → a.entries.length = a.extent.sides.prod
  | leaf _, _ => rfl
  | node parts, h => by
    rw [entries, length_entriesOfParts parts h, extent, List.prod_cons]

theorem length_entriesOfParts : (parts : List (Nested α)) → (extentOfParts parts).full →
    (entriesOfParts parts).length = parts.length * (extentOfParts parts).sides.prod
  | [], _ => by simp [entriesOfParts]
  | [p], h => by
    rw [entriesOfParts, List.length_append, length_entries p h]
    simp [entriesOfParts, extentOfParts]
  | p :: q :: rest, h => by
    obtain ⟨hp, hrest, hsides⟩ := full_meet.mp h
    have hlength : (p :: q :: rest).length = (q :: rest).length + 1 := rfl
    rw [entriesOfParts, List.length_append, length_entries p hp,
      length_entriesOfParts (q :: rest) hrest, extentOfParts, sides_meet hsides, ← hsides,
      hlength, Nat.succ_mul, Nat.add_comm]

end

mutual

/-- **A full array is determined by its sides and its entries.** -/
theorem eq_of_entries_eq : (a b : Nested α) → a.extent.full → a.extent = b.extent →
    a.entries = b.entries → a = b
  | leaf x, leaf y, _, _, h => by simpa [entries] using h
  | leaf _, node _, _, h, _ => by simp [extent] at h
  | node _, leaf _, _, h, _ => by simp [extent] at h
  | node ps, node qs, hps, hextent, hentries => by
    have hqs : (extentOfParts qs).full := by
      rw [hextent] at hps
      exact hps
    obtain ⟨hlength, hsides⟩ : ps.length = qs.length
        ∧ (extentOfParts ps).sides = (extentOfParts qs).sides :=
      List.cons.inj (congrArg Extent.sides hextent)
    have hparts : extentOfParts qs = extentOfParts ps := extent_eq_of_sides hqs hps hsides.symm
    rw [eq_of_entriesOfParts_eq ps qs (extentOfParts ps) hps (extent_of_mem hps)
      (hparts ▸ extent_of_mem hqs) hlength hentries]

theorem eq_of_entriesOfParts_eq : (ps qs : List (Nested α)) → (e : Extent) → e.full →
    (∀ p ∈ ps, p.extent = e) → (∀ q ∈ qs, q.extent = e) → ps.length = qs.length →
    entriesOfParts ps = entriesOfParts qs → ps = qs
  | [], [], _, _, _, _, _, _ => rfl
  | p :: ps, q :: qs, e, he, hps, hqs, hlength, hentries => by
    obtain ⟨hp, hps⟩ := List.forall_mem_cons.mp hps
    obtain ⟨hq, hqs⟩ := List.forall_mem_cons.mp hqs
    have hp' : p.extent.full := hp ▸ he
    -- the first parts have as many entries, so the entries fall apart at one place
    have hcount : p.entries.length = q.entries.length := by
      rw [length_entries p hp', length_entries q (hq ▸ he), hp, hq]
    obtain ⟨hfirst, hrest⟩ := List.append_inj hentries hcount
    rw [eq_of_entries_eq p q hp' (hp.trans hq.symm) hfirst,
      eq_of_entriesOfParts_eq ps qs e he hps hqs (Nat.succ.inj hlength) hrest]

end

/-! ## Rows -/

/-- Equal rows make a full array with two sides. -/
theorem extent_rows {rows : List (List α)} {m : Nat} (hne : rows ≠ [])
    (h : ∀ row ∈ rows, row.length = m) :
    (node (rows.map ofList)).extent = ⟨[rows.length, m], true⟩ := by
  have hparts : extentOfParts (rows.map ofList) = ⟨[m], true⟩ := by
    refine extentOfParts_of_forall (by simpa using hne) (List.forall_mem_map.mpr fun row hrow => ?_)
    rw [extent_ofList, h row hrow]
  rw [extent, hparts, List.length_map]

/-- The entries of rows are read row by row. -/
theorem entries_rows (rows : List (List α)) : (node (rows.map ofList)).entries = rows.flatten := by
  rw [entries]
  induction rows with
  | nil => rfl
  | cons row rows ih => rw [List.map_cons, entriesOfParts, entries_ofList, ih, List.flatten_cons]

end MigrationPlan.Nested
