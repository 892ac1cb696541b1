import Mathlib.Data.List.Forall2

/-!
# Proofs/Accepted — what it takes for an operation to accept its input

Operations are `do` blocks over `Except`: readings that may fail, and checks that refuse.  For each
shape of such a block one lemma says when its answer is `ok`, so that the blocks of the library are
taken apart by `simp only` with these lemmas and no block is unfolded by cases.
-/

namespace MigrationPlan

section Blocks

variable {ε α β : Type}

/-- A block is accepted if its first step is, and then the rest. -/
theorem bind_eq_ok {x : Except ε α} {f : α → Except ε β} {b : β} :
    (x >>= f) = .ok b ↔ ∃ a, x = .ok a ∧ f a = .ok b := by
  cases x <;> simp [Bind.bind, Except.bind]

theorem map_eq_ok {x : Except ε α} {f : α → β} {b : β} :
    x.map f = .ok b ↔ ∃ a, x = .ok a ∧ f a = b := by
  cases x <;> simp [Except.map]

/-- A fault that is told in other words is no answer either. -/
theorem mapError_eq_ok {δ : Type} {x : Except ε α} {f : ε → δ} {a : α} :
    x.mapError f = .ok a ↔ x = .ok a := by
  cases x <;> simp [Except.mapError]

/-- A block is refused by its first step, or by the rest. -/
theorem bind_eq_error {x : Except ε α} {f : α → Except ε β} {e : ε} :
    (x >>= f) = .error e ↔ x = .error e ∨ ∃ a, x = .ok a ∧ f a = .error e := by
  cases x <;> simp [Bind.bind, Except.bind]

/-- Nothing is done behind a refusal. -/
@[simp] theorem error_bind {e : ε} {f : α → Except ε β} :
    ((Except.error e : Except ε α) >>= f) = .error e := rfl

@[simp] theorem ok_bind {a : α} {f : α → Except ε β} :
    ((Except.ok a : Except ε α) >>= f) = f a := rfl

/-- A refusal is none the less one if its message takes steps to make. -/
@[simp] theorem bind_error_ne_ok {x : Except ε α} {e : α → ε} {b : β} :
    (x >>= fun a => (.error (e a) : Except ε β)) ≠ .ok b := by
  simp [bind_eq_ok]

@[simp] theorem ok_map {a : α} {f : α → β} : (Except.ok a : Except ε α).map f = .ok (f a) := rfl

/-- What is done with the answer of a block is done behind its first step. -/
theorem map_of_bind {γ : Type} {x : Except ε α} {f : α → Except ε β} {g : β → γ} :
    (x >>= f).map g = x >>= fun a => (f a).map g := by
  cases x <;> rfl

theorem bind_of_map {γ : Type} {x : Except ε α} {g : α → β} {f : β → Except ε γ} :
    x.map g >>= f = x >>= fun a => f (g a) := by
  cases x <;> rfl

/-- A check that refuses. -/
theorem refuse_eq_ok {p : Prop} [Decidable p] {e : ε} {x : Except ε β} {b : β} :
    (if p then .error e else x) = .ok b ↔ ¬p ∧ x = .ok b := by
  by_cases h : p <;> simp [h]

/-- A check that lets through. -/
theorem require_eq_ok {p : Prop} [Decidable p] {e : ε} {x : Except ε β} {b : β} :
    (if p then x else .error e) = .ok b ↔ p ∧ x = .ok b := by
  by_cases h : p <;> simp [h]

/-- Blocks that read files are such blocks if reading a file has no other effect. -/
theorem run_bind_id {x : ExceptT ε Id α} {f : α → ExceptT ε Id β} :
    (x >>= f).run = (x.run >>= fun a => (f a).run : Except ε β) := by
  rw [ExceptT.run_bind]
  cases x.run <;> rfl

theorem run_liftM_id {x : Except ε α} : (liftM x : ExceptT ε Id α).run = x := rfl

end Blocks

/-! ## Lists -/

section Lists

variable {ε α β : Type}

/-- A list is accepted if each of its items is. -/
theorem mapM_eq_ok {f : α → Except ε β} {xs : List α} {ys : List β} :
    xs.mapM f = .ok ys ↔ List.Forall₂ (fun x y => f x = .ok y) xs ys := by
  induction xs generalizing ys with
  | nil => simp [pure, Except.pure, eq_comm]
  | cons x xs ih =>
    simp only [List.mapM_cons, bind_eq_ok, ih, List.forall₂_cons_left_iff]
    constructor
    · rintro ⟨y, hy, ys, hys, h⟩
      obtain rfl : y :: ys = _ := by simpa [pure, Except.pure] using h
      exact ⟨y, ys, hy, hys, rfl⟩
    · rintro ⟨y, ys, hy, hys, rfl⟩
      exact ⟨y, hy, ys, hys, rfl⟩

/-- Related lists have related items. -/
theorem exists_mem_of_forall₂ {R : α → β → Prop} {xs : List α} {ys : List β} {x : α}
    (h : List.Forall₂ R xs ys) (hx : x ∈ xs) : ∃ y ∈ ys, R x y := by
  induction h with
  | nil => simp at hx
  | cons hxy _ ih =>
    rcases List.mem_cons.mp hx with rfl | hx
    · exact ⟨_, List.mem_cons_self .., hxy⟩
    · obtain ⟨y, hmem, hy⟩ := ih hx
      exact ⟨y, List.mem_cons_of_mem _ hmem, hy⟩

/-- A list is related to another if each of its items is related to something. -/
theorem exists_forall₂_iff {R : α → β → Prop} {xs : List α} :
    (∃ ys, List.Forall₂ R xs ys) ↔ ∀ x ∈ xs, ∃ y, R x y := by
  refine ⟨fun ⟨ys, h⟩ x hx => ?_, fun h => ?_⟩
  · obtain ⟨y, -, hy⟩ := exists_mem_of_forall₂ h hx
    exact ⟨y, hy⟩
  · induction xs with
    | nil => exact ⟨[], .nil⟩
    | cons x xs ih =>
      obtain ⟨⟨y, hy⟩, hxs⟩ := List.forall_mem_cons.mp h
      obtain ⟨ys, hys⟩ := ih hxs
      exact ⟨y :: ys, .cons hy hys⟩

/-- What comes out has come from somewhere. -/
theorem exists_of_mem_mapM {f : α → Except ε β} {xs : List α} {ys : List β} {y : β}
    (h : xs.mapM f = .ok ys) (hy : y ∈ ys) : ∃ x ∈ xs, f x = .ok y :=
  exists_mem_of_forall₂ (List.Forall₂.flip (R := fun y x => f x = .ok y) (mapM_eq_ok.mp h)) hy

/-- A list is refused for what one of its items is refused for. -/
theorem exists_of_mapM_eq_error {f : α → Except ε β} {xs : List α} {e : ε}
    (h : xs.mapM f = .error e) : ∃ x ∈ xs, f x = .error e := by
  induction xs with
  | nil => exact nomatch h
  | cons x xs ih =>
    rw [List.mapM_cons, bind_eq_error] at h
    obtain hx | ⟨y, -, h⟩ := h
    · exact ⟨x, List.mem_cons_self .., hx⟩
    · obtain hxs | ⟨ys, -, h⟩ := bind_eq_error.mp h
      · obtain ⟨x', hmem, hx'⟩ := ih hxs
        exact ⟨x', List.mem_cons_of_mem _ hmem, hx'⟩
      · exact nomatch h

/-- Two operations on a list, one after the other, are accepted if, item by item, the second one
accepts what the first one makes. -/
theorem mapM_mapM_eq_ok {γ : Type} {f : α → Except ε β} {g : β → Except ε γ} {xs : List α}
    {zs : List γ} :
    xs.mapM f >>= (·.mapM g) = .ok zs ↔ xs.mapM (fun x => f x >>= g) = .ok zs := by
  induction xs generalizing zs with
  | nil => rfl
  | cons x xs ih =>
    simp only [bind_eq_ok] at ih
    simp only [mapM_eq_ok, bind_eq_ok, List.forall₂_cons_left_iff] at ih ⊢
    constructor
    · rintro ⟨_, ⟨y, ys, hy, hys, rfl⟩, hg⟩
      obtain ⟨z, zs, hz, hzs, rfl⟩ := List.forall₂_cons_left_iff.mp hg
      exact ⟨z, zs, ⟨y, hy, hz⟩, ih.mp ⟨ys, hys, hzs⟩, rfl⟩
    · rintro ⟨z, zs, ⟨y, hy, hz⟩, hzs, rfl⟩
      obtain ⟨ys, hys, hzs⟩ := ih.mpr hzs
      exact ⟨y :: ys, ⟨y, ys, hy, hys, rfl⟩, .cons hz hzs⟩

/-- Items that are all read without fault. -/
theorem mapM_of_ok {f : α → Except ε β} {g : α → β} {xs : List α}
    (ok : ∀ x ∈ xs, f x = .ok (g x)) : xs.mapM f = .ok (xs.map g) := by
  rw [mapM_eq_ok, List.forall₂_map_right_iff, List.forall₂_same]
  exact ok

/-- Items that are all read as they are. -/
theorem mapM_self_of_ok {f : α → Except ε α} {xs : List α} (ok : ∀ x ∈ xs, f x = .ok x) :
    xs.mapM f = .ok xs := by
  rw [mapM_of_ok (g := id) ok, List.map_id]

end Lists

end MigrationPlan
