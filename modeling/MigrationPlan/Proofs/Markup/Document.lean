import MigrationPlan.Markup.Document
import Mathlib.Data.List.Nodup

/-!
# Proofs/Markup/Document — what mappings say, one laid over the other

A mapping names each key once (`Document.IsKeyed`), and gives a value for it (`Fields.given?`) or,
where the value is missing, none.  Laid over another mapping it decides all that it gives a value
for and leaves the rest as it was: **`Document.given?_overlayFields`**.  Both are mappings that name
each key once, and so is what comes of them: **`Document.IsKeyed.overlay`**.
-/

namespace MigrationPlan

variable {key k : String} {value d lower upper : Document} {base fields : Fields}

/-! ## Keys -/

namespace Fields

/-- The value that is given for a key; one that is missing is not given. -/
def given? (key : String) (fs : Fields) : Option Document :=
  match fs.get? key with
  | some .missing => none
  | found => found

/-- The keys, in the order of the fields. -/
def keys (fs : Fields) : List String :=
  fs.map (·.1)

theorem get?_cons :
    get? k ((key, value) :: fields) = if k = key then some value else get? k fields := by
  rw [get?, List.lookup_cons]
  by_cases h : k = key
  · rw [if_pos h, h, beq_self_eq_true]
  · rw [if_neg h, beq_eq_false_iff_ne.mpr h]
    rfl

theorem get?_of_not_mem (h : key ∉ fields.keys) : fields.get? key = none := by
  rw [get?, List.lookup_eq_none_iff]
  intro entry hentry
  rw [bne_iff_ne]
  exact fun heq => h (heq ▸ List.mem_map_of_mem hentry)

theorem mem_of_get? (h : fields.get? key = some d) : (key, d) ∈ fields := by
  obtain ⟨before, after, rfl, -⟩ := List.lookup_eq_some_iff.mp h
  exact List.mem_append_right _ (List.mem_cons_self ..)

theorem given?_eq_some : fields.given? key = some d ↔ fields.get? key = some d ∧ d ≠ .missing := by
  rw [given?]
  split
  · next hget => simp +contextual [hget]
  · next hget =>
    refine ⟨fun h => ⟨h, ?_⟩, And.left⟩
    rintro rfl
    exact hget h

theorem given?_eq_none :
    fields.given? key = none ↔ fields.get? key = none ∨ fields.get? key = some .missing := by
  rw [given?]
  split
  · next hget => simp [hget]
  · next hget => exact (or_iff_left hget).symm

theorem given?_eq_none_of_forall (h : ∀ value, (key, value) ∈ fields → value = .missing) :
    fields.given? key = none := by
  rw [given?_eq_none]
  cases hget : fields.get? key with
  | none => exact .inl rfl
  | some value => exact .inr (congrArg some (h value (mem_of_get? hget)))

/-- **A value that is put under a key is found there**, and nothing else changes. -/
theorem get?_put : (base.put key value).get? k = if k = key then some value else base.get? k := by
  induction base with
  | nil => exact get?_cons
  | cons entry base ih =>
    rw [put]
    split
    · next h =>
      rw [get?_cons, get?_cons, h]
      split <;> rfl
    · next h =>
      rw [get?_cons, get?_cons, ih]
      by_cases hk : k = entry.1
      · rw [if_pos hk, if_neg (hk ▸ h), if_pos hk]
      · rw [if_neg hk, if_neg hk]

theorem mem_put {entry : String × Document} (h : entry ∈ base.put key value) :
    entry = (key, value) ∨ entry ∈ base := by
  induction base with
  | nil => exact .inl (List.mem_singleton.mp h)
  | cons first base ih =>
    rw [put] at h
    split at h
    · next heq =>
      rw [heq] at h
      exact (List.mem_cons.mp h).imp_right (List.mem_cons_of_mem _)
    · obtain rfl | h := List.mem_cons.mp h
      · exact .inr (List.mem_cons_self ..)
      · exact (ih h).imp_right (List.mem_cons_of_mem _)

/-- A key that is put in is there once. -/
theorem nodup_keys_put (h : base.keys.Nodup) : (base.put key value).keys.Nodup := by
  induction base with
  | nil => exact List.nodup_singleton key
  | cons first base ih =>
    obtain ⟨hfirst, hbase⟩ := List.nodup_cons.mp h
    rw [put]
    split
    · exact h
    · next hne =>
      refine List.nodup_cons.mpr ⟨fun hmem => ?_, ih hbase⟩
      obtain ⟨entry, hentry, heq⟩ := List.mem_map.mp hmem
      obtain rfl | hentry := mem_put hentry
      · exact hne heq.symm
      · exact hfirst (heq ▸ List.mem_map_of_mem hentry)

end Fields

/-! ## Overlays -/

namespace Document

/-- Nothing but a mapping is laid over another document; all else takes its place. -/
theorem overlay_of_upper (h : ∀ fields, upper ≠ mapping fields) : lower.overlay upper = upper := by
  cases upper with
  | mapping fields => exact absurd rfl (h fields)
  | _ => rfl

/-- Over nothing but a mapping is a document laid; of all else it takes the place. -/
theorem overlay_of_lower (h : ∀ base, lower ≠ mapping base) : lower.overlay upper = upper := by
  cases upper with
  | mapping fields =>
    cases lower with
    | mapping base => exact absurd rfl (h base)
    | _ => rfl
  | _ => rfl

theorem overlay_ne_missing (h : upper ≠ missing) : lower.overlay upper ≠ missing := by
  cases upper with
  | mapping fields => cases lower <;> exact nofun
  | _ => exact h

/-- A value laid over the one that is under its key, if one is. -/
def laidOver (lower : Option Document) (upper : Document) : Document :=
  lower.elim upper (·.overlay upper)

theorem laidOver_ne_missing {lower : Option Document} (h : upper ≠ missing) :
    laidOver lower upper ≠ missing := by
  cases lower with
  | none => exact h
  | some lower => exact overlay_ne_missing h

/-- What is no mapping takes the place of what is under its key. -/
theorem laidOver_of_upper {lower : Option Document} (h : ∀ fields, upper ≠ mapping fields) :
    laidOver lower upper = upper := by
  cases lower with
  | none => rfl
  | some lower => exact overlay_of_upper h

theorem laidOver_of_given?_eq_none (h : base.given? key = none) :
    laidOver (base.get? key) upper = upper := by
  obtain hget | hget := Fields.given?_eq_none.mp h
  · rw [hget]
    rfl
  · rw [hget]
    exact overlay_of_lower nofun

theorem laidOver_of_given? (h : base.given? key = some lower) :
    laidOver (base.get? key) upper = lower.overlay upper := by
  rw [(Fields.given?_eq_some.mp h).1]
  rfl

theorem overlayFields_missing :
    overlayFields base ((key, missing) :: fields) = overlayFields base fields := rfl

theorem overlayFields_cons (h : value ≠ missing) :
    overlayFields base ((key, value) :: fields)
      = overlayFields (base.put key (laidOver (base.get? key) value)) fields := by
  rw [overlayFields]
  · cases base.get? key <;> rfl
  · exact h

/-- **What is under a key of two mappings**, one laid over the other: if the upper one gives a value
for it, that value laid over the one of the lower mapping, and else what the lower one has. -/
theorem get?_overlayFields (distinct : fields.keys.Nodup) :
    (overlayFields base fields).get? key
      = (fields.given? key).elim (base.get? key) fun d => some (laidOver (base.get? key) d) := by
  induction fields generalizing base with
  | nil => rfl
  | cons entry fields ih =>
    obtain ⟨k, value⟩ := entry
    obtain ⟨hk, hfields⟩ := List.nodup_cons.mp distinct
    have hnone : Fields.given? k fields = none :=
      Fields.given?_eq_none.mpr (.inl (Fields.get?_of_not_mem hk))
    have hother (hkey : key ≠ k) :
        Fields.given? key ((k, value) :: fields) = Fields.given? key fields := by
      rw [Fields.given?, Fields.given?, Fields.get?_cons, if_neg hkey]
    have hsame : Fields.get? k ((k, value) :: fields) = some value :=
      Fields.get?_cons.trans (if_pos rfl)
    by_cases hvalue : value = missing
    · rw [hvalue, overlayFields_missing, ih hfields, ← hvalue]
      by_cases hkey : key = k
      · rw [hkey, hnone, Fields.given?_eq_none.mpr (.inr (hvalue ▸ hsame))]
      · rw [hother hkey]
    · rw [overlayFields_cons hvalue, ih hfields, Fields.get?_put]
      by_cases hkey : key = k
      · rw [hkey, hnone, Fields.given?_eq_some.mpr ⟨hsame, hvalue⟩, if_pos rfl]
        rfl
      · rw [if_neg hkey, hother hkey]

/-- **What two mappings give**, one laid over the other. -/
theorem given?_overlayFields (distinct : fields.keys.Nodup) :
    (overlayFields base fields).given? key
      = (fields.given? key).elim (base.given? key) fun d => some (laidOver (base.get? key) d) := by
  rcases hgiven : fields.given? key with _ | d
  · rw [Fields.given?, get?_overlayFields distinct, hgiven]
    rfl
  · obtain ⟨-, hd⟩ := Fields.given?_eq_some.mp hgiven
    rw [Option.elim_some, Fields.given?_eq_some, get?_overlayFields distinct, hgiven]
    exact ⟨rfl, laidOver_ne_missing hd⟩

/-! ## Keys that are named once -/

/-- **A document names each key once**, in a mapping and in the mappings that it holds. -/
inductive IsKeyed : Document → Prop where
  | mapping {fields : Fields} (distinct : fields.keys.Nodup)
      (inner : ∀ entry ∈ fields, IsKeyed entry.2) : IsKeyed (mapping fields)
  | other {d : Document} (h : ∀ fields, d ≠ .mapping fields) : IsKeyed d

theorem IsKeyed.distinct (h : IsKeyed (.mapping fields)) : fields.keys.Nodup := by
  cases h with
  | mapping distinct _ => exact distinct
  | other h => exact absurd rfl (h fields)

theorem IsKeyed.of_mem (h : IsKeyed (.mapping fields)) {entry : String × Document}
    (hentry : entry ∈ fields) : IsKeyed entry.2 := by
  cases h with
  | mapping _ inner => exact inner entry hentry
  | other h => exact absurd rfl (h fields)

theorem IsKeyed.of_given? (h : IsKeyed (.mapping fields)) (hgiven : fields.given? key = some d) :
    IsKeyed d :=
  h.of_mem (Fields.mem_of_get? (Fields.given?_eq_some.mp hgiven).1)

theorem IsKeyed.put (h : IsKeyed (.mapping base)) (hvalue : IsKeyed value) :
    IsKeyed (.mapping (base.put key value)) := by
  refine .mapping (Fields.nodup_keys_put h.distinct) fun entry hentry => ?_
  obtain rfl | hentry := Fields.mem_put hentry
  · exact hvalue
  · exact h.of_mem hentry

/-- Fields laid over a mapping one after the other. -/
theorem IsKeyed.overlayFields (hbase : IsKeyed (.mapping base))
    (hfields : ∀ entry ∈ fields, IsKeyed entry.2)
    (hoverlay : ∀ entry ∈ fields, ∀ {lower : Document}, IsKeyed lower →
      IsKeyed (lower.overlay entry.2)) :
    IsKeyed (.mapping (Document.overlayFields base fields)) := by
  induction fields generalizing base with
  | nil => exact hbase
  | cons entry fields ih =>
    obtain ⟨key, value⟩ := entry
    obtain ⟨hvalue, hfields⟩ := List.forall_mem_cons.mp hfields
    obtain ⟨hover, hoverlay⟩ := List.forall_mem_cons.mp hoverlay
    by_cases hmissing : value = missing
    · rw [hmissing, overlayFields_missing]
      exact ih hbase hfields hoverlay
    · rw [overlayFields_cons hmissing]
      refine ih (hbase.put ?_) hfields hoverlay
      rcases hget : base.get? key with _ | old
      · exact hvalue
      · exact hover (hbase.of_mem (Fields.mem_of_get? hget))

/-- **One document laid over another names each key once** if both do. -/
theorem IsKeyed.overlay (hupper : IsKeyed upper) (hlower : IsKeyed lower) :
    IsKeyed (lower.overlay upper) := by
  induction hupper generalizing lower with
  | other h =>
    rw [overlay_of_upper h]
    exact .other h
  | mapping distinct inner ih =>
    cases hlower with
    | other h =>
      rw [overlay_of_lower h]
      exact .mapping distinct inner
    | mapping distinct' inner' =>
      exact IsKeyed.overlayFields (.mapping distinct' inner') inner fun entry hentry _ hlower =>
        ih entry hentry hlower

end Document

end MigrationPlan
