import MigrationPlan.Proofs.Variable.Write
import MigrationPlan.Variable.Session

/-!
# Proofs/Variable/Session — what a run of operations is made of

One step of a session adds a variable, writes one, or writes a batch element by element; a batch
that is refused half-way leaves the elements before the refusal written.  `Change` is the smallest
of these moves.  A step is a chain of changes (`reaches_apply`), and so is a run
(**`pairwise_reaches_states`**), so that a property of all runs comes down to single changes:

* `forall_of_reaches` — what holds of variables that are made, copied and written holds of all;
* `becomes_of_reaches` — a variable stays at its position and is changed by writes alone, so that it
  keeps its frame (`extends_of_reaches`).
-/

namespace MigrationPlan

@[simp] theorem Variable.at?_eq_ok {pool : List Variable} {i : Nat} {v : Variable} :
    at? pool i = .ok v ↔ pool[i]? = some v := by
  rw [at?]
  rcases pool[i]? with _ | w <;> simp

/-- What an operation leaves behind is what was there before, or what its success leaves. -/
theorem Outcome.state_commit {σ α : Type} {P : σ → Prop} {before : σ}
    {result : Except Fault (σ × α)} (hbefore : P before)
    (hafter : ∀ after a, result = .ok (after, a) → P after) : P (commit before result).state := by
  rcases result with fault | ⟨after, a⟩
  · exact hbefore
  · exact hafter after a rfl

/-- A step that makes variables only from some specifications. -/
def Step.MakesOnly (made : VariableSpec → Prop) : Step → Prop
  | create spec => made spec
  | _ => True

namespace Session

variable [Memory] {made : VariableSpec → Prop} {s t : Session}

/-! ## Changes -/

/-- **The smallest change of a session**, where variables are made only from some specifications. -/
inductive Change (made : VariableSpec → Prop) : Session → Session → Prop
  | create {s : Session} {spec : VariableSpec} {v : Variable} (hspec : made spec)
      (hv : spec.create = .ok v) : Change made s (s ++ [v])
  | copy {s : Session} {i : Nat} {v w : Variable} (hv : s[i]? = some v) (hw : v.copy = .ok w) :
      Change made s (s ++ [w])
  | write {s : Session} {i : Nat} {v w : Variable} (hv : s[i]? = some v) (hw : v.Becomes w) :
      Change made s (s.set i w)

/-- A chain of changes. -/
abbrev Reaches (made : VariableSpec → Prop) : Session → Session → Prop :=
  Relation.ReflTransGen (Change made)

omit [Memory] in
/-- A variable at the end of a session moves none of the others. -/
theorem getElem?_append_of_getElem? {i : Nat} {v w : Variable} (hv : s[i]? = some v) :
    (s ++ [w])[i]? = some v := by
  rw [List.getElem?_append_left (List.getElem?_eq_some_iff.mp hv).1, hv]

/-- A change leaves a variable alone or writes it. -/
theorem Change.becomes {i : Nat} {v : Variable} (h : Change made s t) (hv : s[i]? = some v) :
    ∃ w, t[i]? = some w ∧ Relation.ReflTransGen Variable.Becomes v w := by
  cases h with
  | create => exact ⟨v, getElem?_append_of_getElem? hv, .refl⟩
  | copy => exact ⟨v, getElem?_append_of_getElem? hv, .refl⟩
  | @write j u w hu hw =>
    by_cases hij : j = i
    · subst hij
      obtain rfl : u = v := Option.some.inj (hu.symm.trans hv)
      have hlt : j < s.length := (List.getElem?_eq_some_iff.mp hv).1
      exact ⟨w, by simp [hlt], .single hw⟩
    · exact ⟨v, by rw [List.getElem?_set_ne hij, hv], .refl⟩

/-- **Each variable stays at its position and is changed by writes alone.** -/
theorem becomes_of_reaches {i : Nat} {v : Variable} (h : Reaches made s t) (hv : s[i]? = some v) :
    ∃ w, t[i]? = some w ∧ Relation.ReflTransGen Variable.Becomes v w := by
  induction h with
  | refl => exact ⟨v, hv, .refl⟩
  | tail _ hchange ih =>
    obtain ⟨w, hw, hvw⟩ := ih
    obtain ⟨x, hx, hwx⟩ := hchange.becomes hw
    exact ⟨x, hx, hvw.trans hwx⟩

/-- **Every variable is still there, with its frame.** -/
def Extends (s t : Session) : Prop :=
  ∀ (i : Nat) (v : Variable), s[i]? = some v → ∃ w : Variable, t[i]? = some w ∧ w.frame = v.frame

/-- **Positions and frames stay.** -/
theorem extends_of_reaches (h : Reaches made s t) : s.Extends t := by
  intro i v hv
  obtain ⟨w, hw, hvw⟩ := becomes_of_reaches h hv
  exact ⟨w, hw, Variable.frame_eq_of_becomes hvw⟩

/-- **What every change keeps holds throughout.** -/
theorem forall_of_reaches {P : Variable → Prop}
    (create : ∀ spec v, made spec → spec.create = .ok v → P v)
    (copy : ∀ v w : Variable, v.copy = .ok w → P v → P w)
    (write : ∀ v w : Variable, v.Becomes w → P v → P w) (h : Reaches made s t)
    (hs : ∀ v ∈ s, P v) : ∀ v ∈ t, P v := by
  induction h with
  | refl => exact hs
  | tail _ hchange ih =>
    cases hchange with
    | create hspec hv =>
      have hnew := create _ _ hspec hv
      exact List.forall_mem_append.mpr ⟨ih, List.forall_mem_singleton.mpr hnew⟩
    | copy hv hw =>
      have hnew := copy _ _ hw (ih _ (List.mem_of_getElem? hv))
      exact List.forall_mem_append.mpr ⟨ih, List.forall_mem_singleton.mpr hnew⟩
    | write hv hw =>
      intro x hx
      rcases List.mem_or_eq_of_mem_set hx with hx | rfl
      · exact ih x hx
      · exact write _ _ hw (ih _ (List.mem_of_getElem? hv))

/-! ## Steps -/

theorem reaches_push {v : Except Fault Variable}
    (h : ∀ w, v = .ok w → Change made s (s ++ [w])) : Reaches made s (s.push v).state := by
  refine Outcome.state_commit .refl fun after a hafter => ?_
  obtain ⟨w, hw, h'⟩ := map_eq_ok.mp hafter
  obtain ⟨rfl, -⟩ := Prod.mk.inj h'
  exact .single (h w hw)

theorem reaches_write {target : Datum} {change : Variable → Except Fault Variable}
    (h : ∀ v w, change v = .ok w → v.Becomes w) :
    Reaches made s (s.write target change).state := by
  refine Outcome.state_commit .refl fun after a hafter => ?_
  simp only [bind_eq_ok, map_eq_ok, get?, Variable.at?_eq_ok, Prod.mk.injEq] at hafter
  obtain ⟨i, -, v, hv, w, hw, rfl, -⟩ := hafter
  exact .single (.write hv (h v w hw))

theorem reaches_writeFrom {source target : Datum}
    {change : Variable → Variable → Except Fault Variable}
    (h : ∀ u v w, change u v = .ok w → v.Becomes w) :
    Reaches made s (s.writeFrom source target change).state := by
  refine Outcome.state_commit .refl fun after a hafter => ?_
  simp only [bind_eq_ok, map_eq_ok, get?, Variable.at?_eq_ok, Prod.mk.injEq] at hafter
  obtain ⟨_, -, u, -, i, -, v, hv, w, hw, rfl, -⟩ := hafter
  exact .single (.write hv (h u v w hw))

/-- **A batch of integers is written one by one**, as far as it goes. -/
theorem reaches_writeInts (checked : List (Nat × Int)) (s : Session) :
    Reaches made s (Variable.writeInts checked s).state := by
  induction checked generalizing s with
  | nil => exact .refl
  | cons entry rest ih =>
    obtain ⟨i, x⟩ := entry
    rw [Variable.writeInts]
    split
    · next w hw =>
      obtain ⟨v, hv, hw⟩ := bind_eq_ok.mp hw
      exact .head (.write (Variable.at?_eq_ok.mp hv) (.setInt hw)) (ih _)
    · exact .refl

theorem reaches_setInts {batch : Batch} {values start : Datum} {stop : Option Datum} :
    Reaches made s (Variable.setInts s batch values start stop).state := by
  rw [Variable.setInts]
  split
  · exact reaches_writeInts _ s
  · exact .refl

omit [Memory] in
theorem modify_eq_set {i : Nat} {v : Variable} {f : Variable → Variable} (hv : s[i]? = some v) :
    s.modify i f = s.set i (f v) := by
  have : Inhabited Variable := ⟨v⟩
  rw [List.modify_eq_set, hv]
  rfl

omit [Memory] in
/-- A double that is written where a real is replaces its value. -/
theorem writeReals_cons {i : Nat} {r : RealVariable} {x : Binary64}
    {rest : List (Nat × Binary64)} (hr : s[i]? = some (.real r)) :
    Variable.writeReals s ((i, x) :: rest)
      = Variable.writeReals (s.set i (.real { r with value := .real x })) rest :=
  congrArg (Variable.writeReals · rest) (modify_eq_set hr)

/-- Doubles that lie in the bounds of their variables are written one by one, as by `setReal`. -/
theorem reaches_writeReals (checked : List (Nat × Binary64)) (s : Session)
    (h : ∀ entry ∈ checked, ∃ r : RealVariable, s[entry.1]? = some (.real r)
      ∧ r.lower.le entry.2 ∧ entry.2.le r.upper) :
    Reaches made s (Variable.writeReals s checked) := by
  induction checked generalizing s with
  | nil => exact .refl
  | cons entry rest ih =>
    obtain ⟨⟨r, hr, hlower, hupper⟩, hrest⟩ := List.forall_mem_cons.mp h
    obtain ⟨i, x⟩ := entry
    have hcheck : Variable.checkReal r (.real x) = .ok x := if_pos (by simp [hlower, hupper])
    have hwrite := Variable.setReal_eq_ok.mpr ⟨r, rfl, x, hcheck, rfl⟩
    rw [writeReals_cons hr]
    refine .head (.write hr (.setReal hwrite)) (ih _ fun entry hentry => ?_)
    obtain ⟨r', hr', hbounds⟩ := hrest entry hentry
    by_cases hi : i = entry.1
    · obtain rfl : r = r' := by simpa [← hi, hr] using hr'
      have hlt : i < s.length := (List.getElem?_eq_some_iff.mp hr).1
      exact ⟨{ r with value := .real x }, by simp [← hi, hlt], hbounds⟩
    · exact ⟨r', by rw [List.getElem?_set_ne hi, hr'], hbounds⟩

theorem reaches_setReals {batch : Batch} {values start : Datum} {stop : Option Datum} :
    Reaches made s (Variable.setReals s batch values start stop).state := by
  refine Outcome.state_commit .refl fun after a hafter => ?_
  simp only [bind_eq_ok, Except.ok.injEq, Prod.mk.injEq] at hafter
  obtain ⟨is, -, values, -, _, -, checked, hchecked, rfl, -⟩ := hafter
  refine reaches_writeReals checked s fun entry hentry => ?_
  obtain ⟨⟨i, d⟩, -, hcheck⟩ := exists_of_mem_mapM hchecked hentry
  simp only [bind_eq_ok, map_eq_ok, Variable.at?_eq_ok, Variable.real?_eq_ok] at hcheck
  obtain ⟨_, hr, x, ⟨r, rfl, hx⟩, rfl⟩ := hcheck
  exact ⟨r, hr, Variable.bounds_of_checkReal hx⟩

theorem reaches_writeBatch {names : Option (List Datum)}
    {change : Batch → Outcome (List Variable) Unit}
    (h : ∀ batch, Reaches made s (change batch).state) :
    Reaches made s (s.writeBatch names change).state := by
  rw [writeBatch]
  split
  · exact .refl
  · exact h _

/-- **A step is a chain of changes**, also where it is refused. -/
theorem reaches_apply {step : Step} (h : step.MakesOnly made) :
    Reaches made s (s.apply step).state := by
  cases step with
  | create spec => exact reaches_push fun w hw => .create h hw
  | copy target =>
    refine reaches_push fun w hw => ?_
    simp only [bind_eq_ok, get?, Variable.at?_eq_ok] at hw
    obtain ⟨i, -, v, hv, hw⟩ := hw
    exact .copy hv hw
  | text | size | asReal | asInt | asBinary | asBitset | asBoolean | asSubset | asPermutation
  | asReals | asInts => exact .refl
  | setReal target value => exact reaches_write fun _ _ => .setReal
  | setInt target value => exact reaches_write fun _ _ => .setInt
  | setBinary target array => exact reaches_write fun _ _ => .setBinary
  | setBitset target indices => exact reaches_write fun _ _ => .setBitset
  | setBoolean target value => exact reaches_write fun _ _ => .setBoolean
  | setSubset target members => exact reaches_write fun _ _ => .setSubset
  | setPermutation target array => exact reaches_write fun _ _ => .setPermutation
  | encodeInto source target gray => exact reaches_writeFrom fun _ _ _ => .encodeInto
  | decodeInto source target gray => exact reaches_writeFrom fun _ _ _ => .decodeInto
  | setReals names values start stop => exact reaches_writeBatch fun _ => reaches_setReals
  | setInts names values start stop => exact reaches_writeBatch fun _ => reaches_setInts

/-! ## Runs -/

/-- The states of a run, the one it starts from included. -/
def states (s : Session) (steps : List Step) : List Session :=
  s :: (s.run steps).map (·.state)

/-- **Each state of a run is reached from every one before.** -/
theorem pairwise_reaches_states {steps : List Step} (s : Session)
    (h : ∀ step ∈ steps, step.MakesOnly made) :
    (s.states steps).Pairwise (Reaches made) := by
  induction steps generalizing s with
  | nil => exact List.pairwise_singleton _ _
  | cons step steps ih =>
    obtain ⟨hstep, hsteps⟩ := List.forall_mem_cons.mp h
    have hnext : Reaches made s (s.apply step).state := reaches_apply hstep
    have hrest := ih (s.apply step).state hsteps
    refine List.pairwise_cons.mpr ⟨fun t ht => ?_, hrest⟩
    rcases List.mem_cons.mp ht with rfl | ht
    · exact hnext
    · exact hnext.trans (List.rel_of_pairwise_cons hrest ht)

theorem reaches_of_mem_states {steps : List Step} (h : ∀ step ∈ steps, step.MakesOnly made)
    (ht : t ∈ s.states steps) : Reaches made s t := by
  rcases List.mem_cons.mp ht with rfl | ht
  · exact .refl
  · exact List.rel_of_pairwise_cons (pairwise_reaches_states s h) ht

end Session

end MigrationPlan
