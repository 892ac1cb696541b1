import Mathlib.Logic.Equiv.Defs
import MigrationPlan.Problem.Sample
import MigrationPlan.Proofs.Evaluation.Rows

/-!
# Proofs/Evaluation/Calls — a population through its calls

A call is all or nothing.  It fills both tables with what each row is worth by itself, in the order
of the rows, and counts them (`Fills`, **`fills_iff_tabulates`**); or one of its rows is refused by
itself, and then neither the tables nor the count change (**`fill_cases`**).  What a row is worth
depends on the evaluator only, which no call changes, and is what is reported of the selection that
the row marks (`Evaluator.evaluateRow_eq`).  So tables of rows put together are put together, tables
of rows in another order are in that order, and behind any calls the count is the number of rows of
those that were filled: **`run_rowwise`**.
-/

namespace MigrationPlan

variable {e : Evaluator} {X Y : List Datum} {F G : List (List Binary64)}

/-! ## Rows by themselves -/

namespace Evaluator

variable [Memory]

/-- What a row is worth by itself: it is made into a variable, and this is evaluated. -/
def evaluateRow (e : Evaluator) (row : Datum) : Except Fault Evaluation := do
  let v ← (Population.new e).toVariable row
  e.evaluate v

/-- **A row with one mark per functionality is worth what is reported of its selection.** -/
theorem evaluateRow_eq {problem : Problem} {encoding : Encoding} {p : Population}
    (valid : problem.WellFormed)
    (hnew : Population.new? (new problem (some encoding)) = .ok p) {row : Datum} {marks : Bits}
    (hbits : row.bits? = .ok ([problem.functionalities], marks)) :
    p.evaluator.evaluateRow row = .ok (problem.reported (selectionOf marks)) := by
  obtain ⟨room, rfl⟩ := Population.new?_eq_ok.mp hnew
  have sized : Entry.IsWord problem.functionalities := room.isWord (by decide)
  have hlength : marks.length = problem.functionalities :=
    (Nested.length_of_read? hbits).trans List.prod_singleton
  have hselection : selectionOf marks ⊆ Finset.range problem.functionalities :=
    selectionOf_subset hlength
  rw [← marks_selectionOf hlength] at hbits
  have hvariable := Population.toVariable_of_bits encoding valid (room.mono (by omega)) hselection
    hbits
  exact (congrArg (· >>= _) hvariable).trans ((holds_decisionOf hselection).evaluate sized)

/-- **Two tables hold, row by row, what each row is worth by itself.** -/
structure Tabulates (e : Evaluator) (X : List Datum) (F G : List (List Binary64)) : Prop where
  length_minimized : F.length = X.length
  length_overruns : G.length = X.length
  row {i : Nat} {x : Datum} (hx : X[i]? = some x) :
    ∃ r, e.evaluateRow x = .ok r ∧ F[i]? = some r.minimized ∧ G[i]? = some r.overruns

/-- Evaluations of the rows, in their order, are tabulated. -/
theorem tabulates_of_mapM {rs : List Evaluation} (h : X.mapM e.evaluateRow = .ok rs) :
    e.Tabulates X (rs.map fun r => r.minimized) (rs.map fun r => r.overruns) := by
  obtain ⟨hlength, hrow⟩ := List.forall₂_iff_get.mp (mapM_eq_ok.mp h)
  refine ⟨by simp [hlength], by simp [hlength], fun {i x} hx => ?_⟩
  obtain ⟨hi, rfl⟩ := List.getElem?_eq_some_iff.mp hx
  have hi' : i < rs.length := hlength ▸ hi
  exact ⟨rs[i], hrow i hi hi', by simp [hi'], by simp [hi']⟩

/-- Rows have no two tables of objectives, and no two of overruns. -/
theorem Tabulates.unique {F' G' : List (List Binary64)} (h : e.Tabulates X F G)
    (h' : e.Tabulates X F' G') : F = F' ∧ G = G' := by
  have hrow (i : Nat) : F[i]? = F'[i]? ∧ G[i]? = G'[i]? := by
    cases hx : X[i]? with
    | none =>
      have hi := List.getElem?_eq_none_iff.mp hx
      rw [List.getElem?_eq_none (h.length_minimized ▸ hi),
        List.getElem?_eq_none (h'.length_minimized ▸ hi),
        List.getElem?_eq_none (h.length_overruns ▸ hi),
        List.getElem?_eq_none (h'.length_overruns ▸ hi)]
      exact ⟨rfl, rfl⟩
    | some x =>
      obtain ⟨r, hr, hF, hG⟩ := h.row hx
      obtain ⟨r', hr', hF', hG'⟩ := h'.row hx
      obtain rfl : r = r' := Except.ok.inj (hr.symm.trans hr')
      exact ⟨hF.trans hF'.symm, hG.trans hG'.symm⟩
  exact ⟨List.ext_getElem? fun i => (hrow i).1, List.ext_getElem? fun i => (hrow i).2⟩

/-- **Rows have tables if each of them can be evaluated by itself.** -/
theorem exists_tabulates_iff :
    (∃ F G, e.Tabulates X F G) ↔ ∀ x ∈ X, ∃ r, e.evaluateRow x = .ok r := by
  constructor
  · rintro ⟨F, G, h⟩ x hx
    obtain ⟨i, hi⟩ := List.getElem?_of_mem hx
    obtain ⟨r, hr, -⟩ := h.row hi
    exact ⟨r, hr⟩
  · intro h
    obtain ⟨rs, hrs⟩ := exists_forall₂_iff.mpr h
    exact ⟨_, _, tabulates_of_mapM (mapM_eq_ok.mpr hrs)⟩

/-- Tables are read off the evaluations. -/
theorem tabulates_iff :
    e.Tabulates X F G ↔ ∃ rs, X.mapM e.evaluateRow = .ok rs
      ∧ rs.map (fun r => r.minimized) = F ∧ rs.map (fun r => r.overruns) = G := by
  constructor
  · intro h
    obtain ⟨rs, hrs⟩ := exists_forall₂_iff.mpr (exists_tabulates_iff.mp ⟨F, G, h⟩)
    have hmapM := mapM_eq_ok.mpr hrs
    exact ⟨rs, hmapM, (tabulates_of_mapM hmapM).unique h⟩
  · rintro ⟨rs, hrs, rfl, rfl⟩
    exact tabulates_of_mapM hrs

/-- **Tables of rows put together.** -/
theorem tabulates_append :
    e.Tabulates (X ++ Y) F G ↔ ∃ F₁ G₁ F₂ G₂, e.Tabulates X F₁ G₁ ∧ e.Tabulates Y F₂ G₂
      ∧ F₁ ++ F₂ = F ∧ G₁ ++ G₂ = G := by
  simp only [tabulates_iff, List.mapM_append, bind_eq_ok]
  constructor
  · rintro ⟨_, ⟨rs, hrs, ss, hss, ⟨⟩⟩, rfl, rfl⟩
    exact ⟨_, _, _, _, ⟨rs, hrs, rfl, rfl⟩, ⟨ss, hss, rfl, rfl⟩, by simp, by simp⟩
  · rintro ⟨_, _, _, _, ⟨rs, hrs, rfl, rfl⟩, ⟨ss, hss, rfl, rfl⟩, rfl, rfl⟩
    exact ⟨rs ++ ss, ⟨rs, hrs, ss, hss, rfl⟩, by simp, by simp⟩

/-- **Tables of rows in another order.** -/
theorem Tabulates.permute {n : Nat} {X : Fin n → Datum} {F G : Fin n → List Binary64}
    (h : e.Tabulates (List.ofFn X) (List.ofFn F) (List.ofFn G)) (σ : Equiv.Perm (Fin n)) :
    e.Tabulates (List.ofFn (X ∘ σ)) (List.ofFn (F ∘ σ)) (List.ofFn (G ∘ σ)) := by
  refine ⟨by simp, by simp, fun {i x} hx => ?_⟩
  obtain ⟨hi, rfl⟩ := List.getElem?_eq_some_iff.mp hx
  rw [List.length_ofFn] at hi
  obtain ⟨r, hr, hF, hG⟩ := h.row (i := σ ⟨i, hi⟩) (x := X (σ ⟨i, hi⟩)) (by simp)
  exact ⟨r, by simpa using hr, by simpa [hi] using hF, by simpa [hi] using hG⟩

end Evaluator

namespace Population

section Calls

variable [Memory] {p : Population} {call : Call}

/-! ## One call -/

/-- The population behind a call that is filled. -/
def counting (p : Population) (X : List Datum) : Population :=
  { p with evaluations := p.evaluations + X.length }

/-- **All rows are evaluated by themselves and counted, or one of them is refused by itself and none
is counted.** -/
theorem evaluateRows_cases (p : Population) (X : List Datum) :
    (∃ rs, X.mapM p.evaluator.evaluateRow = .ok rs ∧ p.evaluateRows X = ⟨p.counting X, .ok rs⟩)
      ∨ ∃ fault, p.evaluateRows X = ⟨p, .error fault⟩
        ∧ ∃ x ∈ X, p.evaluator.evaluateRow x = .error fault := by
  have hcommit : p.evaluateRows X = Outcome.commit p
      ((X.mapM p.toVariable >>= p.evaluator.evaluateBatch).map fun rs => (p.counting X, rs)) := by
    rw [map_of_bind]
    rfl
  cases hbatch : X.mapM p.toVariable >>= p.evaluator.evaluateBatch with
  | ok rs =>
    rw [hcommit, hbatch]
    exact .inl ⟨rs, mapM_mapM_eq_ok.mp hbatch, rfl⟩
  | error fault =>
    rw [hcommit, hbatch]
    refine .inr ⟨fault, rfl, ?_⟩
    obtain hvs | ⟨vs, hvs, hrs⟩ := bind_eq_error.mp hbatch
    · obtain ⟨x, hx, hfault⟩ := exists_of_mapM_eq_error hvs
      exact ⟨x, hx, bind_eq_error.mpr (.inl hfault)⟩
    · obtain ⟨v, hv, hfault⟩ := exists_of_mapM_eq_error hrs
      obtain ⟨x, hx, hxv⟩ := exists_of_mem_mapM hvs hv
      exact ⟨x, hx, bind_eq_error.mpr (.inr ⟨v, hxv, hfault⟩)⟩

/-- **A call on rows fills the tables it is given with these, and counts the rows.** -/
def Fills (p : Population) (X : List Datum) (F G : List (List Binary64)) : Prop :=
  ∀ tables, p.fill ⟨X, tables⟩
    = ⟨(p.counting X, ⟨some (p.evaluator.table F), some (p.evaluator.table G)⟩), .ok ()⟩

/-- A call is refused for what one of its rows is refused for by itself; tables and count stay. -/
structure Refuses (p : Population) (call : Call) (fault : Fault) : Prop where
  outcome : p.fill call = ⟨(p, call.tables), .error fault⟩
  refused : ∃ x ∈ call.rows, p.evaluator.evaluateRow x = .error fault

/-- **A call is filled with the tables of its rows, or refused.** -/
theorem fill_cases (p : Population) (call : Call) :
    (∃ F G, p.evaluator.Tabulates call.rows F G ∧ p.Fills call.rows F G)
      ∨ ∃ fault, p.Refuses call fault := by
  obtain ⟨rs, hrs, hrows⟩ | ⟨fault, hrows, refused⟩ := p.evaluateRows_cases call.rows
  · refine .inl ⟨_, _, Evaluator.tabulates_of_mapM hrs, fun tables => ?_⟩
    simp only [fill, hrows]
  · exact .inr ⟨fault, by simp only [fill, hrows], refused⟩

/-- **A call is filled with two tables if they hold, row by row, what each row is worth by
itself.** -/
theorem fills_iff_tabulates : p.Fills X F G ↔ p.evaluator.Tabulates X F G := by
  obtain ⟨F', G', htable, hfills⟩ | ⟨fault, houtcome, x, hx, hfault⟩ :=
    p.fill_cases ⟨X, none, none⟩
  · constructor
    · intro h
      have hsame := congrArg (fun out => out.state.2) ((h ⟨none, none⟩).symm.trans (hfills _))
      obtain ⟨rfl, rfl⟩ : F = F' ∧ G = G' := by simpa [Evaluator.table] using hsame
      exact htable
    · intro h
      obtain ⟨rfl, rfl⟩ := h.unique htable
      exact hfills
  · constructor
    · intro h
      exact nomatch congrArg (fun out => out.answer) ((h ⟨none, none⟩).symm.trans houtcome)
    · intro h
      obtain ⟨r, hr⟩ := Evaluator.exists_tabulates_iff.mp ⟨F, G, h⟩ x hx
      exact nomatch hr.symm.trans hfault

/-! ## Several calls -/

/-- The rows of the calls that were filled, by what came of each call. -/
def filledRows : List Call → List (Outcome (Population × Tables) Unit) → Nat
  | call :: calls, out :: outs =>
    (if out.answer.isOk then call.rows.length else 0) + filledRows calls outs
  | _, _ => 0

/-- A call counts its rows if it is filled, and changes nothing else. -/
theorem state_fill (p : Population) (call : Call) :
    (p.fill call).state.1 = ⟨p.evaluator,
      p.evaluations + if (p.fill call).answer.isOk then call.rows.length else 0⟩ := by
  obtain ⟨F, G, -, hfills⟩ | ⟨fault, houtcome, -⟩ := p.fill_cases call
  · rw [hfills call.tables]
    rfl
  · rw [houtcome]
    rfl

/-- **Behind any calls, the count has grown by the rows of those that were filled.** -/
theorem after_eq (p : Population) (calls : List Call) :
    p.after calls = ⟨p.evaluator, p.evaluations + filledRows calls (p.run calls)⟩ := by
  induction calls generalizing p with
  | nil => rfl
  | cons call calls ih =>
    have hstep : p.after (call :: calls) = (p.fill call).state.1.after calls := rfl
    rw [hstep, ih, run, filledRows, state_fill, Nat.add_assoc]

/-- Each of several calls is made to the population behind those before it. -/
theorem getElem?_run (p : Population) (calls : List Call) (k : Nat) :
    (p.run calls)[k]? = calls[k]?.map (p.after (calls.take k)).fill := by
  induction calls generalizing p k with
  | nil => rfl
  | cons call calls ih =>
    cases k with
    | zero => rfl
    | succ k =>
      have hstep : p.after ((call :: calls).take (k + 1))
          = (p.fill call).state.1.after (calls.take k) := rfl
      rw [run, hstep, List.getElem?_cons_succ, List.getElem?_cons_succ, ih]

/-- **A population through its calls.**  A call is filled with the objectives and the overruns of
its rows, each as it is worth by itself; so calls on rows put together, or in another order, are
filled with tables put together, or in that order.  A call that is not filled is refused for one of
its rows and changes nothing.  Behind any calls the evaluator is the same, and the count has grown
by the rows of the calls that were filled.  A row with one mark per functionality is worth what is
reported of the selection that it marks, under either encoding. -/
theorem run_rowwise (p : Population) :
    (∀ X F G, p.Fills X F G ↔ p.evaluator.Tabulates X F G)
      ∧ (∀ X Y F G, p.Fills (X ++ Y) F G ↔ ∃ F₁ G₁ F₂ G₂, p.Fills X F₁ G₁ ∧ p.Fills Y F₂ G₂
        ∧ F₁ ++ F₂ = F ∧ G₁ ++ G₂ = G)
      ∧ (∀ (n : Nat) (X : Fin n → Datum) (F G : Fin n → List Binary64) (σ : Equiv.Perm (Fin n)),
        p.Fills (List.ofFn X) (List.ofFn F) (List.ofFn G) →
          p.Fills (List.ofFn (X ∘ σ)) (List.ofFn (F ∘ σ)) (List.ofFn (G ∘ σ)))
      ∧ (∀ call, (∃ F G, p.Fills call.rows F G) ∨ ∃ fault, p.Refuses call fault)
      ∧ (∀ calls, p.after calls = ⟨p.evaluator, p.evaluations + filledRows calls (p.run calls)⟩
        ∧ ∀ k, (p.run calls)[k]? = calls[k]?.map (p.after (calls.take k)).fill)
      ∧ ∀ (problem : Problem) (encoding : Encoding), problem.WellFormed →
        new? (Evaluator.new problem (some encoding)) = .ok p → ∀ row marks,
          row.bits? = .ok ([problem.functionalities], marks) →
          p.evaluator.evaluateRow row = .ok (problem.reported (selectionOf marks)) := by
  refine ⟨fun X F G => fills_iff_tabulates, fun X Y F G => ?_, fun n X F G σ => ?_, fun call => ?_,
    fun calls => ⟨p.after_eq calls, p.getElem?_run calls⟩,
    fun problem encoding valid hnew row marks hbits => Evaluator.evaluateRow_eq valid hnew hbits⟩
  · simp only [fills_iff_tabulates, Evaluator.tabulates_append]
  · simp only [fills_iff_tabulates]
    exact fun htable => htable.permute σ
  · obtain ⟨F, G, -, hfills⟩ | hrefused := p.fill_cases call
    · exact .inl ⟨F, G, hfills⟩
    · exact .inr hrefused

end Calls

/-- A call with a row that is too short counts nothing, and the next one counts its row. -/
example : ((new (Evaluator.new sampleProblem (some .binary))).after
    [⟨[.flags (List.replicate 12 true), .flags [true]], none, none⟩,
      ⟨[.flags (List.replicate 12 true)], none, none⟩]).evaluations = 1 := by
  decide +kernel

end Population

end MigrationPlan
