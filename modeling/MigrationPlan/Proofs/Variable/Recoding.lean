import MigrationPlan.Proofs.Codec.Recoding
import MigrationPlan.Proofs.Variable.Session

/-!
# Proofs/Variable/Recoding — a real that goes through bits does not see their code

Writing a real into bits and reading them back, Gray coded both times, differs from doing so plainly
in nothing but the bits in between: the Gray session is the plain one with one bit vector recoded
(`apply_encodeInto_cases`), and reading from it commutes with the recoding
(`apply_decodeInto_recode`).  The main statement, for the codec and for the variables of a session,
is **`gray_throughBits_eq_plain`**.
-/

namespace MigrationPlan

/-! ## One variable -/

namespace Variable

variable {u v : Variable}

/-- The variable with its bits Gray coded; only bit vectors have bits. -/
def grayCoded : Variable → Variable
  | binary b => .binary ⟨Codec.toGray b.bits⟩
  | v => v

theorem real?_grayCoded (v : Variable) : v.grayCoded.real? = v.real? := by
  cases v <;> rfl

theorem grayCoded_eq_real {r : RealVariable} : v.grayCoded = .real r ↔ v = .real r := by
  cases v <;> simp [grayCoded]

theorem encodeInto_gray (u v : Variable) :
    u.encodeInto v true = (u.encodeInto v false).map grayCoded := by
  simp only [encodeInto, Codec.encodeReal_gray, map_of_bind, bind_of_map, ok_map, grayCoded]

/-- Recoded bits are read, Gray coded, as the plain ones. -/
theorem decodeInto_grayCoded (u v : Variable) :
    u.grayCoded.decodeInto v true = u.decodeInto v false := by
  cases u with
  | binary b => simp only [grayCoded, decodeInto, binary?, ok_bind, Codec.decodeReal_toGray]
  | real | integer | subset | permutation =>
    -- there are no bits, so that nothing is read in either code
    simp only [grayCoded, decodeInto, binary?, error_bind]

/-- What is read into a real depends on nothing but the real. -/
theorem decodeInto_congr {w : Variable} {gray : Bool} (h : v.real? = w.real?) :
    u.decodeInto v gray = u.decodeInto w gray := by
  rw [decodeInto, h, ← decodeInto]

end Variable

/-! ## Sessions -/

namespace Session

variable {s : Session} {source bits target : Datum} {v w : Variable} {i j : Nat}

/-- What a step looks up that names two variables. -/
def operands? (s : Session) (source target : Datum) : Except Fault (Variable × Nat × Variable) := do
  let v ← s.get? (← s.target? source)
  let j ← s.target? target
  let w ← s.get? j
  .ok (v, j, w)

theorem writeFrom_eq {change : Variable → Variable → Except Fault Variable} :
    s.writeFrom source target change
      = Outcome.commit s (s.operands? source target >>= fun (v, j, w) =>
          (change v w).map fun x => (s.set j x, .done)) := by
  simp only [writeFrom, operands?, bind_assoc, ok_bind]

theorem operands?_eq_ok :
    s.operands? source target = .ok (v, j, w) ↔
      (∃ i, s.target? source = .ok i ∧ s[i]? = some v) ∧ s.target? target = .ok j
        ∧ s[j]? = some w := by
  simp only [operands?, bind_eq_ok, get?, Variable.at?_eq_ok, Except.ok.injEq, Prod.mk.injEq]
  constructor
  · rintro ⟨i, hi, v, hv, j, hj, w, hw, rfl, rfl, rfl⟩
    exact ⟨⟨i, hi, hv⟩, hj, hw⟩
  · rintro ⟨⟨i, hi, hv⟩, hj, hw⟩
    exact ⟨i, hi, v, hv, j, hj, w, hw, rfl, rfl, rfl⟩

/-- The session with the bits at one position Gray coded. -/
def recode (s : Session) (j : Nat) : Session :=
  List.modify s j Variable.grayCoded

theorem target?_recode (d : Datum) : (s.recode j).target? d = s.target? d := by
  rw [target?, target?, recode, List.length_modify]

theorem getElem?_recode :
    (s.recode j)[i]? = s[i]?.map fun v => if j = i then v.grayCoded else v := by
  rw [recode, List.getElem?_modify]
  rfl

/-- Recoding touches no real. -/
theorem getElem?_recode_eq_real {r : RealVariable} :
    (s.recode j)[i]? = some (.real r) ↔ s[i]? = some (.real r) := by
  rw [getElem?_recode]
  split_ifs <;> simp [Variable.grayCoded_eq_real]

/-- Bits that are recoded after they are written. -/
theorem recode_set (h : s[j]? = some w) :
    recode (s.set j v) j = s.set j v.grayCoded := by
  have hlt : j < s.length := (List.getElem?_eq_some_iff.mp h).1
  rw [recode, modify_eq_set (v := v) (by simp [hlt]), List.set_set]

/-- What is written elsewhere is written before or after the recoding. -/
theorem set_recode_of_ne (h : j ≠ i) : (s.recode j).set i v = recode (s.set i v) j := by
  refine List.ext_getElem? fun k => ?_
  rw [getElem?_recode, List.getElem?_set, List.getElem?_set, getElem?_recode, recode,
    List.length_modify]
  by_cases hik : i = k
  · subst hik
    simp only [if_true, if_neg h, Option.map_id']
  · simp only [if_neg hik]

/-! ## Two steps -/

/-- **Writing into bits is refused in either code, or leaves the plain session and its recoding.**
-/
theorem apply_encodeInto_cases [Memory] (s : Session) (source bits : Datum) :
    (∃ fault, ∀ gray, s.apply (.encodeInto source bits gray) = ⟨s, .error fault⟩)
      ∨ ∃ j t, t.target? bits = .ok j
        ∧ s.apply (.encodeInto source bits false) = ⟨t, .ok .done⟩
        ∧ s.apply (.encodeInto source bits true) = ⟨t.recode j, .ok .done⟩ := by
  simp only [apply, writeFrom_eq]
  rcases hoperands : s.operands? source bits with fault | ⟨v, j, w⟩
  · exact .inl ⟨fault, fun _ => rfl⟩
  obtain ⟨-, hj, hw⟩ := operands?_eq_ok.mp hoperands
  simp only [ok_bind]
  rcases hwrite : v.encodeInto w false with fault | x
  · refine .inl ⟨fault, fun gray => ?_⟩
    cases gray
    · rw [hwrite]; rfl
    · rw [Variable.encodeInto_gray, hwrite]; rfl
  · refine .inr ⟨j, s.set j x, ?_, rfl, ?_⟩
    · rwa [target?, List.length_set, ← target?]
    · rw [Variable.encodeInto_gray, hwrite, recode_set hw]
      rfl

theorem operands?_recode (hj : s.target? bits = .ok j) :
    (s.recode j).operands? bits target
      = (s.operands? bits target).map fun (v, i, w) =>
          (v.grayCoded, i, if j = i then w.grayCoded else w) := by
  have hget (i : Nat) :
      (s.recode j).get? i = (s.get? i).map fun v => if j = i then v.grayCoded else v := by
    rw [get?, get?, Variable.at?, Variable.at?, getElem?_recode]
    cases s[i]? <;> rfl
  simp only [operands?, target?_recode, hget, hj, ok_bind, if_true, bind_of_map, map_of_bind,
    ok_map]

/-- **Reading bits commutes with recoding them.** -/
theorem apply_decodeInto_recode [Memory] (hj : s.target? bits = .ok j) :
    (s.recode j).apply (.decodeInto bits target true)
      = ⟨recode (s.apply (.decodeInto bits target false)).state j,
        (s.apply (.decodeInto bits target false)).answer⟩ := by
  simp only [apply, writeFrom_eq, operands?_recode hj]
  rcases hoperands : s.operands? bits target with fault | ⟨v, i, w⟩
  · rfl
  have hreal : (if j = i then w.grayCoded else w).real? = w.real? := by
    split_ifs
    · exact Variable.real?_grayCoded w
    · rfl
  simp only [ok_map, ok_bind, Variable.decodeInto_grayCoded, Variable.decodeInto_congr hreal]
  rcases hread : v.decodeInto w false with fault | x
  · rfl
  -- one variable is not both bits and a real
  have hne : j ≠ i := by
    rintro rfl
    obtain ⟨⟨k, hk, hv⟩, -, hw⟩ := operands?_eq_ok.mp hoperands
    obtain rfl : k = j := Except.ok.inj (hk.symm.trans hj)
    obtain ⟨b, rfl, r, rfl, -⟩ := Variable.decodeInto_eq_ok.mp hread
    cases hv.symm.trans hw
  simp only [ok_map, Outcome.commit, set_recode_of_ne hne]

/-- Writes one variable into bits and reads another one from them.  A refused writing is the end of
it. -/
def throughBits [Memory] (s : Session) (source bits target : Datum) (gray : Bool) :
    Outcome Session Reply :=
  let written := s.apply (.encodeInto source bits gray)
  match written.answer with
  | .ok _ => written.state.apply (.decodeInto bits target gray)
  | .error _ => written

/-- **Through bits, the Gray session is the plain one or its recoding.** -/
theorem throughBits_gray [Memory] (s : Session) (source bits target : Datum) :
    s.throughBits source bits target true = s.throughBits source bits target false
      ∨ ∃ j, s.throughBits source bits target true
        = ⟨recode (s.throughBits source bits target false).state j,
          (s.throughBits source bits target false).answer⟩ := by
  obtain ⟨fault, hrefused⟩ | ⟨j, t, hj, hplain, hgray⟩ := apply_encodeInto_cases s source bits
  · exact .inl (by simp only [throughBits, hrefused])
  · exact .inr ⟨j, by simp only [throughBits, hplain, hgray, apply_decodeInto_recode hj]⟩

end Session

/-! ## Both codes -/

open Codec

/-- **The two codes agree on every input.**  Values, bounds and widths of any kind are refused in
one code exactly if they are in the other, with the same fault; if they are not, the Gray word is
the Gray code of the plain one, and each is read, in its own code, as the same value.  A variable
of a session that is written into bits and read back, into itself or into another one, gets the
same answer in either code, and afterwards all reals are the same. -/
theorem gray_throughBits_eq_plain [Memory] :
    (∀ value lower upper n : Datum,
        (∀ fault, encodeRealGiven value lower upper n true = .error fault
            ↔ encodeRealGiven value lower upper n false = .error fault)
          ∧ (encodeRealGiven value lower upper n true).map fromGray
            = encodeRealGiven value lower upper n false
          ∧ (encodeRealGiven value lower upper n true >>= fun word =>
              decodeRealGiven (.flags word) lower upper true)
            = encodeRealGiven value lower upper n false >>= fun word =>
              decodeRealGiven (.flags word) lower upper false)
      ∧ ∀ (s : Session) (source bits target : Datum),
        (s.throughBits source bits target true).answer
            = (s.throughBits source bits target false).answer
          ∧ ∀ (i : Nat) (r : RealVariable),
            (s.throughBits source bits target true).state[i]? = some (.real r)
              ↔ (s.throughBits source bits target false).state[i]? = some (.real r) := by
  refine ⟨fun value lower upper n => ?_, fun s source bits target => ?_⟩
  · rw [encodeRealGiven_gray]
    rcases encodeRealGiven value lower upper n false with fault | word
    · exact ⟨fun _ => Iff.rfl, rfl, by rw [error_bind]; rfl⟩
    · refine ⟨fun fault => ⟨nofun, nofun⟩, ?_, ?_⟩
      · rw [ok_map, ok_map, fromGray_toGray]
      · exact decodeRealGiven_toGray word lower upper
  · obtain heq | ⟨j, heq⟩ := Session.throughBits_gray s source bits target
    · rw [heq]
      exact ⟨rfl, fun _ _ => Iff.rfl⟩
    · rw [heq]
      exact ⟨rfl, fun _ _ => Session.getElem?_recode_eq_real⟩

end MigrationPlan
