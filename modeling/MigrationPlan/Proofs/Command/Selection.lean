import MigrationPlan.Proofs.Command.Evaluate
import MigrationPlan.Proofs.Text.IntegerLiteral

/-!
# Proofs/Command/Selection — the two ways to write a selection on a command line

A selection is written as binary digits (`IsBitString`), or as the positions of the ones, in any
order, between commas (`Enumerates`).  Both name the same indices up to their order (`named_bits`,
`named_select`), and the order is lost in the write, so that either way the same is printed under
each encoding.  Between the encodings, only the first two entries of what is printed differ
(`printed`).  What is no string of binary digits is refused: **`runUnder_bits_select`**.
-/

namespace MigrationPlan

variable {p : Problem} {encoding : Encoding} {is : List Nat} {s text : String}

/-! ## Binary digits -/

section Digits

variable {n i : Nat}

/-- **A string of `n` binary digits.** -/
structure IsBitString (n : Nat) (s : String) : Prop where
  length : s.toList.length = n
  digits : ∀ c ∈ s.toList, c = '0' ∨ c = '1'

instance (n : Nat) (s : String) : Decidable (IsBitString n s) :=
  decidable_of_iff (s.toList.length = n ∧ s.toList.all fun c => c = '0' ∨ c = '1')
    ⟨fun ⟨hlength, hdigits⟩ => ⟨hlength, by simpa using hdigits⟩,
      fun ⟨hlength, hdigits⟩ => ⟨hlength, by simpa using hdigits⟩⟩

/-- The positions of the ones, ascending. -/
def ones (s : String) : List Nat :=
  (List.range s.toList.length).filter fun i => s.toList[i]? = some '1'

theorem mem_ones : i ∈ ones s ↔ s.toList[i]? = some '1' := by
  have hrange (h : s.toList[i]? = some '1') : i < s.toList.length :=
    (List.getElem?_eq_some_iff.mp h).1
  simpa [ones] using hrange

theorem pairwise_ones (s : String) : (ones s).Pairwise (· < ·) :=
  List.pairwise_lt_range.filter _

theorem positions_eq_ones (s : String) : positions (s.toList.map fun c => c = '1') = ones s :=
  List.Pairwise.eq_of_mem_iff (r := (· < ·)) (pairwise_positions _) (pairwise_ones s) fun i => by
    simp [mem_positions, mem_ones]

/-- The selection that binary digits spell. -/
def spelled (s : String) : Finset Nat :=
  (ones s).toFinset

theorem sort_spelled (s : String) : (spelled s).sort = ones s :=
  (Encoding.eq_sort (pairwise_ones s) fun _ => List.mem_toFinset.symm).symm

namespace IsBitString

theorem lt_of_mem_ones (hs : IsBitString n s) (hi : i ∈ ones s) : i < n := by
  rw [← hs.length]
  exact (List.getElem?_eq_some_iff.mp (mem_ones.mp hi)).1

/-- **A string of binary digits spells its selection under the binary encoding.** -/
theorem spelling_binary (hs : IsBitString n s) : Encoding.binary.spelling n (spelled s) = s := by
  rw [Encoding.spelling, ← String.toList_inj, String.toList_ofList]
  refine List.ext_getElem (by simp [hs.length]) fun i _ hi => ?_
  have hone : i ∈ spelled s ↔ s.toList[i] = '1' := by
    rw [spelled, List.mem_toFinset, mem_ones, List.getElem?_eq_getElem hi, Option.some.injEq]
  obtain hdigit | hdigit := hs.digits _ (List.getElem_mem hi) <;> simp [hone, hdigit]

/-- It does not look like an option. -/
theorem head?_ne (hs : IsBitString n s) : s.toList.head? ≠ some '-' := fun h => by
  obtain hdigit | hdigit := hs.digits _ (List.mem_of_head? h) <;> exact absurd hdigit (by decide)

end IsBitString

end Digits

/-- Nor does a text that enumerates numbers. -/
theorem Text.Enumerates.head?_ne (h : Enumerates text is) : text.toList.head? ≠ some '-' :=
  fun hhead => by
    obtain hc | hc | hc := h.of_mem (List.mem_of_head? hhead) <;> exact absurd hc (by decide)

namespace Command.Evaluate

/-! ## What is named -/

theorem indicesOfBits_of_isBitString {n : Nat} (hs : IsBitString n s) :
    indicesOfBits n (.text s) = .ok ((ones s).map Int.ofNat) := by
  have hdigits : s.toList.all (fun c => c = '0' || c = '1') := by
    simpa using hs.digits
  simp only [indicesOfBits, hs.length, hdigits, decide_true, Bool.and_self, if_true,
    positions_eq_ones]
  rfl

/-- What is no string of binary digits is refused, and so is an empty list. -/
theorem indicesOfBits_refused {n : Nat} {d : Datum} (hn : 1 ≤ n) (hs : ¬IsBitString n s)
    (hd : d = .text s ∨ d = .node []) : indicesOfBits n d = .error (.bitString n d.quoted) := by
  refine if_neg fun h => ?_
  rw [Bool.and_eq_true, decide_eq_true_eq] at h
  obtain rfl | rfl := hd
  · exact hs ⟨h.1, by simpa using h.2⟩
  · exact absurd h.1 (by simp; omega)

theorem indicesOfList_of_enumerates (h : Text.Enumerates text is)
    (short : ∀ i ∈ is, (Nat.toDigits 10 i).length ≤ Text.digitLimit) :
    indicesOfList text = .ok (is.map Int.ofNat) :=
  h.mapM_readInteger short

section Named

variable {read : FileReader Id} {arguments line : List String} {request : Request} {value : String}

/-- **Bits behind a command line name the positions of the ones.** -/
theorem named_bits [Memory] {d : Datum} (accepted : Request.ofArguments arguments = .ok request)
    (loaded : (loadProblem read request.problemFile).run = .ok p)
    (gives : Gives "--bits" value line)
    (hline : options.read line = .ok [("--bits", some d)]) :
    named read (arguments ++ line) = (indicesOfBits p.functionalities d).map fun js => (p, js) := by
  rw [named, ofArguments_bits gives hline, accepted, ok_map, ok_bind, loaded, ok_bind,
    Request.indices]
  rfl

/-- **A list behind a command line names its numbers**, if no bits are given. -/
theorem named_select [Memory] (accepted : Request.ofArguments arguments = .ok request)
    (noBits : request.bits = none)
    (loaded : (loadProblem read request.problemFile).run = .ok p)
    (gives : Gives "--select" value line)
    (hline : options.read line = .ok [("--select", some (.text value))]) :
    named read (arguments ++ line) = (indicesOfList value).map fun js => (p, js) := by
  rw [named, ofArguments_select gives hline, accepted, ok_map, ok_bind, loaded, ok_bind,
    Request.indices, noBits]
  rfl

end Named

/-! ## What is printed -/

/-- The entries of a printed evaluation besides the evaluator and the variable. -/
def measures (r : Evaluation) : List (String × Report) :=
  [("F", .reals r.minimized), ("objectives", .reals r.objectives), ("G", .reals r.overruns),
   ("is_feasible", .flag r.isFeasible), ("max_violation", .real r.maxViolation),
   ("raw_cost", .reals r.rawCost), ("budget", .reals r.budget)]

/-- The variable that binary digits become, as it is printed: the digits, or the positions of the
ones, ascending, between braces. -/
def shown (s : String) : Encoding → String
  | .binary => s
  | .subset => "\x7b" ++ ",".intercalate ((ones s).map toString) ++ "\x7d"

/-- **What is printed of the selection that binary digits spell.** -/
def printed (p : Problem) (s : String) (encoding : Encoding) : Report :=
  .record
    (("evaluator", .text (Evaluator.new p (some encoding)).name)
      :: ("variable", .text (shown s encoding)) :: measures (p.reported (spelled s)))

theorem report_decisionOf (hs : IsBitString p.functionalities s) :
    report (Evaluator.new p (some encoding))
        (encoding.decisionOf p.functionalities (spelled s)) (p.reported (spelled s))
      = printed p s encoding := by
  have hshown : encoding.spelling p.functionalities (spelled s) = shown s encoding := by
    cases encoding with
    | binary => exact hs.spelling_binary
    | subset => rw [Encoding.spelling, sort_spelled, shown]
  rw [report, text_decisionOf, hshown, printed, measures]

section Runs

variable {read : FileReader Id} {arguments : List String}

/-- **Indices are printed as the digits whose ones they are, in any order.** -/
theorem runUnder_of_perm [Memory] (hs : IsBitString p.functionalities s) (hperm : is.Perm (ones s))
    (h : named read arguments = .ok (p, is.map Int.ofNat)) :
    runUnder read arguments encoding = .ok (printed p s encoding) := by
  have hset : indexSet (is.map Int.ofNat) = spelled s := by
    rw [indexSet, List.map_map, spelled, ← List.toFinset_eq_of_perm _ _ hperm]
    simp [Function.comp_def]
  have hinRange (j : Int) (hj : j ∈ is.map Int.ofNat) : 0 ≤ j ∧ j < p.functionalities := by
    obtain ⟨i, hi, rfl⟩ := List.mem_map.mp hj
    exact ⟨Int.natCast_nonneg i, Int.ofNat_lt.mpr (hs.lt_of_mem_ones (hperm.mem_iff.mp hi))⟩
  have hdistinct : (is.map Int.ofNat).Nodup := by
    have hones : (ones s).Nodup := (pairwise_ones s).imp Nat.ne_of_lt
    exact (hperm.nodup_iff.mpr hones).map Int.ofNat_injective
  rw [runUnder_eq_ok h, hset]
  exact ⟨⟨hinRange, fun _ => hdistinct⟩, report_decisionOf hs⟩

/-- **The two ways to write a selection come to the same.**  A string with a binary digit for each
functionality is given as it stands, or as a text that enumerates the positions of its ones in any
order.  Under either encoding both are printed, and alike; and what is printed differs between the
encodings in the evaluator and the variable only.  Any other string given as bits ends the program
under both encodings. -/
theorem runUnder_bits_select [Memory] (read : FileReader Id) (arguments : List String)
    {request : Request} (accepted : Request.ofArguments arguments = .ok request)
    (noBits : request.bits = none)
    (loaded : (loadProblem read request.problemFile).run = .ok p) :
    (∀ s, IsBitString p.functionalities s → ∀ is text, is.Perm (ones s) →
      Text.Enumerates text is → ∀ bits select, Gives "--bits" s bits →
      Gives "--select" text select → ∀ encoding : Encoding,
        runUnder read (arguments ++ bits) encoding = runUnder read (arguments ++ select) encoding
          ∧ runUnder read (arguments ++ bits) encoding = .ok (printed p s encoding))
    ∧ ∀ s, ¬IsBitString p.functionalities s → ∀ bits, Gives "--bits" s bits →
      ∀ encoding : Encoding, ∃ fault,
        runUnder read (arguments ++ bits) encoding = .error fault ∧ fault.category = .exit := by
  have held := isHeld_of_loadProblem loaded
  refine ⟨fun s hs is text hperm henum bits select hbits hselect encoding => ?_,
    fun s hs bits hbits encoding => ?_⟩
  · have short (i : Nat) (hi : i ∈ is) : (Nat.toDigits 10 i).length ≤ Text.digitLimit :=
      Problem.length_toDigits_le <| (hs.lt_of_mem_ones (hperm.mem_iff.mp hi)).le.trans
        (Problem.isHeld_iff.mp held).2.sides_le.2
    have hnamedBits : named read (arguments ++ bits) = .ok (p, (ones s).map Int.ofNat) := by
      rw [named_bits accepted loaded hbits (hbits.read_of_plain rfl hs.head?_ne),
        indicesOfBits_of_isBitString hs, ok_map]
    have hnamedSelect : named read (arguments ++ select) = .ok (p, is.map Int.ofNat) := by
      rw [named_select accepted noBits loaded hselect
        (hselect.read_of_plain rfl henum.head?_ne), indicesOfList_of_enumerates henum short, ok_map]
    rw [runUnder_of_perm hs (.refl _) hnamedBits, runUnder_of_perm hs hperm hnamedSelect]
    exact ⟨rfl, rfl⟩
  · have hoption : options.classify "--bits" = .named ⟨"--bits", true⟩ none := rfl
    -- a string that looks like an option is refused as an argument, any other one as bits
    obtain hline | ⟨d, hline, hd⟩ := hbits.read_cases hoption
    · have hrefused : Request.ofArguments (arguments ++ bits) = .error .usage :=
        ofArguments_refused accepted (hbits.read_append hoption _) hline
      refine ⟨.usage, ?_, rfl⟩
      rw [runUnder_eq, named, hrefused, error_bind, error_bind]
    · refine ⟨.bitString p.functionalities d.quoted, ?_, rfl⟩
      rw [runUnder_eq, named_bits accepted loaded hbits hline,
        indicesOfBits_refused held.one_le_functionalities hs hd]
      rfl

/-- Twelve digits, and the positions of their ones with blanks among them, out of order. -/
theorem runUnder_bits_select_sampleProblem :
    Request.ofArguments [] = .ok {} ∧ ({} : Request).bits = none
      ∧ (loadProblem (m := Id) (fun _ => .missing) none).run = .ok sampleProblem
      ∧ IsBitString sampleProblem.functionalities "110010000000"
      ∧ [4, 1, 0].Perm (ones "110010000000") ∧ Text.Enumerates " 4 ,, 1,0 " [4, 1, 0]
      ∧ runUnder (fun _ => .missing) ["--bits", "110010000000"] .subset
        = runUnder (fun _ => .missing) ["--select= 4 ,, 1,0 "] .subset
      ∧ runUnder (fun _ => .missing) ["--bits", "110010000000"] .subset
        = .ok (printed sampleProblem "110010000000" .subset)
      ∧ ∃ fault, runUnder (fun _ => .missing) ["--bits", "1100102"] .binary = .error fault
        ∧ fault.category = .exit := by
  have accepted : Request.ofArguments [] = .ok {} := rfl
  have loaded : (loadProblem (m := Id) (fun _ => .missing) none).run = .ok sampleProblem := rfl
  have hs : IsBitString sampleProblem.functionalities "110010000000" := by decide
  have hperm : [4, 1, 0].Perm (ones "110010000000") := by decide
  have henum : Text.Enumerates " 4 ,, 1,0 " [4, 1, 0] := by
    have space : ∀ c ∈ [' '], Text.literalBlank c := List.forall_mem_singleton.mpr (by decide)
    have nothing : ∀ c ∈ ([] : List Char), Text.literalBlank c := List.forall_mem_nil _
    exact ⟨_, .number space space <| .blank (List.forall_mem_nil _) <| .number space nothing <|
      .number nothing space .nil, rfl⟩
  obtain ⟨hagree, hother⟩ := runUnder_bits_select (fun _ => .missing) [] accepted rfl loaded
  obtain ⟨hsame, hprinted⟩ := hagree _ hs _ _ hperm henum _ _ .apart .joined .subset
  exact ⟨accepted, rfl, loaded, hs, hperm, henum, hsame, hprinted,
    hother "1100102" (by decide) _ .apart .binary⟩

end Runs

end Command.Evaluate

end MigrationPlan
