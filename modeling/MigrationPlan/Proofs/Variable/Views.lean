import MigrationPlan.Proofs.Ordered
import MigrationPlan.Proofs.Variable.Access
import MigrationPlan.Proofs.Variable.Creation

/-!
# Proofs/Variable/Views — what is written is read back

A bit vector is written and read in two ways, as all of its bits and as the positions of the set
ones; a subset as its members.  A write takes integers in any order, and repeats where they are
harmless, and a read gives them in ascending order, so a list of integers matters only by its
members (`memberList_congr`, `bitsAt_eq_of_mem_iff`).

* `Variable.ShowsBits` — both views of a bit vector tell which bits are set;
* `setBitset_eq_ok_iff`, `setSubset_eq_ok_iff` — what a write of listed integers makes;
* **`views_readBack`** — every write is read back, and every read is a write that changes nothing.
-/

namespace MigrationPlan

/-! ## Integers in any order -/

/-- A value that is read as a list of integers, whatever its items are: whole numbers, numbers that
are cut off, or texts. -/
def Datum.Lists (d : Datum) (is : List Int) : Prop :=
  ∃ items, d.items? = .ok items ∧ items.mapM Datum.toInt? = .ok is

theorem Datum.lists_wholes (is : List Int) : (Datum.wholes is).Lists is :=
  ⟨_, rfl, Datum.mapM_toInt?_whole is⟩

theorem getElem?_bitsAt {n i : Nat} {is : List Int} :
    (Variable.bitsAt n is)[i]? = some true ↔ i < n ∧ (i : Int) ∈ is := by
  simp [Variable.bitsAt, List.getElem?_map, List.getElem?_eq_some_iff]

/-- Bits are those at some positions if these are the positions of the set ones. -/
theorem bitsAt_eq_of_mem_iff {bits : Bits} {is : List Int}
    (h : ∀ i : Nat, (i : Int) ∈ is ↔ bits[i]? = some true) :
    Variable.bitsAt bits.length is = bits := by
  refine List.ext_getElem (by simp [Variable.bitsAt]) fun i hi hi' => ?_
  have hbit := h i
  rw [List.getElem?_eq_getElem hi', Option.some.injEq] at hbit
  rw [Bool.eq_iff_iff, ← hbit]
  simp [Variable.bitsAt]

/-! ## Bit vectors -/

/-- **Both views of a bit vector** of this length tell which bits are set: the one by its bits, the
other by their positions, ascending. -/
structure Variable.ShowsBits (v : Variable) (length : Nat) (set : Nat → Prop) : Prop where
  asBinary : ∃ bits, v.asBinary = .ok bits ∧ bits.length = length
    ∧ ∀ i, bits[i]? = some true ↔ set i
  asBitset : ∃ positions, v.asBitset = .ok positions ∧ positions.Pairwise (· < ·)
    ∧ ∀ i, i ∈ positions ↔ set i

/-- **What is written into a bit vector is read back from it.**  Positions in the range, in any
order and with any repeats, become the set bits, and so do the marks of an array of its length; and
a write of what a view reads changes nothing. -/
structure BinaryVariable.ReadsBack (b : BinaryVariable) : Prop where
  setBitset {d : Datum} {is : List Int} : d.Lists is → (∀ i ∈ is, 0 ≤ i ∧ i < b.length) →
    ∃ w, (Variable.binary b).setBitset d = .ok w ∧ w.ShowsBits b.length fun i => (i : Int) ∈ is
  setBinary {d : Datum} {marks : Bits} : d.bits? = .ok ([b.length], marks) →
    ∃ w, (Variable.binary b).setBinary d = .ok w
      ∧ w.ShowsBits b.length fun i => marks[i]? = some true
  asBinary : ∃ bits, (Variable.binary b).asBinary = .ok bits
    ∧ (Variable.binary b).setBinary (.flags bits) = .ok (.binary b)
  asBitset : ∃ positions, (Variable.binary b).asBitset = .ok positions
    ∧ ∀ {d : Datum} {is : List Int}, d.Lists is → (∀ i, i ∈ is ↔ ∃ k ∈ positions, (k : Int) = i) →
      (Variable.binary b).setBitset d = .ok (.binary b)

namespace Variable

variable {b : BinaryVariable} {d : Datum} {is : List Int} {w : Variable}

theorem showsBits_binary {bits : Bits} {n : Nat} {set : Nat → Prop} (hlength : bits.length = n)
    (hset : ∀ i, bits[i]? = some true ↔ set i) : (binary ⟨bits⟩).ShowsBits n set where
  asBinary := ⟨bits, rfl, hlength, hset⟩
  asBitset := ⟨positions bits, rfl, pairwise_positions bits, fun i => mem_positions.trans (hset i)⟩

/-- **Positions are taken if they are in the range**; the bits there are set, all others cleared. -/
theorem setBitset_eq_ok_iff (h : d.Lists is) :
    (binary b).setBitset d = .ok w ↔
      (∀ i ∈ is, 0 ≤ i ∧ i < b.length) ∧ binary ⟨bitsAt b.length is⟩ = w := by
  obtain ⟨items, hitems, his⟩ := h
  rw [setBitset_eq_ok]
  constructor
  · rintro ⟨_, ⟨⟩, _, hitems', _, his', inRange, rfl⟩
    obtain rfl := Except.ok.inj (hitems.symm.trans hitems')
    obtain rfl := Except.ok.inj (his.symm.trans his')
    exact ⟨inRange, rfl⟩
  · rintro ⟨inRange, rfl⟩
    exact ⟨b, rfl, items, hitems, is, his, inRange, rfl⟩

/-- The bits at positions in the range are seen at these positions. -/
theorem showsBits_bitsAt {n : Nat} (inRange : ∀ i ∈ is, 0 ≤ i ∧ i < n) :
    (binary ⟨bitsAt n is⟩).ShowsBits n fun i => (i : Int) ∈ is := by
  refine showsBits_binary (by simp [bitsAt]) fun i =>
    getElem?_bitsAt.trans (and_iff_right_of_imp ?_)
  intro hi
  exact Int.ofNat_lt.mp (inRange i hi).2

/-- **A write of the positions of the set bits, in any order, changes nothing.** -/
theorem setBitset_of_positions (h : d.Lists is)
    (hmem : ∀ i, i ∈ is ↔ ∃ k ∈ positions b.bits, (k : Int) = i) :
    (binary b).setBitset d = .ok (binary b) := by
  have hset (i : Nat) : (i : Int) ∈ is ↔ b.bits[i]? = some true := by
    rw [hmem, ← mem_positions]
    constructor
    · rintro ⟨k, hk, hki⟩
      exact Int.ofNat.inj hki ▸ hk
    · exact fun hi => ⟨i, hi, rfl⟩
  have inRange : ∀ i ∈ is, 0 ≤ i ∧ i < b.length := by
    intro i hi
    obtain ⟨k, hk, rfl⟩ := (hmem i).mp hi
    obtain ⟨hk, -⟩ := List.getElem?_eq_some_iff.mp (mem_positions.mp hk)
    exact ⟨Int.natCast_nonneg k, Int.ofNat_lt.mpr hk⟩
  refine (setBitset_eq_ok_iff h).mpr ⟨inRange, ?_⟩
  rw [BinaryVariable.length, bitsAt_eq_of_mem_iff hset]

theorem readsBack_binary (b : BinaryVariable) : b.ReadsBack where
  setBitset h inRange :=
    ⟨_, (setBitset_eq_ok_iff h).mpr ⟨inRange, rfl⟩, showsBits_bitsAt inRange⟩
  setBinary h := by
    have hlength := (Nested.length_of_read? h).trans List.prod_singleton
    exact ⟨_, setBinary_eq_ok.mpr ⟨b, rfl, _, _, h, rfl, rfl⟩,
      showsBits_binary hlength fun _ => .rfl⟩
  asBinary := ⟨_, rfl, setBinary_eq_ok.mpr ⟨b, rfl, _, _, Datum.bits?_flags b.bits, rfl, rfl⟩⟩
  asBitset := ⟨_, rfl, setBitset_of_positions⟩

end Variable

/-! ## Subsets -/

/-- **What all subsets are like**: the members are ascending, and they are no more and no others
than allowed. -/
structure SubsetVariable.IsCanonical (s : SubsetVariable) : Prop where
  pairwise : s.members.Pairwise (· < ·)
  isOverfull : s.isOverfull = false
  isSelectable : ∀ m ∈ s.members, s.isSelectable m

/-- Members that fit words are read as they are. -/
theorem asSubset_members {c l u : Number} {ms : List Int} (hword : ∀ m ∈ ms, Entry.IsWord m) :
    (Variable.subset ⟨c, l, u, ms⟩).asSubset = .ok ms :=
  mapM_self_of_ok fun m hm => Entry.word?_of_isWord (hword m hm)

/-- **What is written into a subset is read back from it.**  The integers that are taken are read in
ascending order, and in any other order they are taken just so; and a write of what is read changes
nothing. -/
structure SubsetVariable.ReadsBack (s : SubsetVariable) : Prop where
  setSubset {d : Datum} {is : List Int} {w : Variable} : d.Lists is →
    (Variable.subset s).setSubset d = .ok w →
      (∃ ms, w.asSubset = .ok ms ∧ ms.Perm is ∧ ms.Pairwise (· < ·))
        ∧ ∀ {d' : Datum} {is' : List Int}, d'.Lists is' → is'.Perm is →
          (Variable.subset s).setSubset d' = .ok w
  asSubset : ∃ ms, (Variable.subset s).asSubset = .ok ms
    ∧ (Variable.subset s).setSubset (.wholes ms) = .ok (.subset s)

namespace Variable

variable {s : SubsetVariable} {d : Datum} {is : List Int} {w : Variable}

/-- **Integers are taken if they are distinct and together make a subset.** -/
theorem setSubset_eq_ok_iff (h : d.Lists is) :
    (subset s).setSubset d = .ok w ↔
      is.Nodup ∧ SubsetVariable.IsCanonical { s with members := memberList is }
        ∧ subset { s with members := memberList is } = w := by
  obtain ⟨items, hitems, his⟩ := h
  rw [setSubset_eq_ok]
  constructor
  · rintro ⟨_, ⟨⟩, _, hitems', _, his', hlength, hfull, hselectable, rfl⟩
    obtain rfl := Except.ok.inj (hitems.symm.trans hitems')
    obtain rfl := Except.ok.inj (his.symm.trans his')
    exact ⟨length_memberList_eq_iff.mp hlength,
      ⟨pairwise_memberList is, hfull, hselectable⟩, rfl⟩
  · rintro ⟨distinct, canonical, rfl⟩
    exact ⟨s, rfl, items, hitems, is, his, length_memberList_of_nodup distinct,
      canonical.isOverfull, canonical.isSelectable, rfl⟩

/-- **A write leaves a subset of the same frame**, in which all is as it has to be. -/
theorem exists_isCanonical_of_setSubset {v : Variable} (h : v.setSubset d = .ok w) :
    ∃ (s : SubsetVariable) (ms : List Int), v = subset s ∧ w = subset { s with members := ms }
      ∧ SubsetVariable.IsCanonical { s with members := ms } := by
  obtain ⟨s, rfl, _, -, is, -, -, hfull, hselectable, rfl⟩ := setSubset_eq_ok.mp h
  exact ⟨s, _, rfl, rfl, pairwise_memberList is, hfull, hselectable⟩

/-- **A write of the members of a subset, in any order, changes nothing.** -/
theorem setSubset_of_perm (canonical : s.IsCanonical) (h : d.Lists is)
    (hperm : is.Perm s.members) : (subset s).setSubset d = .ok (subset s) := by
  have hmembers : memberList is = s.members := by
    rw [memberList_congr fun m => hperm.mem_iff, memberList_of_pairwise canonical.pairwise]
  have hsame : { s with members := memberList is } = s := by rw [hmembers]
  have distinct : is.Nodup := hperm.nodup_iff.mpr (canonical.pairwise.imp fun hlt => hlt.ne)
  exact (setSubset_eq_ok_iff h).mpr ⟨distinct, hsame ▸ canonical, congrArg subset hsame⟩

/-- A subset whose selectable integers all fit words is read back. -/
theorem readsBack_subset (canonical : s.IsCanonical)
    (sized : ∀ m, s.isSelectable m → Entry.IsWord m) : s.ReadsBack where
  setSubset h hw := by
    obtain ⟨distinct, canonical', rfl⟩ := (setSubset_eq_ok_iff h).mp hw
    refine ⟨⟨_, asSubset_members fun m hm => sized m (canonical'.isSelectable m hm),
      perm_memberList distinct, canonical'.pairwise⟩, fun h' hperm => ?_⟩
    rw [← memberList_congr fun m => hperm.mem_iff] at canonical' ⊢
    exact (setSubset_eq_ok_iff h').mpr ⟨hperm.nodup_iff.mpr distinct, canonical', rfl⟩
  asSubset := ⟨s.members, asSubset_members fun m hm => sized m (canonical.isSelectable m hm),
    setSubset_of_perm canonical (Datum.lists_wholes _) (.refl _)⟩

end Variable

namespace SubsetVariable

variable {capacity lower upper members : Datum} {s : SubsetVariable}

/-- What is made is canonical. -/
theorem isCanonical_of_create (h : create capacity lower upper members = .ok s) :
    s.IsCanonical := by
  obtain ⟨c, l, u, -, _, -, is, -, hfull, hselectable, rfl⟩ := create_eq_ok.mp h
  exact ⟨pairwise_memberList is, hfull, hselectable⟩

/-- Any canonical subset in the frame of one that is made is made from its own members. -/
theorem create_of_isCanonical {ms : List Int}
    (h : create capacity lower upper members = .ok s)
    (canonical : IsCanonical { s with members := ms }) :
    create capacity lower upper (.wholes ms) = .ok { s with members := ms } := by
  obtain ⟨c, l, u, hcheck, _, -, is, -, -, -, rfl⟩ := create_eq_ok.mp h
  have hmembers : memberList ms = ms := memberList_of_pairwise canonical.pairwise
  refine create_eq_ok.mpr ⟨c, l, u, hcheck, _, rfl, ms, Datum.mapM_toInt?_whole ms, ?_⟩
  rw [hmembers]
  exact ⟨canonical.isOverfull, canonical.isSelectable, rfl⟩

end SubsetVariable

/-- **What is written is read back, and what is read can be written.**  Both views of every bit
vector read back what is written through either.  So does every subset that is made, from whatever
it is made, if its bounds are integers that fit words; and a write makes a subset with the same
bounds and capacity, which could have been made with its members. -/
theorem views_readBack :
    (∀ b : BinaryVariable, b.ReadsBack)
    ∧ ∀ (capacity lower upper members : Datum) (s : SubsetVariable) (l u : Int),
      SubsetVariable.create capacity lower upper members = .ok s →
        s.lower.whole? = some l → Entry.IsWord l → s.upper.whole? = some u → Entry.IsWord u →
          s.ReadsBack
            ∧ ∀ (d : Datum) (w : Variable), (Variable.subset s).setSubset d = .ok w →
              ∃ ms, w = .subset { s with members := ms }
                ∧ SubsetVariable.create capacity lower upper (.wholes ms)
                  = .ok { s with members := ms } := by
  refine ⟨Variable.readsBack_binary, fun capacity lower upper members s l u h hl hlword hu huword =>
    ⟨Variable.readsBack_subset (SubsetVariable.isCanonical_of_create h) fun m hm => ?_,
      fun d w hw => ?_⟩⟩
  · obtain ⟨hlm, hmu⟩ := (SubsetVariable.isSelectable_iff hl hu).mp hm
    exact ⟨hlword.1.trans hlm, hmu.trans huword.2⟩
  · obtain ⟨_, ms, ⟨⟩, rfl, canonical⟩ := Variable.exists_isCanonical_of_setSubset hw
    exact ⟨ms, rfl, SubsetVariable.create_of_isCanonical h canonical⟩

/-- Positions of which one is given twice, and members that are written in two orders. -/
theorem views_readBack_unsorted :
    (∃ w, (Variable.binary ⟨[true, true, false, false]⟩).setBitset (.wholes [2, 0, 2]) = .ok w
      ∧ w.ShowsBits 4 fun i => (i : Int) ∈ [2, 0, 2])
    ∧ ∃ w ms, (Variable.subset ⟨.whole 3, .whole 0, .whole 9, [1]⟩).setSubset (.wholes [7, 2, 5])
        = .ok w
      ∧ (Variable.subset ⟨.whole 3, .whole 0, .whole 9, [1]⟩).setSubset (.wholes [5, 7, 2]) = .ok w
      ∧ w.asSubset = .ok ms ∧ ms.Perm [7, 2, 5] ∧ ms.Pairwise (· < ·) := by
  refine ⟨(views_readBack.1 ⟨[true, true, false, false]⟩).setBitset (Datum.lists_wholes _)
    (by decide), ?_⟩
  have made : SubsetVariable.create (.whole 3) (.whole 0) (.whole 9) (.wholes [1])
      = .ok ⟨.whole 3, .whole 0, .whole 9, [1]⟩ := rfl
  obtain ⟨readsBack, -⟩ := views_readBack.2 _ _ _ _ _ 0 9 made rfl (by decide) rfl (by decide)
  obtain ⟨⟨ms, hms, hperm, hsorted⟩, hreordered⟩ :=
    readsBack.setSubset (Datum.lists_wholes [7, 2, 5])
      (w := .subset ⟨.whole 3, .whole 0, .whole 9, [2, 5, 7]⟩) rfl
  exact ⟨_, ms, rfl, hreordered (Datum.lists_wholes [5, 7, 2]) (by decide), hms, hperm, hsorted⟩

end MigrationPlan
