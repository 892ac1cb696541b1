import MigrationPlan.Proofs.Codec.Binary
import MigrationPlan.Proofs.Datum.Reading
import MigrationPlan.Proofs.Variable.Access
import Mathlib.Logic.Relation

/-!
# Proofs/Variable/Write — what one write can do

`Becomes` collects the writing operations in one relation: whatever is true of each of them is
proved by one case per operation, here and wherever a run of writes is looked at.  The first such
truth is **`Becomes.frame_eq`**: a write changes neither the kind of a variable nor its bounds, its
capacity or its length.
-/

namespace MigrationPlan.Variable

/-- **One write**: some operation takes the first variable to the second. -/
inductive Becomes : Variable → Variable → Prop
  | setReal {v w : Variable} {d : Datum} (h : v.setReal d = .ok w) : Becomes v w
  | setInt {v w : Variable} {d : Datum} (h : v.setInt d = .ok w) : Becomes v w
  | setBinary {v w : Variable} {d : Datum} (h : v.setBinary d = .ok w) : Becomes v w
  | setBitset {v w : Variable} {d : Datum} (h : v.setBitset d = .ok w) : Becomes v w
  | setBoolean {v w : Variable} {b : Bool} (h : v.setBoolean b = .ok w) : Becomes v w
  | setSubset {v w : Variable} {d : Datum} (h : v.setSubset d = .ok w) : Becomes v w
  | setPermutation {v w : Variable} {d : Datum} (h : v.setPermutation d = .ok w) : Becomes v w
  | encodeInto {source v w : Variable} {gray : Bool} (h : source.encodeInto v gray = .ok w) :
      Becomes v w
  | decodeInto {source v w : Variable} {gray : Bool} (h : source.decodeInto v gray = .ok w) :
      Becomes v w

/-- What no operation changes: the kind, and the bounds, the capacity or the length. -/
def frame : Variable → VariableKind × List Entry
  | real v => (.real, [.number (.real v.lower), .number (.real v.upper)])
  | integer v => (.integer, [v.lower, v.upper])
  | binary v => (.binary, [.number (.whole v.length)])
  | subset v => (.subset, [.number v.capacity, .number v.lower, .number v.upper])
  | permutation v => (.permutation, [.number v.length])

theorem frame_binary {b c : BinaryVariable} (h : c.length = b.length) :
    (binary c).frame = (binary b).frame := by
  rw [frame, frame, h]

theorem frame_eq_of_setReal {v w : Variable} {d : Datum} (h : v.setReal d = .ok w) :
    w.frame = v.frame := by
  obtain ⟨r, rfl, x, -, rfl⟩ := setReal_eq_ok.mp h
  rfl

/-- **A write keeps the frame.** -/
theorem Becomes.frame_eq {v w : Variable} (h : v.Becomes w) : w.frame = v.frame := by
  cases h with
  | setReal h => exact frame_eq_of_setReal h
  | setInt h =>
    obtain ⟨i, -, ⟨n, rfl, rfl⟩ | h⟩ := setInt_eq_ok.mp h
    · rfl
    · exact frame_eq_of_setReal h
  | setBinary h =>
    obtain ⟨b, rfl, _, bits, hbits, rfl, rfl⟩ := setBinary_eq_ok.mp h
    have hlength : bits.length = [b.length].prod := Nested.length_of_read? hbits
    exact frame_binary (hlength.trans List.prod_singleton)
  | setBitset h =>
    obtain ⟨b, rfl, _, -, is, -, -, rfl⟩ := setBitset_eq_ok.mp h
    have hlength : (bitsAt b.length is).length = b.length := by simp [bitsAt]
    exact frame_binary hlength
  | setBoolean h =>
    obtain ⟨b, rfl, rfl⟩ := setBoolean_eq_ok.mp h
    rfl
  | setSubset h =>
    obtain ⟨s, rfl, _, -, is, -, -, -, -, rfl⟩ := setSubset_eq_ok.mp h
    rfl
  | setPermutation h =>
    obtain ⟨p, rfl, order, -, rfl⟩ := setPermutation_eq_ok.mp h
    rfl
  | encodeInto h =>
    obtain ⟨r, rfl, b, rfl, bits, hbits, rfl⟩ := encodeInto_eq_ok.mp h
    exact frame_binary (Codec.length_of_encodeReal hbits)
  | decodeInto h =>
    obtain ⟨b, rfl, r, rfl, x, -, rfl⟩ := decodeInto_eq_ok.mp h
    rfl

/-- So does a chain of writes. -/
theorem frame_eq_of_becomes {v w : Variable} (h : Relation.ReflTransGen Becomes v w) :
    w.frame = v.frame := by
  induction h with
  | refl => rfl
  | tail _ hwrite ih => exact hwrite.frame_eq.trans ih

end MigrationPlan.Variable
