import MigrationPlan.Proofs.Codec.Real

/-!
# Proofs/Codec/Recoding — the Gray code of a real is its plain code, recoded

Checks, index and value do not look at the code, so a value is written Gray coded as it is written
plainly, with the word recoded at the end (**`encodeRealGiven_gray`**), and a recoded word is read
as the plain one (**`decodeRealGiven_toGray`**).  Both hold of values, bounds and widths of every
kind, and where they are refused.
-/

namespace MigrationPlan.Codec

theorem encodeReal_gray (value lower upper : Number) (n : Int) :
    encodeReal value lower upper n true = (encodeReal value lower upper n false).map toGray := by
  simp only [encodeReal, map_of_bind, if_true, Bool.false_eq_true, if_false, ok_map]

theorem decodeReal_toGray (bits : Bits) (lower upper : Number) :
    decodeReal (toGray bits) lower upper true = decodeReal bits lower upper false := by
  simp only [decodeReal, if_true, Bool.false_eq_true, if_false, fromGray_toGray]

/-- **Gray coding comes last**, behind everything that can be refused. -/
theorem encodeRealGiven_gray (value lower upper n : Datum) :
    encodeRealGiven value lower upper n true
      = (encodeRealGiven value lower upper n false).map toGray := by
  simp only [encodeRealGiven, encodeReal_gray, map_of_bind]

/-- **A recoded word is read as the plain one.** -/
theorem decodeRealGiven_toGray (bits : Bits) (lower upper : Datum) :
    decodeRealGiven (.flags (toGray bits)) lower upper true
      = decodeRealGiven (.flags bits) lower upper false := by
  simp only [decodeRealGiven, vector?_flags, ok_bind, decodeReal_toGray]

end MigrationPlan.Codec
