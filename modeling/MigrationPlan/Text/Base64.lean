/-!
# Text/Base64 — bytes written with 64 characters

Four characters stand for three bytes, and the last of them may be equals signs.  All other
characters are passed over.
-/

namespace MigrationPlan.Text

/-- The six bits that a character stands for. -/
def base64Value? (c : Char) : Option Nat :=
  if 'A' ≤ c && c ≤ 'Z' then some (c.toNat - 'A'.toNat)
  else if 'a' ≤ c && c ≤ 'z' then some (c.toNat - 'a'.toNat + 26)
  else if c.isDigit then some (c.toNat - '0'.toNat + 52)
  else if c = '+' then some 62
  else if c = '/' then some 63
  else none

/-- The bytes from inside a group of four: `held` are the bits that make no byte yet, `filled` the
number of characters read of the group, and `pads` the equals signs since the last of them.  A group
of two or three characters is complete with its equals signs, and nothing counts behind it. -/
def base64From (filled pads held : Nat) : List Char → Option (List UInt8)
  | [] => if filled = 0 then some [] else none
  | c :: cs =>
    if c = '=' then
      if filled < 2 then base64From filled pads held cs
      else if 4 ≤ filled + pads + 1 then some []
      else base64From filled (pads + 1) held cs
    else match base64Value? c with
      | none => base64From filled pads held cs
      | some v =>
        let bits := 64 * held + v
        match filled with
        | 0 => base64From 1 0 v cs
        | 1 => (base64From 2 0 (bits % 16) cs).map ((bits / 16).toUInt8 :: ·)
        | 2 => (base64From 3 0 (bits % 4) cs).map ((bits / 4).toUInt8 :: ·)
        | _ => (base64From 0 0 0 cs).map (bits.toUInt8 :: ·)

/-- The bytes that a text stands for; only ASCII characters may stand in it. -/
def decodeBase64 (cs : List Char) : Option (List UInt8) :=
  if cs.all fun c => c.toNat < 128 then base64From 0 0 0 cs else none

end MigrationPlan.Text
