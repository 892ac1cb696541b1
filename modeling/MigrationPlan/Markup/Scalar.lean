import MigrationPlan.Markup.Document
import MigrationPlan.Markup.Tag
import MigrationPlan.Numeric.Conversion
import MigrationPlan.Text.Base64
import MigrationPlan.Text.RealLiteral

/-!
# Markup/Scalar — what a scalar stands for

`Tag.value` reads the text of a scalar as what its tag says.  Underscores in numbers are passed
over, and colons divide sixtieths.
-/

namespace MigrationPlan.Markup

/-! ## Numbers -/

/-- The sign and the characters of a number, without underscores; there has to be one. -/
def splitNumber (cs : List Char) : Except Fault (Bool × List Char) :=
  match cs.filter (· ≠ '_') with
  | [] => .error .positionOutside
  | cs => .ok (Text.splitSign cs)

/-- A whole number. -/
def wholeValue (s : String) : Except Fault Int := do
  let (negative, body) ← splitNumber s.toList
  let n ← match body with
    | [] => .error .positionOutside
    | ['0'] => .ok 0
    | '0' :: 'b' :: cs => Text.readIntegerIn 2 (String.ofList cs)
    | '0' :: 'x' :: cs => Text.readIntegerIn 16 (String.ofList cs)
    | '0' :: _ => Text.readIntegerIn 8 (String.ofList body)
    | _ => do
      let parts ← (Text.split ':' body).mapM fun part => Text.readInteger (String.ofList part)
      .ok (parts.foldl (fun n part => 60 * n + part) 0)
  .ok (if negative then -n else n)

/-- Sixtieths, the last one first, each with the weight of its place. -/
def sixtieths : (weight : Nat) → (sum : Binary64) → List Binary64 → Except Fault Binary64
  | _, sum, [] => .ok sum
  | weight, sum, x :: rest => do
    let w ← (Number.whole weight).toReal?
    sixtieths (60 * weight) (sum.add (x.mul w)) rest

/-- A number that need not be whole. -/
def realValue (s : String) : Except Fault Binary64 := do
  let (negative, body) ← splitNumber (s.toList.map Char.toLower)
  let x ←
    if body = ".inf".toList then .ok (.infinity false)
    else if body = ".nan".toList then .ok .nan
    else match Text.split ':' body with
      | [_] => Text.readReal (String.ofList body)
      | parts => do
        let xs ← parts.mapM fun part => Text.readReal (String.ofList part)
        sixtieths 1 0 xs.reverse
  .ok (if negative then x.neg else x)

/-! ## Times -/

def isLeapYear (year : Nat) : Bool :=
  (year % 4 = 0 && year % 100 ≠ 0) || year % 400 = 0

/-- The number of days of a month. -/
def daysOfMonth (year month : Nat) : Nat :=
  if month = 2 then if isLeapYear year then 29 else 28
  else if [4, 6, 9, 11].contains month then 30
  else 31

/-- A date that is one. -/
def checkDate (year month day : Nat) : Except DateFault Unit :=
  if year = 0 then .error (.year year)
  else if month = 0 || 12 < month then .error .month
  else if day = 0 || daysOfMonth year month < day then .error .day
  else .ok ()

/-- A time of day that is one. -/
def checkClock (hour minute second : Nat) : Except DateFault Unit :=
  if 23 < hour then .error .hour
  else if 59 < minute then .error .minute
  else if 59 < second then .error .second
  else .ok ()

/-- An offset of less than a day. -/
def checkZone (negative : Bool) (hours minutes : Nat) : Except DateFault Unit :=
  let total := 60 * hours + minutes
  if 1440 ≤ total then .error (.offset negative total) else .ok ()

/-- A time whose parts are in their ranges. -/
def checkTime (parts : Tag.TimeParts) : Except DateFault Unit := do
  let number := Text.digitsValue
  match parts.clock, parts.zone with
  | some _, some (sign, hours, minutes) => checkZone (sign = '-') (number hours) (number minutes)
  | _, _ => .ok ()
  checkDate (number parts.year) (number parts.month) (number parts.day)
  match parts.clock with
  | some (hour, minute, second) => checkClock (number hour) (number minute) (number second)
  | none => .ok ()

/-! ## Values -/

/-- A truth value, in any mixture of capital and small letters. -/
def flagValue (s : String) : Except Fault Bool :=
  let word := String.ofList (s.toList.map Char.toLower)
  if Tag.trueWords.contains word then .ok true
  else if Tag.falseWords.contains word then .ok false
  else .error .noSuchWord

/-- Bytes in base 64. -/
def bytesValue (s : String) : Except Fault Document :=
  match Text.decodeBase64 s.toList with
  | some bytes => .ok (.bytes (String.fromUTF8? ⟨bytes.toArray⟩))
  | none => .error (.malformed .constructing)

/-- A time, which is kept as it is written. -/
def timeValue (s : String) : Except Fault Document :=
  match Tag.timeParts? (Tag.withoutLastBreak s.toList) with
  | some parts => ((checkTime parts).mapError Fault.date).map fun _ => .time s
  | none => .error .noParts

/-- **What a scalar stands for.**  Text that is broken can only stand for itself or for nothing. -/
def Tag.value (tag : Tag) (text : Option String) : Except Fault Document :=
  match tag, text with
  | .missing, _ => .ok .missing
  | .text, some s => .ok (.text s)
  | .text, none => .ok .brokenText
  | .flag, some s => (flagValue s).map fun b => .number (.flag b)
  | .whole, some s => (wholeValue s).map fun i => .number (.whole i)
  | .real, some s => (realValue s).map fun x => .number (.real x)
  | .bytes, some s => bytesValue s
  | .time, some s => timeValue s
  | .flag, none => .error .noSuchWord
  | .whole, none => .error (.notAnIntegerText 10 "")
  | .real, none => .error (.notARealText "")
  | .time, none => .error .noParts
  | _, _ => .error (.malformed .constructing)

end MigrationPlan.Markup
