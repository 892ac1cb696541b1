import MigrationPlan.Numeric.Conversion
import MigrationPlan.Settings.Basic
import MigrationPlan.Settings.Fault
import MigrationPlan.Text.IntegerLiteral
import MigrationPlan.Text.Path
import MigrationPlan.Text.Split

/-!
# Settings/Check — from documents to settings

A document is checked field by field (`Coercions.validator`).  Fields that are absent have their
default, unknown ones are passed over, and all offending fields are reported together, in the order
of the fields.  How a value is taken, a text for a number perhaps, is left to `Coercions`.

`Settings.merge` lays overrides over settings and checks the result.  The check is left to a
`Validator`; `Settings.ofDocument` is the one that is used.
-/

namespace MigrationPlan

/-! ## Values -/

/-- A value checked by itself. -/
abbrev Checked (α : Type) := Except IssueKind α

/-- Text without the white space around it; the separators U+001C to U+001F are none. -/
def trimmed (cs : List Char) : List Char :=
  ((cs.dropWhile Text.literalBlank).reverse.dropWhile Text.literalBlank).reverse

/-- Text without its underscores.  There is no answer unless it has some, all of them single and
none at an end. -/
def withoutGaps? (cs : List Char) : Option (List Char) :=
  let parts := Text.split '_' cs
  if parts.length = 1 || parts.any List.isEmpty then none else some parts.flatten

/-! ### Integers as text -/

/-- The most characters of an integer, its sign included. -/
def integerLimit : Nat := 4300

/-- An integer in its plain form: a minus sign perhaps, and digits of which only a single one may be
a zero in front. -/
def plainInteger (cs : List Char) : Checked Int :=
  let (negative, body) : Bool × List Char :=
    match cs with
    | '-' :: body => (true, body)
    | body => (false, body)
  let digits := body.takeWhile Char.isDigit
  let signs := if negative then 1 else 0
  if digits.isEmpty || (digits.head? = some '0' && digits ≠ ['0']) then .error .notAnIntegerText
  else if integerLimit < signs + digits.length then .error .tooManyDigits
  else if digits.length < body.length then .error .notAnIntegerText
  else .ok (Text.signed negative (Decimal.digitsFrom 0 digits))

/-- What is left behind zeros and underscores; `before` is the last of them. -/
def behindZeros (before : Char) : List Char → Option (List Char)
  | [] => some [before]
  | c :: cs =>
    if c = '0' || c = '_' then behindZeros c cs
    else if c.isDigit || c = '-' then some (c :: cs)
    else if c = '.' then some (before :: c :: cs)
    else none

/-- A text without zeros in front; it has to begin with a digit or a minus sign. -/
def withoutZeros? : List Char → Option (List Char)
  | [] => none
  | c :: cs =>
    if c = '0' then behindZeros c cs
    else if c.isDigit || c = '-' then some (c :: cs)
    else none

/-- A text without a fraction of zeros. -/
def withoutFraction (cs : List Char) : List Char :=
  match cs.dropWhile (· ≠ '.') with
  | _ :: fraction =>
    if !fraction.isEmpty && fraction.all (· = '0') then cs.takeWhile (· ≠ '.') else cs
  | [] => cs

/-- An integer as text.  It need not be in its plain form: there may be white space around it, zeros
in front, a fraction of zeros, and single underscores inside. -/
def integerOfText (s : String) : Checked Int :=
  let cs := s.toList
  match plainInteger cs with
  | .ok i => .ok i
  | .error .tooManyDigits => .error .tooManyDigits
  | .error _ =>
    match withoutZeros? (trimmed cs) with
    | none => .error .notAnIntegerText
    | some body =>
      let body := withoutFraction body
      (plainInteger ((withoutGaps? body).getD body)).mapError fun _ => .notAnIntegerText

/-- A double as text, with white space around it or with single underscores inside, but not both. -/
def realOfText (s : String) : Checked Binary64 :=
  let read := fun (cs : List Char) => Binary64.read? (String.ofList cs)
  match read (trimmed s.toList) with
  | some x => .ok x
  | none =>
    match (withoutGaps? s.toList).bind read with
    | some x => .ok x
    | none => .error .notANumberText

/-! ### Numbers -/

/-- A whole number: an integer, a truth value, a double below `2 ^ 63` without a fraction, or text.
-/
def wholeOf : Document → Checked Int
  | .number (.flag b) => .ok (if b then 1 else 0)
  | .number (.whole i) => .ok i
  | .number (.real x) =>
    if !x.isFinite then .error .notFinite
    else if x.toRat.den ≠ 1 then .error .fractional
    else if 0x8000000000000000 ≤ x.toRat.abs then .error .tooManyDigits
    else .ok x.toRat.num
  | .text s => integerOfText s
  | .bytes s => s.elim (.error .notAnIntegerText) integerOfText
  | .brokenText => .error .brokenText
  | _ => .error .notAnInteger

/-- A double: a number of any form, or text. -/
def realOf : Document → Checked Binary64
  | .number x => (x.toReal?).mapError fun _ => .notANumber
  | .text s => realOfText s
  | .bytes s => s.elim (.error .notANumberText) realOfText
  | .brokenText => .error .brokenText
  | _ => .error .notANumber

/-- The least and perhaps the greatest admissible number. -/
structure Limits where
  least : Nat
  greatest : Option Nat
deriving DecidableEq, Repr

def populationLimits : Limits := ⟨4, some 10000⟩
def generationLimits : Limits := ⟨1, some 100000⟩
def seedLimits : Limits := ⟨0, none⟩

/-- A whole number within limits; `read` finds it. -/
def countWithin (read : Document → Checked Int) (limits : Limits) (d : Document) :
    Checked Nat := do
  let i ← read d
  if limits.greatest.any fun g => g < i then .error .aboveGreatest
  else if i < limits.least then .error .belowLeast
  else .ok i.toNat

/-- A probability; `read` finds it.  It is compared with one first, and `nan` is not below it. -/
def probabilityOf (read : Document → Checked Binary64) (d : Document) : Checked Binary64 := do
  let x ← read d
  if !x.le 1 then .error .aboveGreatest
  else if x.lt 0 then .error .belowLeast
  else .ok x

/-- A value that may be missing. -/
def optional {α : Type} (check : Document → Checked α) : Document → Checked (Option α)
  | .missing => .ok none
  | d => (check d).map some

def pathOf : Document → Checked String
  | .text s => .ok (Text.normalPath s)
  | _ => .error .notAPath

def encodingOf : Document → Checked Encoding
  | .text s => (Encoding.ofName? s).elim (.error .notAChoice) .ok
  | _ => .error .notAChoice

/-! ## Fields -/

/-- A value, or all issues found on the way to it. -/
abbrev Verdict (α : Type) := Except (List Issue) α

/-- A function and its argument; the issues of both are kept. -/
def Verdict.both {α β : Type} (f : Verdict (α → β)) (x : Verdict α) : Verdict β :=
  match f, x with
  | .ok f, .ok a => .ok (f a)
  | .ok _, .error issues => .error issues
  | .error issues, .ok _ => .error issues
  | .error issues, .error more => .error (issues ++ more)

/-- The field under a key, or its default; `path` leads to the mapping. -/
def fieldOf {α : Type} (path : List String) (fields : Fields) (key : String) (default : α)
    (check : Document → Checked α) : Verdict α :=
  match fields.get? key with
  | none => .ok default
  | some d => (check d).mapError fun kind => [⟨path ++ [key], kind⟩]

/-- The numbers of a search that fields hold; `whole` and `real` take their values. -/
def SearchSettings.ofFields (whole : Document → Checked Int) (real : Document → Checked Binary64)
    (path : List String) (fields : Fields) : Verdict SearchSettings :=
  let default : SearchSettings := {}
  let ok : Verdict _ := .ok SearchSettings.mk
  let count := countWithin whole
  let probability := probabilityOf real
  ok.both (fieldOf path fields "pop_size" default.populationSize (count populationLimits))
    |>.both (fieldOf path fields "n_gen" default.generations (count generationLimits))
    |>.both (fieldOf path fields "seed" default.seed (count seedLimits))
    |>.both (fieldOf path fields "crossover_prob" default.crossover probability)
    |>.both (fieldOf path fields "mutation_prob" default.mutation (optional probability))

/-! ## Coercions -/

/-- **How values are taken** for what a field keeps: for whole numbers, doubles, paths and
encodings, and for the numbers of a search where no mapping of them is given. -/
structure Coercions where
  whole : Document → Checked Int
  real : Document → Checked Binary64
  path : Document → Checked String
  encoding : Document → Checked Encoding
  search : Document → Verdict SearchSettings

/-- A record of the numbers of a search is taken for what a mapping of its fields is taken for. -/
def recordOf (path : List String) : Document → Verdict SearchSettings
  | .record fields => SearchSettings.ofFields wholeOf realOf path fields
  | _ => .error [⟨path, .notAMapping⟩]

/-- Numbers may be written as text, and the numbers of a search may be a record. -/
def Coercions.plain : Coercions :=
  ⟨wholeOf, realOf, pathOf, encodingOf, recordOf ["optimization"]⟩

/-! ## Settings -/

/-- Finds the settings that a document holds, or says what is wrong with it. -/
abbrev Validator := Document → Except Fault Settings

/-- The settings that fields hold; the numbers of the search may have a mapping of their own. -/
def Settings.ofFields (c : Coercions) (fields : Fields) : Verdict Settings :=
  let default : Settings := {}
  let search := match fields.get? "optimization" with
    | none => .ok default.search
    | some (.mapping inner) => SearchSettings.ofFields c.whole c.real ["optimization"] inner
    | some d => c.search d
  let ok : Verdict _ := .ok Settings.mk
  ok.both (fieldOf [] fields "instance" default.problemFile (optional c.path))
    |>.both (fieldOf [] fields "encoding" default.encoding c.encoding)
    |>.both search

/-- **Checks a document field by field**; the coercions take the values. -/
def Coercions.validator (c : Coercions) : Validator
  | .mapping fields | .record fields => (Settings.ofFields c fields).mapError .invalid
  | _ => .error (.invalid [⟨[], .notAMapping⟩])

namespace Settings

/-- **The settings that a document holds.** -/
def ofDocument : Validator :=
  Coercions.plain.validator

/-- **Settings with overrides laid over them**, which are a mapping. -/
def merge (base : Settings) (overrides : Document) (validate : Validator := ofDocument) :
    Except Fault Settings :=
  match overrides with
  | .mapping fields => validate (base.toDocument.overlay (.mapping fields))
  | _ => .error .noMapping

end Settings

end MigrationPlan
