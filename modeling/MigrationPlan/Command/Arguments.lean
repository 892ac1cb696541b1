import MigrationPlan.Evaluation.Encoding
import MigrationPlan.Fault
import MigrationPlan.Text.IntegerLiteral

/-!
# Command/Arguments — options on a command line

An option is named in full or by a prefix that no other option shares.  Its value is the next
argument, or stands behind an equals sign; the last value given counts.  An argument that looks like
an option is no value: it begins with an option's letter behind one hyphen, or it starts with a
hyphen and is neither a negative number nor a text with a space.  Two hyphens behind an equals sign
are an empty list of values, which no check refuses.
-/

namespace MigrationPlan.Command

/-- An option of a command. -/
structure OptionSpec where
  name : String
  takesValue : Bool
deriving DecidableEq, Repr

/-- The options of a command. -/
abbrev Options := List OptionSpec

/-- What an argument says by itself. -/
inductive Argument where
  | value (s : String)
  | named (spec : OptionSpec) (value : Option String)
  | unknown
deriving DecidableEq, Repr

/-- A negative number: digits, perhaps with a point and digits behind it; a line feed may follow. -/
def isNegativeNumber (cs : List Char) : Bool :=
  let cs := if cs.getLast? = some '\n' then cs.dropLast else cs
  match cs with
  | '-' :: body =>
    match body.dropWhile Text.isDigit with
    | [] => !body.isEmpty
    | '.' :: fraction => !fraction.isEmpty && fraction.all Text.isDigit
    | _ => false
  | _ => false

/-- A name and the value behind the first equals sign. -/
def splitValue (cs : List Char) : List Char × Option (List Char) :=
  match cs.dropWhile (· ≠ '=') with
  | [] => (cs, none)
  | _ :: value => (cs.takeWhile (· ≠ '='), some value)

/-- The options that a name stands for: the one of that name, or all that it begins.  Behind a
single hyphen one letter is the name, and what follows is not. -/
def Options.matching (options : Options) (name : List Char) : Options :=
  match options.filter fun o => o.name.toList = name with
  | [] =>
    if ['-', '-'].isPrefixOf name then options.filter fun o => name.isPrefixOf o.name.toList
    else options.filter fun o => o.name.toList = name.take 2
  | exact => exact

/-- What an argument says by itself. -/
def Options.classify (options : Options) (argument : String) : Argument :=
  let cs := argument.toList
  let (name, value) := splitValue cs
  if cs.head? ≠ some '-' || cs.length = 1 then .value argument
  else match options.matching name with
    | [spec] => .named spec (value.map String.ofList)
    | _ :: _ => .unknown
    | [] => if isNegativeNumber cs || cs.contains ' ' then .value argument else .unknown

/-- The value behind an equals sign.  Two hyphens are dropped before values are counted, and leave a
list of none. -/
def attached (value : String) : Datum :=
  if value = "--" then .node [] else .text value

/-- A given option and its value; options without a value have none. -/
abbrev Given := List (String × Option Datum)

/-- **Reads all arguments.** -/
def Options.read (options : Options) : List String → Except Fault Given
  | [] => .ok []
  | argument :: rest =>
    match options.classify argument with
    | .named ⟨name, false⟩ none => (options.read rest).map ((name, none) :: ·)
    | .named ⟨name, true⟩ (some value) =>
      (options.read rest).map ((name, some (attached value)) :: ·)
    | .named ⟨name, true⟩ none =>
      match rest with
      | value :: rest =>
        match options.classify value with
        | .value s => (options.read rest).map ((name, some (.text s)) :: ·)
        | _ => .error .usage
      | [] => .error .usage
    | _ => .error .usage

namespace Given

/-- The last value given for an option. -/
def last? (given : Given) (name : String) : Option Datum :=
  (given.filterMap fun (n, value) => if n = name then value else none).getLast?

/-- The last value of an option, each of its values being read and so checked. -/
def lastChecked? (given : Given) (name : String) (read : String → Option Datum) :
    Except Fault (Option Datum) := do
  let values := given.filterMap fun (n, value) => if n = name then value else none
  let checked ← values.mapM fun
    | .text s => (read s).elim (.error .usage) .ok
    | d => .ok d
  .ok checked.getLast?

/-- Help is not among the answers of a command. -/
def refuseHelp (given : Given) : Except Fault Unit :=
  if given.any fun (name, _) => name = "-h" || name = "--help" then .error .usage else .ok ()

end Given

/-- A name that stands for an encoding. -/
def encodingName? (s : String) : Option Datum :=
  (Encoding.ofName? s).map fun _ => .text s

end MigrationPlan.Command
