import MigrationPlan.Problem.Basic
import MigrationPlan.Text.IntegerLiteral
import MigrationPlan.Text.Lines
import MigrationPlan.Text.Pattern

/-!
# Problem/Text — problems as files

A problem file announces its numbers of versions and functionalities and lists, version by version,
a budget and then a cost and a value for each functionality.  Blank lines and lines that start with
`#` mean nothing; the others are read by position, and `ofLines` names the first that is not what
its position asks for.  `render` writes the same format.
-/

namespace MigrationPlan

namespace Problem

open Text (Pattern)

/-! ## Lines -/

/-- A line that means something: its number in the file and its text without surrounding blanks. -/
structure Line where
  number : Nat
  text : List Char
deriving DecidableEq, Repr

/-- Blank lines and comments mean nothing. -/
def isMeaningful (text : List Char) : Bool :=
  !text.isEmpty && text.head? ≠ some '#'

/-- The meaningful lines among physical lines numbered from `number`. -/
def meaningfulFrom (number : Nat) : List (List Char) → List Line
  | [] => []
  | l :: ls =>
    let text := Text.trim l
    if isMeaningful text then ⟨number, text⟩ :: meaningfulFrom (number + 1) ls
    else meaningfulFrom (number + 1) ls

/-- The meaningful lines; physical lines count from one. -/
def meaningful (ls : List (List Char)) : List Line :=
  meaningfulFrom 1 ls

/-! ## Patterns -/

def specificationPattern : Pattern :=
  [.word "Software", .someBlanks, .word "migration", .someBlanks, .word "problem", .someBlanks,
   .word "specification", .blanks, .word "(", .blanks, .number, .someBlanks, .word "versions",
   .blanks, .word ",", .blanks, .number, .someBlanks, .word "functionalities", .blanks, .word ")"]

/-- A keyword with a colon, then a number behind a plus sign. -/
def entryPattern (keyword : String) : Pattern :=
  [.word keyword, .blanks, .word "+", .number]

/-! ## Reading -/

def formatFault (c : LineClass) (line : Line) (detail : String) : Fault :=
  .format ⟨c, some line.number, detail⟩

/-- Takes the next line, whatever it holds. -/
def nextLine (c : LineClass) : List Line → Except Fault (Line × List Line)
  | [] => .error (.format ⟨c, none, "unexpected end of input"⟩)
  | l :: rest => .ok (l, rest)

/-- Takes the next line, which has to match. -/
def nextMatch (c : LineClass) (pattern : Pattern) (ls : List Line) :
    Except Fault (Line × List (List Char) × List Line) := do
  let (line, rest) ← nextLine c ls
  match pattern.match? line.text with
  | some numbers => .ok (line, numbers, rest)
  | none => .error (formatFault c line (Text.quoted (String.ofList line.text)))

/-- Takes the next line, which has to hold an entry. -/
def nextEntry (c : LineClass) (keyword : String) (ls : List Line) :
    Except Fault (Nat × List Line) := do
  let (line, numbers, rest) ← nextMatch c (entryPattern keyword) ls
  let n ← Text.digitsToNat numbers.flatten
  if maxEntry < n then
    .error (formatFault c line (toString n ++ " exceeds " ++ toString maxEntry))
  .ok (n, rest)

/-- What a version's lines hold. -/
structure VersionData where
  budget : Nat
  cost : List Nat
  value : List Nat
deriving DecidableEq, Repr

/-- Reads the cost and value of `count` functionalities. -/
def readFunctionalities : (count : Nat) → List Line → Except Fault (List (Nat × Nat) × List Line)
  | 0, ls => .ok ([], ls)
  | count + 1, ls => do
    let (_, ls) ← nextLine .label ls
    let (cost, ls) ← nextEntry .cost "cost:" ls
    let (value, ls) ← nextEntry .businessValue "bvalue:" ls
    let (others, ls) ← readFunctionalities count ls
    .ok ((cost, value) :: others, ls)

/-- Reads `count` versions. -/
def readVersions (functionalities : Nat) :
    (count : Nat) → List Line → Except Fault (List VersionData × List Line)
  | 0, ls => .ok ([], ls)
  | count + 1, ls => do
    let (_, ls) ← nextLine .separator ls
    let (_, ls) ← nextLine .label ls
    let (budget, ls) ← nextEntry .budget "budget:" ls
    let (entries, ls) ← readFunctionalities functionalities ls
    let (others, ls) ← readVersions functionalities count ls
    .ok (⟨budget, entries.map (·.1), entries.map (·.2)⟩ :: others, ls)

/-- Reads the announced numbers of versions and functionalities. -/
def readSpecification (ls : List Line) : Except Fault (Nat × Nat × List Line) := do
  let (line, numbers, rest) ← nextMatch .specification specificationPattern ls
  let n ← Text.digitsToNat (numbers.getD 0 [])
  let m ← Text.digitsToNat (numbers.getD 1 [])
  if n < 1 || m < 1 then
    .error (formatFault .specification line
      ("need at least one version and one functionality, got " ++ toString n ++ " versions, "
        ++ toString m ++ " functionalities"))
  .ok (n, m, rest)

/-- There is room for the arrays of a problem of this size, first for the budgets and then for the
matrices. -/
def checkSize [Memory] (n m : Nat) : Except Fault Unit := do
  let _ ← newSide? 8 (.whole n)
  if maxEntry < m then .error .sideTooLarge
  let _ ← room? 8 (n * m)
  .ok ()

/-- **Reads a problem from physical lines**; what follows its last line is not looked at. -/
def ofLines [Memory] (ls : List (List Char)) : Except Fault Problem := do
  let (n, m, rest) ← readSpecification (meaningful ls)
  checkSize n m
  let (data, _) ← readVersions m n rest
  .ok ⟨n, m, data.map (·.value), data.map (·.cost), data.map (·.budget)⟩

/-- Reads a problem from text in memory. -/
def ofText [Memory] (s : String) : Except Fault Problem :=
  ofLines (Text.lines Text.memoryRule s)

/-- Reads a problem from a text or from a list of lines.  A line that is no text is found out when
it is reached. -/
def ofSource [Memory] : Datum → Except Fault Problem
  | .text s => ofText s
  | .leaf _ => .error .notANumber
  | .node parts =>
    let lines := parts.map fun | Datum.text s => some s.toList | _ => none
    let good := (lines.takeWhile Option.isSome).filterMap id
    match ofLines good with
    | .error (.format ⟨c, none, detail⟩) =>
      .error (if good.length < lines.length then .notALine else .format ⟨c, none, detail⟩)
    | result => result

/-- Reads a problem from the text of a file. -/
def ofFileText [Memory] (s : String) : Except Fault Problem :=
  ofLines (Text.lines Text.fileRule s)

/-! ## Writing -/

/-- The lines of one functionality, numbered from one. -/
def renderFunctionality (number cost value : Nat) : List String :=
  [" functionality " ++ toString number ++ ":", "  cost: +" ++ toString cost,
   "  bvalue: +" ++ toString value]

/-- The lines of the functionalities numbered from `number`. -/
def renderFunctionalities : (number : Nat) → List Nat → List Nat → List String
  | number, cost :: costs, value :: values =>
    renderFunctionality number cost value ++ renderFunctionalities (number + 1) costs values
  | _, _, _ => []

/-- The lines of one version. -/
def renderVersion (label : String) (budget : Nat) (costs values : List Nat) : List String :=
  ["=", "Version " ++ label ++ ":", " budget: +" ++ toString budget]
    ++ renderFunctionalities 1 costs values

/-- The lines of the versions. -/
def renderVersions : List String → List Nat → List (List Nat) → List (List Nat) → List String
  | label :: labels, budget :: budgets, cost :: costs, value :: values =>
    renderVersion label budget cost value ++ renderVersions labels budgets costs values
  | _, _, _, _ => []

/-- The label of each version: its number, counted from one. -/
def defaultLabels (p : Problem) : List String :=
  (List.range p.versions).map fun i => toString (i + 1)

/-- The first line of a problem file. -/
def specificationLine (versions functionalities : Number) : String :=
  "Software migration problem specification (" ++ versions.text ++ " versions, "
    ++ functionalities.text ++ " functionalities)"

/-- The lines of a problem file. -/
def renderLines (p : Problem) (labels : List String) : List String :=
  specificationLine (.whole p.versions) (.whole p.functionalities)
    :: renderVersions labels p.budget p.cost p.value

/-- Lines as a text; each ends in a line feed. -/
def unlines (lines : List String) : String :=
  String.join (lines.map (· ++ "\n"))

/-- **Writes a problem file** with one label per version. -/
def render (p : Problem) (labels : Option (List String)) : Except Fault String :=
  let labels := labels.getD p.defaultLabels
  if labels.length = p.versions then .ok (unlines (p.renderLines labels))
  else .error (.labelCount (.whole p.versions) labels.length)

end Problem

/-- Writes a problem file with sizes as announced and labels as given.  A size that is no whole
number cannot be counted up to. -/
def AnnouncedProblem.render (a : AnnouncedProblem) (labels : Option Datum) :
    Except Fault String := do
  let labels ← match labels with
    | none => do
      let _ ← (Datum.number a.versions).count?
      .ok a.problem.defaultLabels
    | some given => (← given.items?).map Datum.display |> .ok
  if !Problem.hasSides [labels.length] [a.versions] then
    .error (.labelCount a.versions labels.length)
  let _ ← (Datum.number a.functionalities).count?
  .ok (Problem.unlines (Problem.specificationLine a.versions a.functionalities
    :: Problem.renderVersions labels a.problem.budget a.problem.cost a.problem.value))

end MigrationPlan
