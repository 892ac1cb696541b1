import MigrationPlan.Datum.Basic
import MigrationPlan.Markup.Fault
import MigrationPlan.Settings.Fault
import MigrationPlan.Variable.Kind

/-!
# Fault — what can go wrong, and how it is said

Every operation that refuses its input says why by a `Fault`: one constructor per cause, with the
values that the message shows.  `Fault.message` holds all wording, and `Fault.category` sorts the
causes into the categories callers tell apart.  `Outcome` keeps what an operation leaves behind
beside its answer, so that "nothing was written" is a statement about it.
-/

namespace MigrationPlan

/-! ## Lines of an instance file -/

/-- What a line of an instance file is there for. -/
inductive LineClass where
  | specification
  | separator
  | label
  | budget
  | cost
  | businessValue
deriving DecidableEq, Repr

/-- The name of a line class in messages. -/
def LineClass.name : LineClass → String
  | specification => "specification"
  | separator => "separator"
  | label => "label"
  | budget => "budget"
  | cost => "cost"
  | businessValue => "bvalue"

/-- The line at which an instance file stops making sense; no number stands for the end of the
input. -/
structure FormatFault where
  lineClass : LineClass
  lineNumber : Option Nat
  detail : String
deriving DecidableEq, Repr

/-- The message names the class and the line, and the detail if there is one. -/
def formatMessage (lineClass : String) (line detail : Option String) : String :=
  "Software migration data file not properly formatted: invalid " ++ lineClass ++ " line ("
    ++ line.elim "end of input" ("line " ++ ·) ++ ")" ++ detail.elim "" (": " ++ ·)

/-- The message of a fault in a file; an empty detail is none. -/
def FormatFault.message (f : FormatFault) : String :=
  formatMessage f.lineClass.name (f.lineNumber.map toString)
    (if f.detail = "" then none else some f.detail)

/-! ## Causes -/

/-- The arrays of a problem. -/
inductive ProblemArray where
  | value
  | cost
  | budget
deriving DecidableEq, Repr

/-- The name of an array in messages. -/
def ProblemArray.name : ProblemArray → String
  | value => "value"
  | cost => "cost"
  | budget => "budget"

/-- Why an operation refused its input. -/
inductive Fault where
  -- conversions of numbers
  | nanAsInteger
  | numberTooLarge
  | notANumber
  | divisionByZero
  | notAnIntegerText (base : Nat) (text : String)
  | notARealText (text : String)
  | notAnEntryText (text : String)
  | tooManyDigits (count : Nat)
  -- arrays
  | unevenArray (sides : Shape)
  | tooManySides
  | negativeSide
  | sideTooLarge
  | arrayTooLarge
  | uncountable
  | sequenceTooLong
  | outOfMemory
  | emptyMaximum
  | positionOutside
  | noSuchSide
  -- bit vectors
  | bitCount (n : Number)
  | notAVector (sides : Shape)
  | notAnInteger (value : Binary64)
  | negativeInteger (value : Int)
  | tooFewBits (value : Int) (n : Number)
  | degenerateBounds (lower upper : String)
  | outsideBounds (value lower upper : Entry)
  -- decision variables
  | realBounds (lower upper : Binary64)
  | integerBounds (lower upper : Entry)
  | emptyOrNotAVector (sides : Shape)
  | vectorLength (n : Number)
  | selectableRange (lower upper : Entry)
  | capacityRange (capacity length lower upper : Number)
  | overCapacity (count : Nat) (capacity : Number)
  | membersOutside (members : List Int) (lower upper : Number)
  | permutationLength (n : Number)
  | permutationSize (expected : Number) (got : Nat)
  | notAPermutation (last : Number) (order : List Int)
  | unknownKind (name : String)
  -- reading and writing variables
  | wrongKind (wanted got : VariableKind)
  | noSize (kind : VariableKind)
  | notABoolean (bits : Nat)
  | bitsExpected (expected got : Nat)
  | bitIndices (indices : List Int) (length : Nat)
  | duplicateMembers (members : List Int)
  | span (start stop : String) (count : Nat)
  | valuesExpected (expected got : Nat)
  -- solutions and constraints
  | objectivesExpected (expected : Nat) (got : Shape)
  | constraintsExpected (expected : Nat) (got : Shape)
  | slackShapes (cost budget : Shape)
  | nameCount (names values : Nat)
  -- problems
  | versionCount (n : Number)
  | functionalityCount (n : Number)
  | notFull (array : ProblemArray)
  | negativeEntries (array : ProblemArray)
  | matrixShape (array : ProblemArray) (got : Shape) (versions functionalities : Number)
  | budgetShape (got : Shape) (versions : Number)
  | format (fault : FormatFault)
  | notALine
  | labelCount (expected : Number) (got : Nat)
  -- evaluation
  | encodingKind (evaluator : String) (wanted : VariableKind) (got : VariableKind)
  | bitsForFunctionalities (expected got : Nat)
  | subsetForFunctionalities (n lower upper capacity : Number)
  | decisionVariables (expected got : Nat)
  | unknownEncoding (name : String)
  | noEncoding
  | noSolution
  -- documents and settings
  | malformed (fault : SyntaxFault)
  | nestedTooDeep
  | codePointTooLarge
  | noSuchWord
  | date (fault : DateFault)
  | noParts
  | noMapping
  | invalid (issues : List Issue)
  -- command line
  | usage
  | bitString (length : Nat) (got : String)
  | fileMissing (path : String)
  | isDirectory (path : String)
  | nameTooLong (path : String)
  | fileExists (path : String)
  | notADirectory (path : String)
  | nullInPath
deriving DecidableEq

/-! ## Categories -/

/-- The categories callers tell apart. -/
inductive FaultCategory where
  | range
  | kind
  | length
  | dimension
  | format
  | value
  | overflow
  | type
  | feature
  | zeroDivision
  | position
  | side
  | memory
  | word
  | depth
  | markup (fault : SyntaxFault)
  | missingEncoding
  | settings
  | missingFile
  | directory
  | system
  | exit
deriving DecidableEq, Repr

/-- The category of a cause. -/
def Fault.category : Fault → FaultCategory
  | nanAsInteger | notAnIntegerText .. | notARealText _ | notAnEntryText _ | tooManyDigits _
  | unevenArray _ | tooManySides | negativeSide | sideTooLarge | arrayTooLarge | uncountable
  | sequenceTooLong | emptyMaximum | labelCount .. | unknownEncoding _ | codePointTooLarge
  | date _ | nullInPath => .value
  | numberTooLarge => .overflow
  | notANumber => .type
  | noSize _ | notALine | noSolution | noParts | noMapping => .feature
  | divisionByZero => .zeroDivision
  | positionOutside => .position
  | noSuchSide => .side
  | outOfMemory => .memory
  | bitCount _ | notAVector _ | notAnInteger _ | negativeInteger _ | tooFewBits ..
  | degenerateBounds .. | outsideBounds .. | realBounds .. | integerBounds .. | vectorLength _
  | selectableRange .. | capacityRange .. | membersOutside .. | permutationLength _
  | notAPermutation .. | span .. | versionCount _ | functionalityCount _
  | negativeEntries _ => .range
  | emptyOrNotAVector _ | overCapacity .. | permutationSize .. | bitsExpected .. | bitIndices ..
  | duplicateMembers _ | valuesExpected .. => .length
  | unknownKind _ | wrongKind .. | notABoolean _ | encodingKind .. => .kind
  | objectivesExpected .. | constraintsExpected .. | slackShapes .. | nameCount .. | notFull _
  | matrixShape .. | budgetShape .. | bitsForFunctionalities .. | subsetForFunctionalities ..
  | decisionVariables .. => .dimension
  | format _ => .format
  | noEncoding => .missingEncoding
  | malformed fault => .markup fault
  | nestedTooDeep => .depth
  | noSuchWord => .word
  | invalid _ => .settings
  | usage | bitString .. => .exit
  | fileMissing _ => .missingFile
  | isDirectory _ => .directory
  | nameTooLong _ | fileExists _ | notADirectory _ => .system

/-! ## Wording -/

/-- Integers in brackets, separated by commas. -/
def listText (xs : List Int) : String :=
  "[" ++ ", ".intercalate (xs.map toString) ++ "]"

/-- A closed range. -/
def closedText (lower upper : String) : String :=
  "[" ++ lower ++ ", " ++ upper ++ "]"

/-- A range without its upper end. -/
def halfOpenText (lower upper : String) : String :=
  "[" ++ lower ++ ", " ++ upper ++ ")"

/-- The message of a cause. -/
def Fault.message : Fault → String
  | nanAsInteger => "cannot convert float NaN to integer"
  | numberTooLarge => "number too large"
  | notANumber => "not a number"
  | divisionByZero => "division by zero"
  | notAnIntegerText base text =>
    "invalid literal for int() with base " ++ toString base ++ ": " ++ Text.quotedUpTo 200 text
  | notARealText text => "could not convert string to float: " ++ Text.quoted text
  | notAnEntryText text => "could not convert string to float: np.str_(" ++ Text.quoted text ++ ")"
  | tooManyDigits count =>
    "Exceeds the limit (4300 digits) for integer string conversion: value has " ++ toString count
      ++ " digits; use sys.set_int_max_str_digits() to increase the limit"
  | unevenArray sides =>
    "setting an array element with a sequence. The requested array has an inhomogeneous shape "
      ++ "after " ++ toString sides.length ++ " dimensions. The detected shape was "
      ++ Shape.text sides ++ " + inhomogeneous part."
  | tooManySides =>
    "setting an array element with a sequence. The requested array would exceed the maximum number "
      ++ "of dimension of 64."
  | negativeSide => "negative dimensions are not allowed"
  | sideTooLarge => "Maximum allowed dimension exceeded"
  | arrayTooLarge => "array is too big; `arr.size * arr.dtype.itemsize` is larger than the maximum "
      ++ "possible size."
  | uncountable => "arange: cannot compute length"
  | sequenceTooLong => "Maximum allowed size exceeded"
  | outOfMemory => "out of memory"
  | emptyMaximum => "zero-size array to reduction operation maximum which has no identity"
  | positionOutside => "position outside the array"
  | noSuchSide => "the array has no such side"
  | bitCount n => "invalid number of bits: " ++ n.text ++ " (expected 1..63)"
  | notAVector sides => "bit vector must be 1-D, got shape " ++ Shape.text sides
  | notAnInteger value => "not an integer value: " ++ value.text
  | negativeInteger value => "negative value: " ++ toString value
  | tooFewBits value n =>
    "number of bits not sufficient to represent value: " ++ toString value ++ " >= 2**"
      ++ n.text
  | degenerateBounds lower upper => "degenerate bounds: lower=" ++ lower ++ ", upper=" ++ upper
  | outsideBounds value lower upper =>
    "value " ++ value.display ++ " outside bounds " ++ closedText lower.display upper.display
  | realBounds lower upper => "invalid real bounds: " ++ closedText lower.text upper.text
  | integerBounds lower upper =>
    "invalid integer bounds: " ++ closedText lower.display upper.display
  | emptyOrNotAVector sides =>
    "bit vector must be 1-D and non-empty, got shape " ++ Shape.text sides
  | vectorLength n => "bit vector length must be >= 1, got " ++ n.text
  | selectableRange lower upper =>
    "invalid selectable range: " ++ halfOpenText lower.display upper.display
  | capacityRange capacity length lower upper =>
    "capacity " ++ capacity.text ++ " outside 0.." ++ length.text ++ " for range "
      ++ halfOpenText lower.text upper.text
  | overCapacity count capacity =>
    toString count ++ " members exceed capacity " ++ capacity.text
  | membersOutside members lower upper =>
    "members " ++ listText members ++ " outside " ++ halfOpenText lower.text upper.text
  | permutationLength n => "permutation length must be >= 1, got " ++ n.text
  | permutationSize expected got =>
    "permutation length mismatch: expected " ++ expected.text ++ ", got " ++ toString got
  | notAPermutation last order =>
    "not a permutation of 0.." ++ last.text ++ ": " ++ listText order
  | unknownKind name => "unknown variable kind: " ++ name
  | wrongKind wanted got => "not " ++ wanted.wanted ++ ": " ++ got.name
  | noSize kind => kind.name ++ " has no size"
  | notABoolean bits => "not a boolean variable: " ++ toString bits ++ " bits"
  | bitsExpected expected got =>
    "must have same number of bits: expected " ++ toString expected ++ ", got " ++ toString got
  | bitIndices indices length =>
    "bit indices " ++ listText indices ++ " exceed bit vector length " ++ toString length
  | duplicateMembers members => "duplicate subset members: " ++ listText members
  | span start stop count =>
    "invalid variable range " ++ halfOpenText start stop ++ " for " ++ toString count
      ++ " variables"
  | valuesExpected expected got =>
    "expected " ++ toString expected ++ " values, got " ++ toString got
  | objectivesExpected expected got =>
    "Expected " ++ toString expected ++ " objectives, got " ++ Shape.text got
  | constraintsExpected expected got =>
    "Expected " ++ toString expected ++ " constraints, got " ++ Shape.text got
  | slackShapes cost budget =>
    "Cost/budget length mismatch: " ++ Shape.text cost ++ " vs " ++ Shape.text budget
  | nameCount names values =>
    "Constraint name/value length mismatch: " ++ toString names ++ " names vs " ++ toString values
      ++ " values"
  | versionCount n => "n_versions must be >= 1, got " ++ n.text
  | functionalityCount n => "n_functionalities must be >= 1, got " ++ n.text
  | notFull array => array.name ++ " is not a fully populated array"
  | negativeEntries array => array.name ++ " entries must be non-negative"
  | matrixShape array got versions functionalities =>
    array.name ++ " shape " ++ Shape.text got ++ ", expected (" ++ versions.text ++ ", "
      ++ functionalities.text ++ ")"
  | budgetShape got versions =>
    "budget shape " ++ Shape.text got ++ ", expected (" ++ versions.text ++ ",)"
  | format fault => fault.message
  | notALine => "a line is no text"
  | labelCount expected got =>
    "Expected " ++ expected.text ++ " version labels, got " ++ toString got
  | encodingKind evaluator wanted got =>
    evaluator ++ " expects " ++ (if wanted = .subset then "a subset variable" else wanted.wanted)
      ++ ", got " ++ got.name
  | bitsForFunctionalities expected got =>
    "Expected " ++ toString expected ++ " bits, got " ++ toString got
  | subsetForFunctionalities n lower upper capacity =>
    "Expected subset over [0, " ++ n.text ++ ") with capacity <= " ++ n.text ++ ", got "
      ++ halfOpenText lower.text upper.text ++ " with capacity " ++ capacity.text
  | decisionVariables expected got =>
    "Expected " ++ toString expected ++ " decision variable, got " ++ toString got
  | unknownEncoding name =>
    "Unknown encoding " ++ name ++ ", expected one of ['binary', 'subset']"
  | noEncoding => "no encoding"
  | noSolution => "no solution"
  | malformed fault => fault.message
  | nestedTooDeep => "the nodes are nested too deep"
  | codePointTooLarge => "chr() arg not in range(0x110000)"
  | noSuchWord => "no word for a truth value"
  | date fault => fault.message
  | noParts => "no time"
  | noMapping => "overrides are not a mapping"
  | invalid issues => "\n".intercalate (issues.map Issue.message)
  | usage => "2"
  | bitString length got =>
    "--bits must be " ++ toString length ++ " characters of 0/1, got " ++ got
  | fileMissing path => "file not found: " ++ path
  | isDirectory path => "file is a directory: " ++ path
  | nameTooLong path => "file name too long: " ++ path
  | fileExists path => "file exists: " ++ path
  | notADirectory path => "not a directory: " ++ path
  | nullInPath => "embedded null byte"

/-! ## Outcomes -/

/-- What an operation leaves behind, and its answer. -/
structure Outcome (σ α : Type) where
  state : σ
  answer : Except Fault α

/-- An operation that leaves its changes behind only if it succeeds. -/
def Outcome.commit {σ α : Type} (before : σ) (result : Except Fault (σ × α)) : Outcome σ α :=
  match result with
  | .ok (after, a) => ⟨after, .ok a⟩
  | .error fault => ⟨before, .error fault⟩

end MigrationPlan
